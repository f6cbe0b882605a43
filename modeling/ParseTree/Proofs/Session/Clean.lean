import ParseTree.Proofs.Session.Rooted

/-!
# Errors are never lost

An error that was reported waits for a leaf or is attached to a node below the root, and there it
stays: leaves take up waiting errors, merges spare nodes with an error, and wrappers keep what they
wrap below the root. So a session without errors never had one.

## Main definitions

* `Clean`: no error waits, and no node below the root carries one

## Main results

* `Change.clean`: if a session is clean after an operation, it was before
-/

namespace ParseTree

open Session

variable {σ γ : Type}

/-- No error waits, and no node below the root carries one. -/
structure Clean (s : Session σ γ) : Prop where
  /-- No error waits. -/
  pending : s.pending = none
  /-- No node below the root carries one. -/
  error : ∀ x, s.tree.shape.Below x Tree.root → (s.tree.node x).error = none

section Clean

variable {env : Setting σ γ} {s s' : Session σ γ} {d : ℕ} {ts : List Token}

theorem Similar.clean (h : Similar s s') (hr : Rooted s d) (hc : Clean s') : Clean s := by
  have herror (x : NodeId) (hx : s.tree.shape.Below x Tree.root) :
      (s'.tree.node x).error = none := by
    apply hc.error x
    rwa [h.nodes.shape]
  constructor
  · by_contra hp
    rcases h.pending (Option.isSome_iff_ne_none.mpr hp) with hp' | ⟨x, hx, he⟩
    · rw [hc.pending] at hp'
      cases hp'
    · rw [herror x (hx.trans hr.below_root)] at he
      cases he
  · intro x hx
    by_contra he
    have he' := h.error x (Option.isSome_iff_ne_none.mpr he)
    rw [herror x hx] at he'
    cases he'

/-- A visible leaf carries the error that waited for it. -/
theorem leafError_eq_none {t : Token} {i : ℕ} (h : s.leafError env t i = none) :
    t.isHidden ∨ s.pending = none := by
  rw [leafError] at h
  split_ifs at h with hinvalid hhidden hhidden
  · exact Or.inl hhidden
  · exact absurd h (by cases s.pending <;> simp [SyntaxError.mergeInto])
  · exact Or.inl hhidden
  · exact Or.inr h

theorem clean_of_createLeaf {t : Token} {i : ℕ} {element : Option ElementId}
    {feature : Option String} (hr : Rooted s d)
    (hc : Clean (s.createLeaf env t i element feature)) : Clean s := by
  have hs := shape_createLeaf env s t i element feature hr.toLinked
  have hl := sameButLookahead_createLeaf env s t i element feature
  have hne := Tree.ne_nextId_of_contains hr.current.contains
  have herror (x : NodeId) : ((s.createLeaf env t i element feature).tree.node x).error =
      if x = s.tree.nextId then s.leafError env t i else (s.tree.node x).error := by
    rw [hl.error]
    exact Tree.error_addLeaf x
  have hnew : (s.createLeaf env t i element feature).tree.shape.Below s.tree.nextId Tree.root := by
    have hp : (s.createLeaf env t i element feature).tree.shape.parent? s.tree.nextId =
        some s.current := parent?_nextId_createLeaf hr.toLinked ..
    refine Relation.ReflTransGen.head hp ?_
    exact (hr.createLeaf t i element feature).below_root
  constructor
  · have hleaf := hc.error _ hnew
    rw [herror, if_pos rfl] at hleaf
    rcases leafError_eq_none hleaf with hh | hp
    · have := hc.pending
      rw [Session.createLeaf] at this
      simpa [hh] using this
    · exact hp
  · intro x hx
    have hxn := hr.ne_nextId_of_below hx
    have he := hc.error x
    rw [hs, Shape.below_append_iff hr.wellFormed s.tree.isolated_nextId hxn, herror,
      if_neg hxn] at he
    exact he hx

theorem Growth.clean (hg : Growth env s ts s') (hr : Rooted s d) (hc : Clean s') : Clean s := by
  induction hg with
  | done => exact hc
  | leaf hg _ _ _ ih => exact ih (clean_of_createLeaf (hr.growth hg) hc)
  | rest hg hs ih => exact ih (hs.clean (hr.growth hg) hc)

theorem clean_of_newComposite {element : ElementId} (hr : Rooted s d)
    (hc : Clean (s.newComposite env element)) : Clean s := by
  refine ⟨hc.pending, ?_⟩
  intro x hx
  have hs := Tree.shape_addComposite hr.current element (saturate s.cursor.recorded.length)
    (s.anchor env)
  have he : (s.tree.addComposite ..).shape.Below x Tree.root → _ := hc.error x
  rw [hs, Shape.below_append_iff hr.wellFormed s.tree.isolated_nextId
    (hr.ne_nextId_of_below hx)] at he
  exact (Tree.error_addComposite x).symm.trans (he hx)

theorem clean_of_wrapCurrent {action : ElementId} (hr : Rooted s d)
    (hc : Clean (s.wrapCurrent action)) : Clean s := by
  refine ⟨hc.pending, ?_⟩
  intro x hx
  have hbelow : (s.tree.shape.interpose s.current s.tree.nextId).Below x Tree.root :=
    Shape.below_interpose s.tree.isolated_nextId hx
  rw [← shape_wrapCurrent hr.toLinked action] at hbelow
  have he := hc.error x hbelow
  rwa [(sameButLookahead_wrapCurrent s action).error, Tree.error_wrap] at he

/-- A merge takes away no node with an error. -/
theorem clean_of_afterRuleCall (hr : Rooted s (d + 1)) (hc : Clean (s.afterRuleCall env)) :
    Clean s := by
  obtain ⟨p, -, hp⟩ := hr.exists_parent
  rw [afterRuleCall_eq hp] at hc
  cases ha : s.absorbed? env with
  | none =>
    rw [ha] at hc
    exact ⟨hc.pending, hc.error⟩
  | some child =>
    rw [ha] at hc
    have hm := mergeable_of_absorbed? ha
    refine ⟨hc.pending, ?_⟩
    intro x hx
    by_cases hxc : x = child
    · rw [hxc]
      exact hm.error
    · have hbelow := Shape.below_contract hr.wellFormed hm.children hxc
        (hr.absorbed_ne_root ha).symm hx
      rw [← shape_merge hr.toLinked hm] at hbelow
      have he : ((s.merge child).tree.node x).error = none := hc.error x hbelow
      rwa [(sameButLookahead_merge s child).error, Tree.error_absorb hr.wellFormed hm] at he

/-- Operations lose no error. -/
theorem Change.clean {op : Operation} (h : Change env s op s') (hr : Rooted s d)
    (hop : op.closes → 0 < d) (hc : Clean s') : Clean s := by
  cases h with
  | enter =>
    have hs := sameButLookahead_enterRule s
    refine ⟨hc.pending, ?_⟩
    intro x hx
    rw [← hs.error]
    exact hc.error x (hs.shape ▸ hx)
  | opened element => exact clean_of_newComposite hr hc
  | closed =>
    obtain ⟨d, rfl⟩ := Nat.exists_eq_succ_of_ne_zero (Nat.ne_of_gt (hop rfl))
    exact clean_of_afterRuleCall hr hc
  | wrapped h₁ h₂ =>
    have hr₁ := hr.similar h₁.toSimilar
    exact h₁.clean hr (clean_of_wrapCurrent hr₁ (h₂.clean (hr₁.wrapCurrent _) hc))
  | grown _ hg _ => exact hg.clean hr hc

end Clean

end ParseTree
