import ParseTree.Proofs.Session.Rooted

/-!
# Lookahead is kept in order

Whatever operations are called in whatever order, and whatever the tokens are, no node has a
lookahead leaf twice and only composites of the tree wait for leaves.

## Main definitions

* `Attribution.Orderly`: no lookahead leaf twice, and only composites wait

## Main results

* `Orderly.claimAll`, `Orderly.resolve`, `Orderly.transfer`: handing out lookahead keeps order
* `orderly_of_reaches`: every reachable session is in order
-/

namespace ParseTree

open Session

variable {σ γ : Type}

namespace Attribution

/-- No node has a lookahead leaf twice, and only composites of the tree wait for leaves. -/
structure Orderly (a : Attribution) (t : Tree) : Prop where
  /-- Lookahead leaves are different. -/
  nodup : t.NodupLookahead
  /-- Composites wait. -/
  waiting : ∀ token c, c ∈ a.waiting token → t.IsComposite c

namespace Orderly

variable {a : Attribution} {t t' : Tree} {composite source target : NodeId}

theorem start (size : ℕ) : Orderly (.start size) .empty where
  nodup x := by
    rw [Tree.lookaheadLeaves, Tree.node_empty]
    exact List.nodup_nil
  waiting token c hc := by simp [Attribution.start, Attribution.waiting] at hc

/-- Composites remain, and lookahead leaves are the same. -/
theorem of_tree (h : Orderly a t) (hc : ∀ x, t.IsComposite x → t'.IsComposite x)
    (hl : ∀ x, t'.lookaheadLeaves x = t.lookaheadLeaves x) : Orderly a t' where
  nodup x := (hl x).symm ▸ h.nodup x
  waiting token c hw := hc c (h.waiting token c hw)

theorem claim (h : Orderly a t) (hc : t.IsComposite composite) (token : ℕ) :
    Orderly (Attribution.claim composite (a, t) token).1
      (Attribution.claim composite (a, t) token).2 := by
  rw [Attribution.claim]
  cases a.leafOf? token with
  | some leaf =>
    have hs := (Tree.sameButLookahead_addLookaheadLeaf t composite leaf).toSameNodes
    exact ⟨h.nodup.addLookaheadLeaf hc leaf,
      fun i c hw => (hs.isComposite_iff c).mpr (h.waiting i c hw)⟩
  | none =>
    refine ⟨h.nodup, fun i c hw => ?_⟩
    rcases mem_waiting_defer.mp hw with hw | ⟨rfl, -⟩
    · exact h.waiting i c hw
    · exact hc

theorem foldl_claim {l : List ℕ} {s : Attribution × Tree} (h : Orderly s.1 s.2)
    (hc : s.2.IsComposite composite) : Orderly (l.foldl (Attribution.claim composite) s).1
      (l.foldl (Attribution.claim composite) s).2 := by
  induction l generalizing s with
  | nil => exact h
  | cons token l ih =>
    have hs := (sameButLookahead_claim composite s token).toSameNodes
    exact ih (h.claim hc token) ((hs.isComposite_iff composite).mpr hc)

/-- A composite is handed tokens. -/
theorem claimAll (h : Orderly a t) (hc : t.IsComposite composite) (tokens : List Token) :
    Orderly (a.claimAll t composite tokens).1 (a.claimAll t composite tokens).2 :=
  foldl_claim (s := (a, t)) h hc

/-- The leaf of a token goes to the composites that wait for it. -/
theorem resolve (h : Orderly a t) (token : ℕ) (leaf : NodeId) :
    Orderly (a.resolve t token leaf).1 (a.resolve t token leaf).2 := by
  have htree : (a.resolve t token leaf).2 = t.addLookaheadLeaves ((a.waiting token).map (·, leaf)) :=
    (Tree.addLookaheadLeaves_map_leaf ..).symm
  have hs := Tree.sameButLookahead_addLookaheadLeaves t ((a.waiting token).map (·, leaf))
  rw [htree]
  refine ⟨h.nodup.addLookaheadLeaves fun p hp => ?_, fun i c hw => ?_⟩
  · obtain ⟨c, hc, rfl⟩ := List.mem_map.mp hp
    exact h.waiting token c hc
  · rw [waiting_resolve] at hw
    split_ifs at hw
    · cases hw
    · exact (hs.toSameNodes.isComposite_iff c).mpr (h.waiting i c hw)

/-- One composite takes the place of another. -/
theorem transfer (h : Orderly a t) (ht : t.IsComposite target) :
    Orderly (a.transfer t source target).1 (a.transfer t source target).2 := by
  have hs := (Tree.sameButLookahead_moveLookaheadLeaves t source target).toSameNodes
  refine ⟨h.nodup.moveLookaheadLeaves ht, fun i c hw => (hs.isComposite_iff c).mpr ?_⟩
  rcases mem_waiting_transfer.mp hw with ⟨-, hw⟩ | ⟨rfl, -⟩
  · exact h.waiting i c hw
  · exact ht

end Orderly

end Attribution

/-! ## Sessions -/

section Session

variable {env : Setting σ γ} {s s' s₀ : Session σ γ} {ts : List Token}

theorem Similar.orderly (hs : Similar s s') (h : s.attribution.Orderly s.tree) :
    s'.attribution.Orderly s'.tree := by
  rw [hs.attribution]
  exact h.of_tree (fun x => (hs.nodes.isComposite_iff x).mpr) hs.lookahead

theorem orderly_createLeaf (h : s.attribution.Orderly s.tree) (t : Token) (i : ℕ)
    (element : Option ElementId) (feature : Option String) :
    (s.createLeaf env t i element feature).attribution.Orderly
      (s.createLeaf env t i element feature).tree := by
  have hleaf : s.attribution.Orderly (leafTree env s t i element feature) :=
    h.of_tree (fun _ hx => hx.addLeaf) fun x => Tree.lookaheadLeaves_addLeaf x
  exact hleaf.resolve i s.tree.nextId

theorem Growth.orderly (hg : Growth env s ts s') (h : s.attribution.Orderly s.tree) :
    s'.attribution.Orderly s'.tree := by
  induction hg with
  | done => exact h
  | leaf _ _ _ _ ih => exact orderly_createLeaf ih ..
  | rest _ hs ih => exact hs.orderly ih

theorem orderly_newComposite (h : s.attribution.Orderly s.tree) (element : ElementId) :
    (s.newComposite env element).attribution.Orderly (s.newComposite env element).tree :=
  h.of_tree (fun _ hx => hx.addComposite) Tree.lookaheadLeaves_addComposite

theorem orderly_wrapCurrent (h : s.attribution.Orderly s.tree) (action : ElementId) :
    (s.wrapCurrent action).attribution.Orderly (s.wrapCurrent action).tree := by
  have hwrap : s.attribution.Orderly (s.tree.wrap action s.current) :=
    h.of_tree (fun _ hx => hx.wrap) fun x => Tree.lookaheadLeaves_wrap x
  exact hwrap.transfer Tree.isComposite_wrap_nextId

theorem orderly_merge {child : NodeId} (hl : Linked s) (hm : s.tree.Mergeable s.current child)
    (h : s.attribution.Orderly s.tree) :
    (s.merge child).attribution.Orderly (s.merge child).tree := by
  have hiff (x : NodeId) : (s.tree.absorb s.current child).IsComposite x ↔ s.tree.IsComposite x :=
    ((sameButLookahead_merge s child).isComposite_iff x).symm.trans (isComposite_merge hl hm x)
  have habsorb : s.attribution.Orderly (s.tree.absorb s.current child) :=
    ⟨Tree.nodupLookahead_absorb hl.wellFormed hm h.nodup,
      fun i c hw => (hiff c).mpr (h.waiting i c hw)⟩
  exact habsorb.transfer ((hiff _).mpr hl.current)

theorem orderly_afterRuleCall (hl : Linked s) (h : s.attribution.Orderly s.tree) :
    (s.afterRuleCall env).attribution.Orderly (s.afterRuleCall env).tree := by
  cases hp : s.tree.parent? s.current with
  | none => rwa [afterRuleCall_of_parent?_eq_none hp]
  | some p =>
    rw [afterRuleCall_eq hp]
    cases hc : s.absorbed? env with
    | none => exact h
    | some child =>
      show (s.merge child).attribution.Orderly (s.merge child).tree
      exact orderly_merge hl (mergeable_of_absorbed? hc) h

/-- Every operation keeps lookahead in order. -/
theorem orderly_change {op : Operation} (hl : Linked s) (h : s.attribution.Orderly s.tree)
    (hc : Change env s op s') : s'.attribution.Orderly s'.tree := by
  cases hc with
  | enter => exact h.claimAll hl.current s.cursor.recorded
  | opened element => exact orderly_newComposite h element
  | closed => exact orderly_afterRuleCall hl h
  | wrapped h₁ h₂ => exact h₂.orderly (orderly_wrapCurrent (h₁.orderly h) _)
  | grown _ hg _ => exact hg.orderly h

/-- Every reachable session is in order. -/
theorem orderly_of_reaches {factory : σ} {groups : γ} {ts : List (Transition σ γ)}
    (h : Reaches env (start env factory groups) ts s) : s.attribution.Orderly s.tree := by
  induction h with
  | start => exact .start env.stream.size
  | step hrun hs ih =>
    have hl := linked_of_reaches (linked_start env factory groups) hrun
    exact orderly_change hl ih (step_change hl hs)

end Session

end ParseTree
