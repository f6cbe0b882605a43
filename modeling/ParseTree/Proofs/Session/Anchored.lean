import ParseTree.Proofs.Session.Coverage

/-!
# Where composites without leaves are

A composite is placed where the last leaf ends when it is opened. Until it gets its first leaf no
other leaf is made, so the open composites without leaves are always at the end of the last leaf.

## Main definitions

* `Tree.IsBare`: there is no leaf below the node
* `Anchored`: open composites without leaves are at the end of the last leaf

## Main results

* `Anchored.change`: every operation keeps them there
* `span_of_isBare`: a composite without leaves covers no more than its place
* `anchor_of_size_le`: in the end they are at the end of the text
-/

namespace ParseTree

open Session

variable {σ γ : Type}

/-- There is no leaf below the node. -/
def Tree.IsBare (t : Tree) (c : NodeId) : Prop :=
  ∀ x, t.shape.Below x c → (t.node x).leaf? = none

/-- The open composites without leaves are at the end of the last leaf. -/
def Anchored (env : Setting σ γ) (s : Session σ γ) : Prop :=
  ∀ c, s.tree.shape.Below s.current c → s.tree.IsBare c → (s.tree.node c).anchor = s.anchor env

section Anchored

variable {env : Setting σ γ} {s s' : Session σ γ} {op : Operation} {ts : List Token}

theorem anchor_congr (h : s'.lastToken = s.lastToken) : s'.anchor env = s.anchor env := by
  rw [Session.anchor, Session.anchor, h]

theorem lastToken_of_nextToken (h : s'.nextToken = s.nextToken) : s'.lastToken = s.lastToken := by
  rw [nextToken, nextToken] at h
  cases hs : s.lastToken <;> cases hs' : s'.lastToken <;> simp_all

/-- Which composites are open and without leaves only depends on the nodes. -/
theorem Anchored.sameNodes (h : Anchored env s) (hn : s.tree.SameNodes s'.tree)
    (hc : s'.current = s.current) (hl : s'.lastToken = s.lastToken) : Anchored env s' := by
  intro c hb hbare
  rw [hn.shape, hc] at hb
  rw [hn.anchor, anchor_congr hl]
  refine h c hb fun x hx => ?_
  rw [← hn.leaf?]
  exact hbare x (by rwa [hn.shape])

theorem anchored_start (env : Setting σ γ) (factory : σ) (groups : γ) :
    Anchored env (start env factory groups) := by
  intro c _ _
  show (Tree.empty.node c).anchor = 0
  rw [Tree.node_empty]
  rfl

theorem Anchored.newComposite (h : Anchored env s) (hl : Linked s) (element : ElementId) :
    Anchored env (s.newComposite env element) := by
  have hs := Tree.shape_addComposite hl.current element (saturate s.cursor.recorded.length)
    (s.anchor env)
  have hiso := s.tree.isolated_nextId
  have hne := Tree.ne_nextId_of_contains hl.current.contains
  intro c hb hbare
  change (s.tree.addComposite ..).shape.Below s.tree.nextId c at hb
  change (s.tree.addComposite ..).IsBare c at hbare
  rw [hs] at hb
  show ((s.tree.addComposite ..).node c).anchor = s.anchor env
  rw [Tree.anchor_addComposite]
  split_ifs with hcn
  · rfl
  · have hb := (Shape.below_append_iff hl.wellFormed hiso hne).mp (Shape.below_append_new hb hcn)
    refine h c hb fun x hx => ?_
    by_cases hxn : x = s.tree.nextId
    · rw [hxn, Tree.node_of_not_contains s.tree.not_contains_nextId]
      rfl
    · rw [← Tree.leaf?_addComposite]
      refine hbare x ?_
      rw [hs]
      exact (Shape.below_append_iff hl.wellFormed hiso hxn).mpr hx

theorem Anchored.afterRuleCall (h : Anchored env s) (hl : Linked s) :
    Anchored env (s.afterRuleCall env) := by
  cases hp : s.tree.parent? s.current with
  | none =>
    rw [afterRuleCall_of_parent?_eq_none hp]
    exact h
  | some p =>
    rw [afterRuleCall_eq hp]
    cases hc : s.absorbed? env with
    | none => exact fun c hb => h c (Relation.ReflTransGen.head hp hb)
    | some child =>
      have hm := mergeable_of_absorbed? hc
      have hs := shape_merge hl hm
      have hw := hl.wellFormed
      intro c hb hbare
      change (s.merge child).tree.shape.Below p c at hb
      change (s.merge child).tree.IsBare c at hbare
      rw [hs] at hb
      have hanchor : ((s.merge child).tree.node c).anchor = (s.tree.node c).anchor := by
        rw [(sameButLookahead_merge s child).anchor, Tree.anchor_absorb hw hm]
      have hcurrent : s.tree.shape.Below s.current c :=
        Relation.ReflTransGen.head hp (Shape.below_of_contract hw hm.children hb)
      refine hanchor.trans (h c hcurrent fun x hx => ?_)
      by_cases hxc : x = child
      · rw [hxc, hm.leaf?]
      · rw [← leaf?_merge hl hm]
        refine hbare x ?_
        rw [hs]
        refine Shape.below_contract hw hm.children hxc ?_ hx
        rintro rfl
        exact hw.not_below_of_parent? (hm.parent? hw) hcurrent

theorem Anchored.wrapCurrent (h : Anchored env s) (hl : Linked s) (action : ElementId) :
    Anchored env (s.wrapCurrent action) := by
  have hs := shape_wrapCurrent hl action
  have hiso := s.tree.isolated_nextId
  have hne := Tree.ne_nextId_of_contains hl.current.contains
  have hself : (s.wrapCurrent action).tree.shape.Below s.current s.tree.nextId := by
    rw [hs]
    refine Shape.below_of_parent? ?_
    rw [Shape.parent?_interpose, if_neg hne, if_pos rfl]
  have hbare (c : NodeId) (hc : (s.wrapCurrent action).tree.IsBare c) : s.tree.IsBare c := by
    intro x hx
    rw [← leaf?_wrapCurrent s action]
    refine hc x ?_
    rw [hs]
    exact Shape.below_interpose hiso hx
  intro c hb hc
  change (s.wrapCurrent action).tree.shape.Below s.tree.nextId c at hb
  have hanchor : ((s.wrapCurrent action).tree.node c).anchor =
      if c = s.tree.nextId then (s.tree.node s.current).anchor else (s.tree.node c).anchor := by
    rw [(sameButLookahead_wrapCurrent s action).anchor, Tree.anchor_wrap]
  refine hanchor.trans ?_
  have hb := Shape.below_of_interpose hl.wellFormed hiso hne (hs ▸ hself.trans hb)
  split_ifs at hb ⊢ with hcn
  · refine h s.current .refl (hbare s.current fun x hx => hc x ?_)
    rw [hcn]
    exact hx.trans hself
  · exact h c hb (hbare c hc)

/-- Where leaves were made, the open composite has one; otherwise nothing has changed. -/
theorem Growth.cases (hg : Growth env s ts s') (hl : Linked s) : ts = [] ∧ Similar s s' ∨
    ts ≠ [] ∧ ∃ x, s'.tree.shape.Below x s'.current ∧ (s'.tree.node x).leaf? ≠ none := by
  induction hg with
  | done => exact Or.inl ⟨rfl, .refl s⟩
  | @leaf ts s' t i hg hi element feature ih =>
    refine Or.inr ⟨by simp, s'.tree.nextId, Shape.below_of_parent? ?_, ?_⟩
    · exact parent?_nextId_createLeaf (hg.linked hl) t i element feature
    · rw [leaf?_createLeaf, if_pos rfl]
      simp
  | @rest ts s' s'' hg hs ih =>
    refine ih.imp (fun ⟨hts, h⟩ => ⟨hts, h.trans hs⟩) ?_
    rintro ⟨hts, x, hx, hleaf⟩
    refine ⟨hts, x, ?_, ?_⟩
    · rwa [hs.nodes.shape, hs.current]
    · rwa [hs.nodes.leaf?]

theorem Anchored.growth (h : Anchored env s) (hl : Linked s) (hg : Growth env s ts s')
    (ho : InOrder env.stream s s' ts) (hb : s.nextToken ≤ env.stream.size) :
    Anchored env s' := by
  rcases hg.cases hl with ⟨rfl, hs⟩ | ⟨-, x, hx, hleaf⟩
  · refine h.sameNodes hs.nodes hs.current (lastToken_of_nextToken ?_)
    have hlength := TokenStream.length_slice (a := s.nextToken) (ho.bound hb)
    rw [← ho.tokens] at hlength
    exact (Nat.le_of_sub_eq_zero hlength.symm).antisymm ho.le
  · intro c hc hbare
    exact absurd (hbare x (hx.trans hc)) hleaf

/-- Whatever an operation does, the open composites without leaves are at the end of the last
leaf. -/
theorem Anchored.change (h : Anchored env s) (hl : Linked s) (hc : Change env s op s')
    (hs : env.stream.Contract) (ht : op.IsTidy env s) (hb : s.nextToken ≤ env.stream.size) :
    Anchored env s' := by
  cases hc with
  | enter => exact h.sameNodes (sameButLookahead_enterRule s).toSameNodes rfl rfl
  | opened element => exact h.newComposite hl element
  | closed => exact h.afterRuleCall hl
  | @wrapped action _ _ _ h₁ h₂ =>
    have hw := (h.sameNodes h₁.nodes h₁.current h₁.lastToken).wrapCurrent (h₁.linked hl) action
    exact hw.sameNodes h₂.nodes h₂.current h₂.lastToken
  | grown _ hg ho => exact h.growth hl hg (ho hs ht) hb

theorem leaves_eq_nil_iff {t : Tree} {c : NodeId} (hw : t.shape.WellFormed) (hc : t.Contains c) :
    t.leaves c = [] ↔ t.IsBare c := by
  rw [Tree.leaves, List.filter_eq_nil_iff, Tree.IsBare]
  refine forall_congr' fun x => ?_
  rw [Tree.mem_descendants_iff hw hc, Tree.isLeaf, Bool.not_eq_true, Option.isSome_eq_false_iff,
    Option.isNone_iff_eq_none]

/-- A composite without leaves covers no more than its place. -/
theorem span_of_isBare {t : Tree} {c : NodeId} (hw : t.shape.WellFormed) (hc : t.IsComposite c)
    (h : t.IsBare c) : t.span c = .point (t.node c).anchor := by
  rw [Tree.span_of_leaf?_eq_none hc.leaf?, Tree.firstLeaf?,
    (leaves_eq_nil_iff hw hc.contains).mpr h]
  rfl

/-- When all tokens have their leaves, the last one ends with the text. -/
theorem anchor_of_size_le (hc : env.stream.Contract) (hn : s.nextToken = env.stream.size) :
    s.anchor env = env.stream.length := by
  rw [← hc.stop, Session.anchor, TokenStream.stop]
  rw [nextToken] at hn
  cases hl : s.lastToken with
  | none =>
    rw [hl] at hn
    rw [TokenStream.back?_eq_none hn.symm]
    rfl
  | some last =>
    rw [hl] at hn
    have hlt : last < env.stream.size := hn ▸ Nat.lt_succ_self last
    obtain ⟨t, ht⟩ := TokenStream.exists_token? hlt
    rw [Option.bind_some, ht, TokenStream.back?_eq ht hn]

end Anchored

end ParseTree
