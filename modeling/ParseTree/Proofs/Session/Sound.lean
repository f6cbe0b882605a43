import ParseTree.Proofs.Session.Change
import ParseTree.Proofs.Session.History
import ParseTree.Proofs.Tree.Checked
import ParseTree.Proofs.Tree.Intact

/-!
# Soundness of the tree under construction

Whatever operations are called in whatever order, the links of the tree agree, nothing refers to a
composite that was merged away, and the check of the tree finds no broken link. Only an action that
wraps the root gives the root a node above it.

## Main definitions

* `Absorbed`: the composites that were merged away in the course of a history
* `Transition.WrapsRoot`: an action that wrapped the root
* `Sound`: the tree is intact and nothing refers to a node that was merged away

## Main results

* `sound_of_reaches`: every reachable session is sound
* `links_agree_of_reaches`: what that means for the tree and for its check
-/

namespace ParseTree

open Session Relation

variable {σ γ : Type}

/-- The composite was merged into another one when that one was closed. -/
def Absorbed (env : Setting σ γ) (ts : List (Transition σ γ)) (x : NodeId) : Prop :=
  ∃ tr ∈ ts, tr.op = .command .afterRuleCall ∧ tr.before.absorbed? env = some x

/-- An action wrapped the root while it was the open composite. -/
def Transition.WrapsRoot (tr : Transition σ γ) : Prop :=
  (∃ action value, tr.op = .createWrapper action value) ∧ tr.before.current = Tree.root ∧
    tr.after.current = tr.before.tree.nextId

/-- The tree is intact, and nothing refers to a node that was merged away. -/
structure Sound (A : NodeId → Prop) (s : Session σ γ) : Prop extends Linked s where
  /-- What was not merged away forms one tree. -/
  intact : Intact A s.tree s.current
  /-- The node that was finished last remains. -/
  lastNode : ∀ x, s.lastNode = some x → s.tree.Contains x ∧ ¬ A x
  /-- So do the primary nodes, which carry their elements. -/
  primary : ∀ p ∈ s.primary, s.tree.Contains p.2 ∧ ¬ A p.2 ∧
    (s.tree.node p.2).semantic = some p.1

section Sound

variable {env : Setting σ γ} {A : NodeId → Prop} {s s' : Session σ γ}

theorem sound_start (env : Setting σ γ) (factory : σ) (groups : γ) :
    Sound (fun _ => False) (start env factory groups) where
  toLinked := linked_start env factory groups
  intact := by
    refine ⟨Nat.zero_lt_one, id, id, fun _ hx => hx.elim, ?_,
      fun x _ _ => (Tree.isolated_empty x).parent⟩
    intro x y hx hy _ _ _ _
    cases x
    cases y
    exact congrArg NodeId.mk ((Nat.lt_one_iff.mp hx).trans (Nat.lt_one_iff.mp hy).symm)
  lastNode _ hx := by cases hx
  primary _ hp := by cases hp

theorem Sound.similar (h : Sound A s) (hs : Similar s s') : Sound A s' where
  toLinked := hs.linked h.toLinked
  intact := hs.current ▸ h.intact.sameNodes hs.nodes
  lastNode x hx := by
    rw [hs.nodes.contains_iff]
    rcases hs.lastNode x hx with hx | rfl | hx
    · exact h.lastNode x hx
    · exact ⟨h.current.contains, h.intact.current⟩
    · obtain ⟨p, hp⟩ := Option.ne_none_iff_exists'.mp hx
      exact ⟨Tree.contains_of_parent? hp, h.intact.not_absorbed_of_parent? hp⟩
  primary p hp := by
    rw [hs.nodes.contains_iff]
    rcases hs.primary p hp with hp | ⟨hc | hpar, he⟩
    · obtain ⟨hc, ha, he⟩ := h.primary p hp
      exact ⟨hc, ha, hs.semantic _ _ he⟩
    · exact ⟨hc ▸ h.current.contains, hc ▸ h.intact.current, he⟩
    · have hmem := h.wellFormed.mem_of_parent? hpar
      exact ⟨Tree.contains_of_mem_children hmem, h.intact.not_absorbed_of_mem_children hmem, he⟩

/-- References remain good while the tree grows. -/
theorem Sound.of_tree (h : Sound A s) (hl : Linked s') (hi : Intact A s'.tree s'.current)
    (hc : ∀ x, s.tree.Contains x → s'.tree.Contains x)
    (hs : ∀ x, (s'.tree.node x).semantic = (s.tree.node x).semantic)
    (hn : s'.lastNode = s.lastNode) (hp : s'.primary = s.primary) : Sound A s' where
  toLinked := hl
  intact := hi
  lastNode x hx := by
    obtain ⟨hxc, ha⟩ := h.lastNode x (hn ▸ hx)
    exact ⟨hc x hxc, ha⟩
  primary p hp' := by
    obtain ⟨hpc, ha, he⟩ := h.primary p (hp ▸ hp')
    exact ⟨hc p.2 hpc, ha, (hs p.2).trans he⟩

theorem Sound.enterRule (h : Sound A s) : Sound A s.enterRule := by
  have ht := sameButLookahead_enterRule s
  exact h.of_tree (linked_enterRule h.toLinked) (h.intact.sameNodes ht.toSameNodes)
    (fun x => (ht.contains_iff x).mpr) ht.semantic rfl rfl

theorem Sound.newComposite (h : Sound A s) (element : ElementId) :
    Sound A (s.newComposite env element) := by
  have hs := Tree.shape_addComposite h.current element (saturate s.cursor.recorded.length)
    (s.anchor env)
  have hsize := Tree.size_addComposite s.tree element (saturate s.cursor.recorded.length)
    (s.anchor env)
    s.current
  refine h.of_tree (linked_newComposite h.toLinked element)
    (h.intact.append_new h.wellFormed h.current hs hsize) ?_
    Tree.semantic_addComposite rfl rfl
  intro x hx
  exact (Nat.lt_succ_of_lt hx).trans_eq hsize.symm

theorem Sound.createLeaf (h : Sound A s) (t : Token) (i : ℕ) (element : Option ElementId)
    (feature : Option String) : Sound A (s.createLeaf env t i element feature) := by
  have hs := shape_createLeaf env s t i element feature h.toLinked
  have hsize := size_createLeaf env s t i element feature
  refine h.of_tree (linked_createLeaf h.toLinked ..)
    (h.intact.append h.wellFormed h.current hs hsize) ?_ ?_ rfl rfl
  · intro x hx
    exact (Nat.lt_succ_of_lt hx).trans_eq hsize.symm
  · intro x
    rw [(sameButLookahead_createLeaf ..).semantic]
    exact Tree.semantic_addLeaf x

theorem Sound.growth {ts : List Token} (h : Sound A s) (hg : Growth env s ts s') : Sound A s' := by
  induction hg with
  | done => exact h
  | leaf _ _ _ _ ih => exact ih.createLeaf ..
  | rest _ hs ih => exact ih.similar hs

theorem Sound.wrapCurrent (h : Sound A s) (action : ElementId) :
    Sound A (s.wrapCurrent action) := by
  have hs := shape_wrapCurrent h.toLinked action
  have hsize := size_wrapCurrent s action
  refine h.of_tree (linked_wrapCurrent h.toLinked action)
    (h.intact.interpose h.wellFormed h.current.contains hs hsize) ?_ ?_
    rfl rfl
  · intro x hx
    exact (Nat.lt_succ_of_lt hx).trans_eq hsize.symm
  · intro x
    rw [(sameButLookahead_wrapCurrent s action).semantic, Tree.semantic_wrap]

/-- A merge redirects all references to the node that it takes away. -/
theorem Sound.merge {child p : NodeId} (h : Sound A s) (hc : s.absorbed? env = some child)
    (hp : s.tree.parent? s.current = some p) :
    Sound (fun x => A x ∨ x = child) { s.merge child with current := p } := by
  have hm := mergeable_of_absorbed? hc
  have hne := hm.ne h.wellFormed
  have hkept {x : NodeId} (hx : s.tree.Contains x ∧ ¬ A x) :
      (s.merge child).tree.Contains (redirect child s.current x) ∧
        ¬ (A (redirect child s.current x) ∨ redirect child s.current x = child) := by
    rw [contains_merge, redirect]
    split_ifs with hxc
    · exact ⟨h.current.contains, fun ha => ha.elim h.intact.current hne.symm⟩
    · exact ⟨hx.1, fun ha => ha.elim hx.2 hxc⟩
  constructor
  · have hl : Linked (s.afterRuleCall env) := linked_afterRuleCall h.toLinked
    rw [afterRuleCall_eq hp, hc] at hl
    exact hl
  · have hsize : (s.merge child).tree.size = s.tree.size := by
      rw [(sameButLookahead_merge s child).size, Tree.size_absorb]
    show Intact _ (s.merge child).tree p
    exact h.intact.contract h.wellFormed hm.children (shape_merge h.toLinked hm) hsize hp
  · intro x hx
    obtain ⟨y, hy, rfl⟩ := Option.map_eq_some_iff.mp hx
    exact hkept (h.lastNode y hy)
  · intro q hq
    obtain ⟨r, hr, rfl⟩ := List.mem_map.mp hq
    obtain ⟨hrc, hra, he⟩ := h.primary r hr
    have hk := hkept ⟨hrc, hra⟩
    have hsr := semantic_redirect_merge h.toLinked hm he
    by_cases hb : some r.1 = (s.tree.node child).semantic
    · rw [if_pos hb]
      exact ⟨hk.1, hk.2, hsr⟩
    · have hne : r.2 ≠ child := fun e => hb (e ▸ he.symm)
      rw [redirect, if_neg hne] at hk hsr
      rw [if_neg hb]
      exact ⟨hk.1, hk.2, hsr⟩

theorem Sound.afterRuleCall (h : Sound A s) :
    Sound (fun x => A x ∨ s.absorbed? env = some x) (s.afterRuleCall env) := by
  cases hc : s.absorbed? env with
  | none =>
    simp only [reduceCtorEq, or_false]
    cases hp : s.tree.parent? s.current with
    | none => rwa [afterRuleCall_of_parent?_eq_none hp]
    | some p =>
      have hl : Linked (s.afterRuleCall env) := linked_afterRuleCall h.toLinked
      rw [afterRuleCall_eq hp, hc] at hl ⊢
      exact h.of_tree hl (h.intact.up h.wellFormed hp) (fun _ => id) (fun _ => rfl) rfl rfl
  | some child =>
    obtain ⟨p, hp⟩ := exists_parent_of_absorbed? hc
    rw [afterRuleCall_eq hp, hc]
    simp only [Option.some.injEq, eq_comm (a := child)]
    exact h.merge hc hp

end Sound

/-! ## Runs -/

section Reaches

variable {env : Setting σ γ} {s s' : Session σ γ} {op : Operation} {ts : List (Transition σ γ)}
  {tr : Transition σ γ} {factory : σ} {groups : γ}

theorem absorbed_append_of_ne (h : tr.op ≠ .command .afterRuleCall) :
    Absorbed env (ts ++ [tr]) = Absorbed env ts := by
  funext x
  simp [Absorbed, or_and_right, exists_or, h]

theorem absorbed_append_afterRuleCall (h : tr.op = .command .afterRuleCall) :
    Absorbed env (ts ++ [tr]) = fun x => Absorbed env ts x ∨ tr.before.absorbed? env = some x := by
  funext x
  simp [Absorbed, or_and_right, exists_or, h]

/-- Every reachable session is sound. -/
theorem sound_of_reaches (h : Reaches env (start env factory groups) ts s) :
    Sound (Absorbed env ts) s := by
  induction h with
  | start =>
    have hnone : Absorbed env [] = fun _ => False := by
      funext x
      simp [Absorbed]
    rw [hnone]
    exact sound_start env factory groups
  | @step ts s s' op answer _ hs ih =>
    have hc := step_change ih.toLinked hs
    cases hc with
    | enter =>
      rw [absorbed_append_of_ne (by simp)]
      exact ih.enterRule
    | opened element =>
      rw [absorbed_append_of_ne (by simp)]
      exact ih.newComposite element
    | closed =>
      rw [absorbed_append_afterRuleCall rfl]
      exact ih.afterRuleCall
    | wrapped h h' =>
      rw [absorbed_append_of_ne (by simp)]
      exact ((ih.similar h.toSimilar).wrapCurrent _).similar h'.toSimilar
    | grown hop h _ =>
      have hne : op ≠ .command .afterRuleCall := by
        rintro rfl
        exact hop
      rw [absorbed_append_of_ne hne]
      exact ih.growth h

/-- Only an action that wraps the root puts a node above it. -/
theorem parent?_root_of_change (h : Sound (Absorbed env ts) s) (hc : Change env s op s')
    (hr : s.tree.parent? Tree.root = none) (hr' : s'.tree.parent? Tree.root ≠ none) :
    (∃ action value, op = .createWrapper action value) ∧ s.current = Tree.root ∧
      s'.current = s.tree.nextId := by
  have hroot := h.intact.contains_root
  have hne := Tree.ne_nextId_of_contains hroot
  cases hc with
  | enter => exact absurd (((sameButLookahead_enterRule s).parent? _).trans hr) hr'
  | opened element =>
    refine absurd ?_ hr'
    show (s.tree.addComposite ..).shape.parent? Tree.root = none
    rw [Tree.shape_addComposite h.current, Shape.parent?_append, if_neg hne]
    exact hr
  | closed =>
    refine absurd ?_ hr'
    cases hp : s.tree.parent? s.current with
    | none => rwa [afterRuleCall_of_parent?_eq_none hp]
    | some p =>
      rw [afterRuleCall_eq hp]
      cases ha : s.absorbed? env with
      | none => exact hr
      | some child =>
        have hm := mergeable_of_absorbed? ha
        show (s.merge child).tree.shape.parent? Tree.root = none
        rw [shape_merge h.toLinked hm, Shape.parent?_contract]
        split_ifs with _ hmem
        · rfl
        · exact absurd (hr.symm.trans (h.wellFormed.parent?_of_mem hmem)) (by simp)
        · exact hr
  | @wrapped action value s₁ _ h₁ h₂ =>
    have hcur : s'.current = s.tree.nextId :=
      h₂.current.trans (congrArg NodeId.mk h₁.nodes.size)
    refine ⟨⟨action, value, rfl⟩, ?_, hcur⟩
    by_contra hcr
    apply hr'
    have hl := h₁.linked h.toLinked
    rw [h₂.nodes.parent?, ← Tree.parent?_shape, shape_wrapCurrent hl, Shape.parent?_interpose,
      h₁.current, if_neg (Ne.symm hcr), if_neg]
    · exact (h₁.nodes.parent? _).trans hr
    · exact Tree.ne_nextId_of_contains ((h₁.nodes.contains_iff _).mpr hroot)
  | grown _ hg _ => exact absurd (((hg.parent? h.toLinked hroot).1).trans hr) hr'

theorem wrapsRoot_of_reaches (h : Reaches env (start env factory groups) ts s)
    (hr : s.tree.parent? Tree.root ≠ none) : ∃ tr ∈ ts, tr.WrapsRoot := by
  induction h with
  | start => exact absurd rfl hr
  | @step ts s s' op answer hrun hs ih =>
    -- The first operation after which something is above the root put it there.
    by_cases hr' : s.tree.parent? Tree.root = none
    · have hsound := sound_of_reaches hrun
      have hc := parent?_root_of_change hsound (step_change hsound.toLinked hs) hr' hr
      exact ⟨_, List.mem_append_right _ (List.mem_singleton_self _), hc⟩
    · obtain ⟨tr, ht, hw⟩ := ih hr'
      exact ⟨tr, List.mem_append_left _ ht, hw⟩

/-- In every reachable session a node is a child of the node above it and of no other, no node is
above itself, composites that were merged away have no relatives and nothing refers to them. So the
check of the tree finds no broken link, no node twice and no lost element, and a node above the root
only if an action wrapped the root. The end of every parse is such a session. -/
theorem links_agree_of_reaches (h : Reaches env (start env factory groups) ts s) :
    (∀ c p, s.tree.parent? c = some p ↔ c ∈ s.tree.children p) ∧
    (∀ p, (s.tree.children p).Nodup) ∧
    (∀ x, ¬ TransGen (fun c p => s.tree.parent? c = some p) x x) ∧
    (∀ x, Absorbed env ts x → s.tree.parent? x = none ∧ s.tree.children x = [] ∧
      x ∉ s.primary.map (·.2) ∧ x ≠ s.current ∧ s.lastNode ≠ some x) ∧
    (∀ v, (s.syntaxTree env).violation? = some v → match v with
      | .brokenParent .. | .duplicateNode _ | .detachedSemanticNode _ => False
      | .rootHasParent _ => ∃ tr ∈ ts, tr.WrapsRoot
      | _ => True) ∧
    ∀ rule procedure result t,
      (start env factory groups).parse env rule procedure = .ok (result, t) →
        ∃ us, Reaches env (start env factory groups) us t := by
  have hs := sound_of_reaches h
  have hw := hs.wellFormed
  refine ⟨fun c p => (hw.mem_children_iff p c).symm, hw.nodup, hw.transGen_irrefl, ?_,
    ?_, fun _ _ _ _ => exists_reaches_of_parse⟩
  · intro x hx
    obtain ⟨-, hi⟩ := hs.intact.absorbed x hx
    refine ⟨hi.parent, hi.children, ?_, ?_, ?_⟩
    · intro hp
      obtain ⟨q, hq, rfl⟩ := List.mem_map.mp hp
      exact (hs.primary q hq).2.1 hx
    · intro hc
      exact hs.intact.current (hc ▸ hx)
    · intro hn
      exact (hs.lastNode x hn).2 hx
  · intro v hv
    rcases Tree.violation?_cases hw hs.intact.contains_root hv with
      ⟨p, hp, rfl⟩ | hleaf | ⟨_, _, rfl⟩ | ⟨x, hx, hr, hc, hb, rfl⟩
    · exact wrapsRoot_of_reaches h (by simp [hp])
    · cases v with
      | gap | tokenOrder => trivial
      | _ => exact absurd hleaf id
    · trivial
    · obtain ⟨q, hq, rfl⟩ := List.mem_map.mp hx
      obtain ⟨hqc, hqa, -⟩ := hs.primary q hq
      exact hb (hs.intact.below_root hw hr hqc hqa)

open Sample in
/-- The sample is such a session, with a wrapped and a merged composite. -/
theorem links_agree_of_sample : ∃ ts s, Reaches setting session ts s ∧
    (∀ c p, s.tree.parent? c = some p ↔ c ∈ s.tree.children p) ∧
    ∀ x, Absorbed setting ts x → s.tree.parent? x = none ∧ s.tree.children x = [] := by
  obtain ⟨s, hr⟩ := exists_run
  have hrun := Procedure.reaches_history (run_topLevel hr)
  obtain ⟨hlinks, -, -, habsorbed, -⟩ := links_agree_of_reaches hrun
  exact ⟨_, _, hrun, hlinks, fun x hx => ⟨(habsorbed x hx).1, (habsorbed x hx).2.1⟩⟩

end Reaches

end ParseTree
