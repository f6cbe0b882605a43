import ParseTree.Proofs.Session.Change
import ParseTree.Proofs.Session.History

/-!
# The open composite of a balanced run

As long as no more composites are closed than were opened, the open composite is the last node at
its depth: everything that is built comes after everything that was built before, and the root is
never left.

## Main definitions

* `Rooted`: the open composite lies on the right edge of the tree, some levels below that of the
  entry rule

## Main results

* `Rooted.change`: what an operation does to the depth
* `rooted_of_reaches`: a balanced run stays at the depth that its history tells
-/

namespace ParseTree

open Session Relation

variable {σ γ : Type}

/-- The open composite lies on the right edge of the tree, `d` levels below a child of the root. -/
structure Rooted (s : Session σ γ) (d : ℕ) : Prop extends Linked s where
  /-- Nothing is above the root. -/
  root : s.tree.parent? Tree.root = none
  /-- The open composite comes last at its depth. -/
  spine : s.tree.shape.Spine Tree.root s.current (d + 1)

section Rooted

variable {env : Setting σ γ} {s s' : Session σ γ} {d : ℕ}

theorem Rooted.exists_parent (h : Rooted s d) : ∃ p, s.tree.shape.Spine Tree.root p d ∧
    s.tree.parent? s.current = some p :=
  h.spine.parent? h.wellFormed

theorem Rooted.current_ne_root (h : Rooted s d) : s.current ≠ Tree.root := by
  intro e
  obtain ⟨p, -, hp⟩ := h.exists_parent
  rw [e, h.root] at hp
  cases hp

theorem Rooted.below_root (h : Rooted s d) : s.tree.shape.Below s.current Tree.root :=
  h.spine.below_root h.wellFormed

/-- The open composite lies on the right edge of every node above it. -/
theorem Rooted.spine_of_below {x : NodeId} (h : Rooted s d)
    (hx : s.tree.shape.Below s.current x) : ∃ n, s.tree.shape.Spine x s.current n :=
  h.spine.of_below h.wellFormed h.root hx

theorem Rooted.contains_of_below {x : NodeId} (h : Rooted s d)
    (hx : s.tree.shape.Below s.current x) : s.tree.Contains x := by
  rcases ReflTransGen.cases_tail hx with rfl | ⟨c, -, hc⟩
  · exact h.current.contains
  · exact Tree.contains_of_mem_children (h.wellFormed.mem_of_parent? hc)

theorem Rooted.isComposite_root (h : Rooted s d) : s.tree.IsComposite Tree.root := by
  rcases ReflTransGen.cases_tail h.below_root with e | ⟨c, -, hc⟩
  · exact absurd e.symm h.current_ne_root
  · exact Tree.isComposite_of_mem_children (h.wellFormed.mem_of_parent? hc)

theorem Rooted.contains_root (h : Rooted s d) : s.tree.Contains Tree.root :=
  h.isComposite_root.contains

theorem Rooted.ne_nextId (h : Rooted s d) : Tree.root ≠ s.tree.nextId :=
  Tree.ne_nextId_of_contains h.contains_root

theorem Rooted.ne_nextId_of_below {x : NodeId} (h : Rooted s d)
    (hx : s.tree.shape.Below x Tree.root) : x ≠ s.tree.nextId := by
  rintro rfl
  exact h.ne_nextId (Shape.eq_of_below_of_parent?_eq_none hx s.tree.isolated_nextId.parent)

theorem Rooted.similar (h : Rooted s d) (hs : Similar s s') : Rooted s' d where
  toLinked := hs.linked h.toLinked
  root := (hs.nodes.parent? _).trans h.root
  spine := by
    rw [hs.nodes.shape, hs.current]
    exact h.spine

theorem Rooted.enterRule (h : Rooted s d) : Rooted s.enterRule d where
  toLinked := linked_enterRule h.toLinked
  root := ((sameButLookahead_enterRule s).parent? _).trans h.root
  spine := by
    rw [(sameButLookahead_enterRule s).shape]
    exact h.spine

theorem Rooted.createLeaf (h : Rooted s d) (t : Token) (i : ℕ) (element : Option ElementId)
    (feature : Option String) : Rooted (s.createLeaf env t i element feature) d where
  toLinked := linked_createLeaf h.toLinked ..
  root := by
    rw [← Tree.parent?_shape, shape_createLeaf env s t i element feature h.toLinked,
      Shape.parent?_append, if_neg h.ne_nextId]
    exact h.root
  spine := by
    rw [shape_createLeaf env s t i element feature h.toLinked]
    exact h.spine.append h.wellFormed

theorem Rooted.growth {ts : List Token} (h : Rooted s d) (hg : Growth env s ts s') :
    Rooted s' d := by
  induction hg with
  | done => exact h
  | leaf _ _ _ _ ih => exact ih.createLeaf ..
  | rest _ hs ih => exact ih.similar hs

theorem Rooted.newComposite (h : Rooted s d) (element : ElementId) :
    Rooted (s.newComposite env element) (d + 1) := by
  have hs := Tree.shape_addComposite h.current element (saturate s.cursor.recorded.length)
    (s.anchor env)
  refine ⟨linked_newComposite h.toLinked element, ?_, ?_⟩
  · show (s.tree.addComposite ..).shape.parent? Tree.root = none
    rw [hs, Shape.parent?_append, if_neg h.ne_nextId]
    exact h.root
  · show (s.tree.addComposite ..).shape.Spine Tree.root s.tree.nextId (d + 1 + 1)
    rw [hs]
    exact h.spine.append_new h.wellFormed

theorem Rooted.wrapCurrent (h : Rooted s d) (action : ElementId) :
    Rooted (s.wrapCurrent action) d := by
  have hs := shape_wrapCurrent h.toLinked action
  refine ⟨linked_wrapCurrent h.toLinked action, ?_, ?_⟩
  · rw [← Tree.parent?_shape, hs, Shape.parent?_interpose, if_neg h.ne_nextId,
      if_neg h.current_ne_root.symm]
    exact h.root
  · show (s.wrapCurrent action).tree.shape.Spine Tree.root s.tree.nextId (d + 1)
    rw [hs]
    exact h.spine.interpose h.wellFormed s.tree.isolated_nextId

/-- What is merged away is not the root. -/
theorem Rooted.absorbed_ne_root {child : NodeId} (h : Rooted s d)
    (hc : s.absorbed? env = some child) : child ≠ Tree.root := by
  rintro rfl
  have hp := (mergeable_of_absorbed? hc).parent? h.wellFormed
  rw [h.root] at hp
  cases hp

theorem Rooted.afterRuleCall (h : Rooted s (d + 1)) : Rooted (s.afterRuleCall env) d := by
  obtain ⟨p, hspine, hp⟩ := h.exists_parent
  have hl : Linked (s.afterRuleCall env) := linked_afterRuleCall h.toLinked
  rw [afterRuleCall_eq hp] at hl ⊢
  cases hc : s.absorbed? env with
  | none =>
    rw [hc] at hl
    exact ⟨hl, h.root, hspine⟩
  | some child =>
    rw [hc] at hl
    have hm := mergeable_of_absorbed? hc
    have hs := shape_merge h.toLinked hm
    refine ⟨hl, ?_, ?_⟩
    · show (s.merge child).tree.shape.parent? Tree.root = none
      rw [hs, Shape.parent?_contract]
      split_ifs with _ hmem
      · rfl
      · exact absurd (h.root.symm.trans (h.wellFormed.parent?_of_mem hmem)) (by simp)
      · exact h.root
    · show (s.merge child).tree.shape.Spine Tree.root p (d + 1)
      rw [hs]
      exact hspine.contract h.wellFormed hm.children hp

theorem Rooted.finish (env : Setting σ γ) (h : Rooted s d) : Rooted (s.finish env) d := by
  obtain ⟨us, hg, -⟩ := growth_finish env h.toLinked
  exact h.growth hg

/-- Opening a composite increases the depth by one, closing one decreases it. -/
theorem Rooted.change {op : Operation} (h : Rooted s d) (hc : Change env s op s')
    (hop : op.closes → 0 < d) : Rooted s' (d + op.opens.toNat - op.closes.toNat) := by
  cases hc with
  | enter => exact h.enterRule
  | opened element => exact h.newComposite element
  | closed =>
    obtain ⟨d, rfl⟩ := Nat.exists_eq_succ_of_ne_zero (Nat.ne_of_gt (hop rfl))
    exact h.afterRuleCall
  | wrapped h₁ h₂ => exact ((h.similar h₁.toSimilar).wrapCurrent _).similar h₂.toSimilar
  | grown hq hg _ =>
    have hd : d + op.opens.toNat - op.closes.toNat = d := by
      cases op with
      | command c => cases c <;> first | rfl | exact hq.elim
      | _ => rfl
    rw [hd]
    exact h.growth hg

theorem rooted_openEntry (env : Setting σ γ) (factory : σ) (groups : γ) (rule : ElementId) :
    Rooted ((start env factory groups).openEntry env rule) 0 := by
  have hl := linked_start env factory groups
  have hs : ((start env factory groups).openEntry env rule).tree.shape =
      Tree.empty.shape.append Tree.root Tree.empty.nextId :=
    Tree.shape_addComposite (t := Tree.empty) hl.current ..
  have hne : Tree.root ≠ Tree.empty.nextId := Tree.ne_nextId_of_contains hl.current.contains
  refine ⟨(steady_with (newComposite env _ rule) ..).linked (linked_newComposite hl rule), ?_, ?_⟩
  · rw [← Tree.parent?_shape, hs, Shape.parent?_append, if_neg hne]
    exact (Tree.isolated_empty _).parent
  · rw [hs]
    exact Shape.Spine.root.append_new hl.wellFormed

end Rooted

section Reaches

variable {env : Setting σ γ} {s s₀ : Session σ γ} {ts : List (Transition σ γ)}

theorem linked_of_reaches (h₀ : Linked s₀) (h : Reaches env s₀ ts s) : Linked s := by
  induction h with
  | start => exact h₀
  | step _ hs ih => exact (step_change ih hs).linked ih

/-- A balanced run stays at the depth that its history tells. -/
theorem rooted_of_reaches (h₀ : Rooted s₀ 0) (h : Reaches env s₀ ts s) (hb : Balanced ts) :
    Rooted s (depth ts) := by
  induction h with
  | start => exact h₀
  | step _ hs ih =>
    have ih := ih (hb.of_prefix (List.prefix_append ..))
    rw [hb.depth_append]
    exact ih.change (step_change ih.toLinked hs) hb.depth_pos

end Reaches

end ParseTree
