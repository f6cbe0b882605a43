import ParseTree.Grammar.Walk
import ParseTree.Proofs.Tree.Last
import ParseTree.Proofs.Tree.Merge

/-!
# The place of a composite

While a rule is recognized, its composite gets new children and may be wrapped. Whatever happens
below the composite, the rest of the tree only notices that another node is in its place.

## Main definitions

* `Tree.Wraps`: a new composite of an action, whose first child is another node
* `Tree.Occupies`: a node has the place of a composite, as the outermost of a chain of wrappers

## Main results

* `Occupies.trans`: what happens at the place of a composite, one thing after another
* `occupies_addLeaf`, `occupies_wrap`: a new child, a wrapper
* `Occupies.of_child`, `Occupies.absorb`: what happens at a new child, and its merging
* `span_of_children_eq_singleton`: a composite covers what its only child does
-/

namespace ParseTree

open Relation

/-- The element is an action. -/
def Grammar.IsAction (g : Grammar) (id : ElementId) : Prop :=
  ∃ entry classifier assigned,
    g.visit id = .ok entry ∧ entry.element = .action classifier assigned

namespace Tree

variable {g : Grammar} {t t' t'' : Tree} {c x y w child : NodeId}

/-- In the second tree the node is below a composite of an action that the first tree does not have,
as its first child. -/
structure Wraps (g : Grammar) (t t' : Tree) (x w : NodeId) : Prop where
  /-- The wrapper is new. -/
  fresh : ¬ t.Contains w
  /-- It is above the node. -/
  parent : t'.parent? x = some w
  /-- The node comes first below it. -/
  head : (t'.children w).head? = some x
  /-- It stands for an action. -/
  action : ∃ action, (t'.node w).grammar = [action] ∧ g.IsAction action

/-- In the second tree a node has the place that a composite has in the first. It is the composite
or the outermost of its wrappers. Apart from new nodes, nothing else has changed. -/
structure Occupies (g : Grammar) (t : Tree) (c : NodeId) (t' : Tree) (w : NodeId) : Prop where
  /-- No node is lost. -/
  size_le : t.size ≤ t'.size
  /-- A chain of wrappers leads from the composite to the node. -/
  wraps : ReflTransGen (Wraps g t t') c w
  /-- The node is below what the composite was below. -/
  parent : t'.parent? w = t.parent? c
  /-- It is listed there in the place of the composite; other nodes list what they did. -/
  children_of_ne : ∀ x, t.Contains x → x ≠ c →
    t'.children x = (t.children x).map fun y => if y = c then w else y
  /-- All other nodes are where they were. -/
  parent_of_ne : ∀ x, t.Contains x → x ≠ c → t'.parent? x = t.parent? x
  /-- The composite may have got children at the end. -/
  children : t.children c <+: t'.children c
  /-- The nodes represent the same grammar elements. -/
  grammar : ∀ x, t.Contains x → (t'.node x).grammar = (t.node x).grammar
  /-- They are placed where they were. -/
  anchor : ∀ x, t.Contains x → (t'.node x).anchor = (t.node x).anchor
  /-- So is the node in the place of the composite. -/
  anchor_self : (t'.node w).anchor = (t.node c).anchor

theorem contains_of_size_le (h : t.size ≤ t'.size) (hx : t.Contains x) : t'.Contains x :=
  Nat.lt_of_lt_of_le hx h

/-- The composite keeps its place where all links stay but for its new children. -/
theorem Occupies.of_keeps (hc : t.Contains c) (size_le : t.size ≤ t'.size)
    (parent : ∀ x, t.Contains x → t'.parent? x = t.parent? x)
    (children : ∀ x, t.Contains x → x ≠ c → t'.children x = t.children x)
    (append : t.children c <+: t'.children c)
    (grammar : ∀ x, t.Contains x → (t'.node x).grammar = (t.node x).grammar)
    (anchor : ∀ x, t.Contains x → (t'.node x).anchor = (t.node x).anchor) :
    t.Occupies g c t' c where
  size_le := size_le
  wraps := .refl
  parent := parent c hc
  children_of_ne x hx hne := by rw [children x hx hne, Shape.map_replace_self]
  parent_of_ne x hx _ := parent x hx
  children := append
  grammar := grammar
  anchor := anchor
  anchor_self := anchor c hc

theorem SameNodes.occupies (h : t.SameNodes t') (hc : t.Contains c) : t.Occupies g c t' c :=
  .of_keeps hc h.size.ge (fun x _ => h.parent? x) (fun x _ _ => h.children x)
    (h.children c ▸ List.prefix_rfl) (fun x _ => h.grammar x) fun x _ => h.anchor x

/-- A composite keeps its place when it gets a new last child. -/
theorem occupies_of_append (hc : t.Contains c) (hs : t'.shape = t.shape.append c t.nextId)
    (size_le : t.size ≤ t'.size)
    (grammar : ∀ x, t.Contains x → (t'.node x).grammar = (t.node x).grammar)
    (anchor : ∀ x, t.Contains x → (t'.node x).anchor = (t.node x).anchor) :
    t.Occupies g c t' c := by
  have hchildren (x : NodeId) : t'.children x =
      if x = c then t.children c ++ [t.nextId] else t.children x := by
    rw [← children_shape, hs, Shape.children_append]
    rfl
  refine .of_keeps hc size_le ?_ ?_ ?_ grammar anchor
  · intro x hx
    rw [← parent?_shape, hs, Shape.parent?_append, if_neg (ne_nextId_of_contains hx)]
    rfl
  · intro x _ hne
    rw [hchildren, if_neg hne]
  · rw [hchildren, if_pos rfl]
    exact List.prefix_append ..

theorem occupies_addLeaf (hc : t.IsComposite c) (leaf : Leaf) (element : Option ElementId)
    (error : Option SyntaxError) : t.Occupies g c (t.addLeaf leaf element error c) c := by
  refine occupies_of_append hc.contains (shape_addLeaf hc leaf element error) ?_ ?_ ?_
  · rw [size_addLeaf]
    exact Nat.le_succ _
  · intro x hx
    rw [grammar_addLeaf, if_neg (ne_nextId_of_contains hx)]
  · exact fun x _ => anchor_addLeaf x

theorem occupies_addComposite (hc : t.IsComposite c) (element : ElementId)
    (lookahead anchor : ℕ) : t.Occupies g c (t.addComposite element lookahead anchor c) c := by
  refine occupies_of_append hc.contains (shape_addComposite hc element lookahead anchor) ?_ ?_ ?_
  · rw [size_addComposite]
    exact Nat.le_succ _
  · intro x hx
    rw [grammar_addComposite, if_neg (ne_nextId_of_contains hx)]
  · intro x hx
    rw [anchor_addComposite, if_neg (ne_nextId_of_contains hx)]

theorem occupies_wrap {action : ElementId} (hw : t.shape.WellFormed) (hc : t.Contains c)
    (ha : g.IsAction action) : t.Occupies g c (t.wrap action c) t.nextId := by
  have hcn := ne_nextId_of_contains hc
  have hparent : (t.wrap action c).parent? c = some t.nextId := by
    rw [parent?_wrap hc, if_neg hcn, if_pos rfl]
  have hchildren (x : NodeId) (hx : t.Contains x) : (t.wrap action c).children x =
      (t.children x).map fun y => if y = c then t.nextId else y := by
    rw [children_wrap hw, if_neg (ne_nextId_of_contains hx)]
  constructor
  case size_le =>
    rw [size_wrap]
    exact Nat.le_succ _
  case wraps =>
    refine .single ⟨t.not_contains_nextId, hparent, ?_, action, ?_, ha⟩
    · rw [children_wrap hw, if_pos rfl]
      rfl
    · rw [grammar_wrap, if_pos rfl]
  case parent => rw [parent?_wrap hc, if_pos rfl]
  case children_of_ne => exact fun x hx _ => hchildren x hx
  case parent_of_ne =>
    intro x hx hne
    rw [parent?_wrap hc, if_neg (ne_nextId_of_contains hx), if_neg hne]
  case children =>
    rw [hchildren c hc, Shape.map_replace_of_not_mem]
    exact fun h => hw.ne_of_parent? (hw.parent?_of_mem h) rfl
  case grammar =>
    intro x hx
    rw [grammar_wrap, if_neg (ne_nextId_of_contains hx)]
  case anchor =>
    intro x hx
    rw [anchor_wrap, if_neg (ne_nextId_of_contains hx)]
  case anchor_self => rw [anchor_wrap, if_pos rfl]

/-! ## One thing after another -/

namespace Occupies

theorem eq_or_fresh (h : t.Occupies g c t' w) : w = c ∨ ¬ t.Contains w := by
  rcases ReflTransGen.cases_tail h.wraps with rfl | ⟨y, -, hy⟩
  · exact Or.inl rfl
  · exact Or.inr hy.fresh

/-- Every other node of the first tree is another node than the one in the place. -/
theorem ne_of_contains (h : t.Occupies g c t' w) (hx : t.Contains x) (hne : x ≠ c) : x ≠ w := by
  rintro rfl
  exact h.eq_or_fresh.elim hne fun hfresh => hfresh hx

theorem contains (h : t.Occupies g c t' w) (hx : t.Contains x) : t'.Contains x :=
  contains_of_size_le h.size_le hx

/-- If the composite itself has the place, all nodes are where they were. -/
theorem parent?_eq (h : t.Occupies g c t' c) (hx : t.Contains x) : t'.parent? x = t.parent? x := by
  by_cases hxc : x = c
  · rw [hxc, h.parent]
  · exact h.parent_of_ne x hx hxc

/-- The wrappers stay when something happens at the place of the outermost. -/
theorem wraps_of_occupies (h : t'.Occupies g x t'' w) (hw : t'.shape.WellFormed)
    (hc : ReflTransGen (Wraps g t t') c x) : ReflTransGen (Wraps g t t'') c x := by
  -- From the outermost wrapper inwards, so that each node is known to lie below it.
  induction hc using ReflTransGen.head_induction_on with
  | refl => exact .refl
  | @head y z hyz hzx ih =>
    refine .head ?_ ih
    have hup : t'.shape.Below z x := ReflTransGen.mono (fun _ _ hwraps => hwraps.parent) _ _ hzx
    have hne : y ≠ x := by
      rintro rfl
      exact hw.not_below_of_parent? hyz.parent hup
    have hz := contains_of_mem_children (hw.mem_of_parent? hyz.parent)
    have hy := contains_of_parent? hyz.parent
    refine ⟨hyz.fresh, ?_, ?_, ?_⟩
    · rw [h.parent_of_ne y hy hne, hyz.parent]
    · by_cases hzx : z = x
      · subst hzx
        obtain ⟨l, hl⟩ := h.children
        rw [← hl, List.head?_append, hyz.head, Option.some_or]
      · rw [h.children_of_ne z hz hzx, List.head?_map, hyz.head, Option.map_some, if_neg hne]
    · rw [h.grammar z hz]
      exact hyz.action

theorem trans (h : t.Occupies g c t' x) (h' : t'.Occupies g x t'' w) (hc : t.Contains c)
    (hw : t.shape.WellFormed) (hw' : t'.shape.WellFormed) : t.Occupies g c t'' w := by
  have hchild {y z : NodeId} (hz : z ∈ t.children y) : t.Contains z :=
    contains_of_parent? (hw.parent?_of_mem hz)
  constructor
  case size_le => exact h.size_le.trans h'.size_le
  case wraps =>
    refine (h'.wraps_of_occupies hw' h.wraps).trans (ReflTransGen.mono ?_ _ _ h'.wraps)
    intro y z hyz
    exact ⟨fun hz => hyz.fresh (h.contains hz), hyz.parent, hyz.head, hyz.action⟩
  case parent => exact h'.parent.trans h.parent
  case children_of_ne =>
    intro y hy hne
    rw [h'.children_of_ne y (h.contains hy) (h.ne_of_contains hy hne), h.children_of_ne y hy hne,
      List.map_map]
    refine List.map_congr_left fun z hz => ?_
    rw [Function.comp_apply]
    by_cases hzc : z = c
    · rw [if_pos hzc, if_pos hzc, if_pos rfl]
    · rw [if_neg hzc, if_neg hzc, if_neg (h.ne_of_contains (hchild hz) hzc)]
  case parent_of_ne =>
    intro y hy hne
    rw [h'.parent_of_ne y (h.contains hy) (h.ne_of_contains hy hne), h.parent_of_ne y hy hne]
  case children =>
    by_cases hcx : c = x
    · subst hcx
      exact h.children.trans h'.children
    · have hx : x ∉ t.children c := fun hx => h.ne_of_contains (hchild hx)
        (fun hxc => hcx hxc.symm) rfl
      rw [h'.children_of_ne c (h.contains hc) hcx, ← Shape.map_replace_of_not_mem hx w]
      exact h.children.map _
  case grammar =>
    intro y hy
    rw [h'.grammar y (h.contains hy), h.grammar y hy]
  case anchor =>
    intro y hy
    rw [h'.anchor y (h.contains hy), h.anchor y hy]
  case anchor_self => rw [h'.anchor_self, h.anchor_self]

/-! ## Below a new child -/

/-- What happens at the place of a new child leaves the composite above it where it is. -/
theorem of_child (h : t.Occupies g c t' c) (h' : t'.Occupies g x t'' w) (hc : t.Contains c)
    (hw : t.shape.WellFormed) (hw' : t'.shape.WellFormed) (hx : ¬ t.Contains x)
    (hp : t'.parent? x = some c) : t.Occupies g c t'' c := by
  have hne {y : NodeId} (hy : t.Contains y) : y ≠ x := by
    rintro rfl
    exact hx hy
  have hlisted {y : NodeId} (hy : y ≠ c) : x ∉ t'.children y := by
    intro hmem
    exact hy (Option.some.inj ((hw'.parent?_of_mem hmem).symm.trans hp))
  have hold : x ∉ t.children c := fun hmem => hx (contains_of_parent? (hw.parent?_of_mem hmem))
  refine .of_keeps hc (h.size_le.trans h'.size_le) ?_ ?_ ?_ ?_ ?_
  · intro y hy
    rw [h'.parent_of_ne y (h.contains hy) (hne hy), h.parent?_eq hy]
  · intro y hy hyc
    rw [h'.children_of_ne y (h.contains hy) (hne hy), Shape.map_replace_of_not_mem (hlisted hyc),
      h.children_of_ne y hy hyc, Shape.map_replace_self]
  · rw [h'.children_of_ne c (h.contains hc) (hne hc), ← Shape.map_replace_of_not_mem hold w]
    exact h.children.map _
  · intro y hy
    rw [h'.grammar y (h.contains hy), h.grammar y hy]
  · intro y hy
    rw [h'.anchor y (h.contains hy), h.anchor y hy]

/-- What happens at the place of a new last child. -/
theorem of_addComposite {element : ElementId} {lookahead anchor : ℕ} (hc : t.IsComposite c)
    (hw : t.shape.WellFormed)
    (h : (t.addComposite element lookahead anchor c).Occupies g t.nextId t' w) :
    t.Occupies g c t' c ∧ t'.parent? w = some c ∧ t'.children c = t.children c ++ [w] := by
  have hcn := ne_nextId_of_contains hc.contains
  have hs := shape_addComposite hc element lookahead anchor
  have hw' : (t.addComposite element lookahead anchor c).shape.WellFormed := by
    rw [hs]
    exact hw.append t.isolated_nextId hcn
  have hp : (t.addComposite element lookahead anchor c).parent? t.nextId = some c := by
    rw [← parent?_shape, hs, Shape.parent?_append, if_pos rfl]
  have hadd := occupies_addComposite (g := g) hc element lookahead anchor
  refine ⟨hadd.of_child h hc.contains hw hw' t.not_contains_nextId hp, h.parent.trans hp, ?_⟩
  have hnew : t.nextId ∉ t.children c := fun hmem =>
    t.not_contains_nextId (contains_of_parent? (hw.parent?_of_mem hmem))
  rw [h.children_of_ne c (hadd.contains hc.contains) hcn, ← children_shape, hs,
    Shape.children_append, if_pos rfl, children_shape, List.map_append,
    Shape.map_replace_of_not_mem hnew, List.map_singleton, if_pos rfl]

/-- Two new nodes are merged, one of which is the only child of the other. -/
theorem absorb (h : t.Occupies g c t' c) (hc : t.Contains c) (hw : t.shape.WellFormed)
    (hw' : t'.shape.WellFormed) (hx : ¬ t.Contains x) (hm : t'.Mergeable x child) :
    t.Occupies g c (t'.absorb x child) c := by
  have hfresh {y z : NodeId} (hz : ¬ t.Contains z) (hyz : t'.parent? y = some z) :
      ¬ t.Contains y := by
    intro hy
    rw [h.parent?_eq hy] at hyz
    exact hz (contains_of_mem_children (hw.mem_of_parent? hyz))
  have hchild : ¬ t.Contains child := hfresh hx (hm.parent? hw')
  have hne {y z : NodeId} (hy : t.Contains y) (hz : ¬ t.Contains z) : y ≠ z := by
    rintro rfl
    exact hz hy
  have hs := shape_absorb hw' hm
  have hchildren (y : NodeId) (hy : t.Contains y) :
      (t'.absorb x child).children y = t'.children y := by
    rw [← children_shape, hs, Shape.children_contract, if_neg (hne hy hx), if_neg (hne hy hchild)]
    rfl
  refine .of_keeps hc ?_ ?_ ?_ ?_ ?_ ?_
  · rw [size_absorb]
    exact h.size_le
  · intro y hy
    rw [← parent?_shape, hs, Shape.parent?_contract, if_neg (hne hy hchild), if_neg]
    · exact h.parent?_eq hy
    · exact fun hmem => hfresh hchild (hw'.parent?_of_mem hmem) hy
  · intro y hy hyc
    rw [hchildren y hy, h.children_of_ne y hy hyc, Shape.map_replace_self]
  · rw [hchildren c hc]
    exact h.children
  · intro y hy
    rw [grammar_absorb hw' hm, if_neg (hne hy hx), if_neg (hne hy hchild), h.grammar y hy]
  · intro y hy
    rw [anchor_absorb hw' hm, h.anchor y hy]

end Occupies

/-! ## A composite below another -/

section OnlyChild

variable (hw : t.shape.WellFormed) (hx : t.IsComposite x) (h : t.children x = [child])

include hw hx h

/-- A composite has the leaves of its only child. -/
theorem leaves_of_children_eq_singleton : t.leaves x = t.leaves child := by
  have hparent : t.parent? child = some x := by
    refine hw.parent?_of_mem ?_
    rw [children_shape, h]
    exact List.mem_singleton_self child
  have hdescendants : t.descendants x = x :: t.descendants child := by
    refine descendants_eq hw hx.contains (.cons ?_)
    rw [children_shape, h]
    exact traversal_descendants hw (contains_of_parent? hparent)
  rw [leaves, leaves, hdescendants, List.filter_cons_of_neg]
  rw [isLeaf, hx.leaf?]
  exact Bool.false_ne_true

/-- It covers what the child covers, if it is placed where the child is. -/
theorem span_of_children_eq_singleton (hc : t.IsComposite child)
    (ha : (t.node child).anchor = (t.node x).anchor) : t.span x = t.span child := by
  have hleaves := leaves_of_children_eq_singleton hw hx h
  rw [span_of_leaf?_eq_none hx.leaf?, span_of_leaf?_eq_none hc.leaf?, firstLeaf?, firstLeaf?,
    lastLeaf?_eq hw hx.contains, lastLeaf?_eq hw hc.contains, hleaves, ha]

end OnlyChild

end Tree

end ParseTree
