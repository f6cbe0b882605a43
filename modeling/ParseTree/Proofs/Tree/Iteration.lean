import ParseTree.Proofs.Tree.Last

/-!
# Iteration and recursion

There are two ways to go through what lies below a node. An iterator keeps a stack: a call answers
the node on top and pushes its children, the last one first. Recursion goes down the child lists.
In a tree both come to an end, and the iterator answers the nodes in pre-order: each node first,
then what its children give, one after the other. The outermost leaves are the first and the last
leaf in that order, also where composites without leaves lie further out.

## Main definitions

* `Shape.IsPreorder`: lists of nodes that recursion over child lists gives
* `Tree.answer`: the answers of the calls of the iterator
* `Tree.TraversalsAgree`: iteration, recursion and the searches for leaves give one order

## Main results

* `getElem?_walk`: a walk lists the answers of the first calls
* `IsTreeBelow.isPreorder_iff`: recursion over child lists has one outcome, the walk
* `IsTreeBelow.leaves_eq`: the leaves by recursion
* `traversalsAgree_of_reached`: the traversals agree at every node of a tree
-/

namespace ParseTree

/-- The lists of the nodes below a node come from recursion over child lists: each node first, then
the lists of its children from left to right. -/
def Shape.IsPreorder (s : Shape) (id : NodeId) (order : NodeId → List NodeId) : Prop :=
  ∀ x, s.Reached id x → order x = x :: (s.children x).flatMap order

/-- Recursion over child lists follows the traversal. -/
theorem Shape.Traversal.flatMap_eq {s : Shape} {stack l : List NodeId}
    {order : NodeId → List NodeId} (h : s.Traversal stack l)
    (ho : ∀ x ∈ l, order x = x :: (s.children x).flatMap order) : stack.flatMap order = l := by
  induction h with
  | nil => rfl
  | @cons id stack l _ ih =>
    have ih := ih fun x hx => ho x (List.mem_cons_of_mem _ hx)
    rw [List.flatMap_append] at ih
    rw [List.flatMap_cons, ho id List.mem_cons_self, List.cons_append, ih]

namespace Tree

variable {t : Tree} {id x : NodeId} {stack l : List NodeId} {order : NodeId → List NodeId}

/-! ### Calls of the iterator -/

/-- The answer of a call of the iterator that comes after a number of others. -/
def answer (t : Tree) : ℕ → List NodeId → Option NodeId
  | 0, stack => (t.next stack).1
  | k + 1, stack => t.answer k (t.next stack).2

/-- An iterator without nodes stays so. -/
theorem answer_nil (t : Tree) (k : ℕ) : t.answer k [] = none := by
  induction k with
  | zero => rfl
  | succ k ih => exact ih

/-- A walk lists the answers of the first calls, whatever the nodes refer to. -/
theorem getElem?_walk (t : Tree) (n k : ℕ) (stack : List NodeId) :
    (t.walk n stack)[k]? = if k < n then t.answer k stack else none := by
  induction n generalizing k stack with
  | zero => rw [walk_zero, List.getElem?_nil, if_neg (Nat.not_lt_zero k)]
  | succ n ih =>
    cases stack with
    | nil => rw [walk_nil, List.getElem?_nil, answer_nil, ite_self]
    | cons id stack =>
      rw [walk_succ_cons]
      cases k with
      | zero => rw [List.getElem?_cons_zero, if_pos (Nat.succ_pos n), answer, next_cons]
      | succ k =>
        rw [List.getElem?_cons_succ, ih, answer, next_cons]
        simp only [Nat.succ_lt_succ_iff]

/-- The calls answer what a traversal visits, and then nothing more. -/
theorem answer_eq (h : t.shape.Traversal stack l) (k : ℕ) : t.answer k stack = l[k]? := by
  have hwalk := t.getElem?_walk (max (k + 1) l.length) k stack
  rwa [walk_eq h (Nat.le_max_right ..), if_pos (Nat.lt_of_succ_le (Nat.le_max_left ..)),
    eq_comm] at hwalk

/-! ### Recursion -/

namespace IsTreeBelow

variable (h : t.IsTreeBelow id)

include h

/-- Recursion over child lists has one outcome, the walk. -/
theorem isPreorder_iff :
    t.shape.IsPreorder id order ↔ ∀ x, t.shape.Reached id x → order x = t.descendants x := by
  constructor
  · intro ho x hx
    have hbelow := h.of_reached hx
    have heq : [x].flatMap order = t.descendants x :=
      hbelow.traversal_descendants.flatMap_eq fun y hy =>
        ho y (hx.trans (hbelow.mem_descendants_iff.mp hy))
    rwa [List.flatMap_singleton] at heq
  · intro ho x hx
    rw [ho x hx, (h.of_reached hx).descendants_eq_cons]
    refine congrArg _ (List.flatMap_congr fun c hc => ?_).symm
    exact ho c (hx.trans (Shape.reached_of_mem_children hc))

/-! ### Leaves -/

/-- The leaves by recursion. -/
theorem leaves_eq :
    t.leaves id = if t.isLeaf id then [id] else (t.children id).flatMap t.leaves := by
  rw [leaves, h.descendants_eq_cons]
  split_ifs with hleaf
  · rw [children_eq_nil_of_isLeaf hleaf, List.filter_cons_of_pos hleaf]
    rfl
  · rw [List.filter_cons_of_neg hleaf, List.filter_flatMap]
    rfl

theorem leaves_eq_nil_iff : t.leaves id = [] ↔ ∀ x, t.shape.Reached id x → t.isLeaf x = false := by
  simp only [leaves, List.filter_eq_nil_iff, h.mem_descendants_iff, Bool.not_eq_true]

/-- The first leaf is found by a search from the left. -/
theorem firstLeaf?_eq_findSome? : t.firstLeaf? id =
    if t.isLeaf id then some id else (t.children id).findSome? t.firstLeaf? := by
  rw [firstLeaf?, h.leaves_eq]
  split_ifs
  · rfl
  · exact List.head?_flatMap

/-- The search for the last leaf goes on in the children, from right to left. No bound on its depth
is reached. -/
theorem lastLeaf?_eq_findSome? : t.lastLeaf? id =
    if t.isLeaf id then some id else (t.children id).reverse.findSome? t.lastLeaf? := by
  have hlen := h.length_descendants_le
  rw [h.descendants_eq_cons, List.length_cons] at hlen
  rw [h.lastLeaf?_eq, leaves, h.descendants_eq_cons]
  split_ifs with hleaf
  · rw [children_eq_nil_of_isLeaf hleaf, List.filter_cons_of_pos hleaf]
    rfl
  · rw [List.filter_cons_of_neg hleaf]
    exact (findSome?_reverse_eq (fun _ _ => lastLeafWithin?_eq) h.traversal_children
      (Nat.le_of_succ_le hlen)).symm

end IsTreeBelow

/-! ### All traversals -/

/-- The ways to go through what lies below a node give one order. -/
structure TraversalsAgree (t : Tree) (id : NodeId) : Prop where
  /-- Recursion over child lists has one outcome, the list of descendants. -/
  preorder : ∀ order, t.shape.IsPreorder id order ↔
    ∀ x, t.shape.Reached id x → order x = t.descendants x
  /-- The iterator answers the descendants call by call, and then nothing more. -/
  answers : ∀ k, t.answer k [id] = (t.descendants id)[k]?
  /-- No node is listed twice. -/
  nodup : (t.descendants id).Nodup
  /-- The nodes listed are the node itself and those below it. -/
  mem_iff : ∀ x, x ∈ t.descendants id ↔ t.shape.Reached id x
  /-- The first leaf is the first of the leaves. -/
  firstLeaf : t.firstLeaf? id = (t.leaves id).head?
  /-- A search down the children from the left finds it. -/
  fromLeft : t.firstLeaf? id =
    if t.isLeaf id then some id else (t.children id).findSome? t.firstLeaf?
  /-- The last leaf, as it is found while the tree grows, is the last of the leaves. -/
  lastLeaf : t.lastLeaf? id = (t.leaves id).getLast?
  /-- A search down the children from the right finds it. -/
  fromRight : t.lastLeaf? id =
    if t.isLeaf id then some id else (t.children id).reverse.findSome? t.lastLeaf?
  /-- The same goes for views of the node. -/
  view : ∀ v : NodeView, v.tree = t → v.id = id →
    v.firstLeaf? = v.leaves.head? ∧ v.lastLeaf? = v.leaves.getLast?
  /-- There is a first leaf unless there is no leaf. -/
  firstLeaf_eq_none_iff : t.firstLeaf? id = none ↔ ∀ x, t.shape.Reached id x → t.isLeaf x = false
  /-- There is a last leaf unless there is no leaf. -/
  lastLeaf_eq_none_iff : t.lastLeaf? id = none ↔ ∀ x, t.shape.Reached id x → t.isLeaf x = false

/-- **Iteration and recursion agree** at every node of every tree in an arena. -/
theorem traversalsAgree_of_reached (t : Tree) (root id : NodeId) (h : t.IsTreeBelow root)
    (hid : t.shape.Reached root id) : t.TraversalsAgree id := by
  have hbelow := h.of_reached hid
  have hl := hbelow.traversal_descendants
  exact {
    preorder := fun _ => hbelow.isPreorder_iff
    answers := answer_eq hl
    nodup := hbelow.nodup_descendants
    mem_iff := fun _ => hbelow.mem_descendants_iff
    firstLeaf := rfl
    fromLeft := hbelow.firstLeaf?_eq_findSome?
    lastLeaf := hbelow.lastLeaf?_eq
    fromRight := hbelow.lastLeaf?_eq_findSome?
    view := by
      rintro v rfl rfl
      refine ⟨rfl, ?_⟩
      rw [NodeView.lastLeaf?, NodeView.leaves, hbelow.lastLeaf?_eq, List.getLast?_map]
    firstLeaf_eq_none_iff := by
      rw [firstLeaf?, List.head?_eq_none_iff, hbelow.leaves_eq_nil_iff]
    lastLeaf_eq_none_iff := by
      rw [hbelow.lastLeaf?_eq, List.getLast?_eq_none_iff, hbelow.leaves_eq_nil_iff] }

/-- A tree that begins and ends with composites without leaves. Its last node was wrapped around the
composite of the two leaves. -/
def hollowEnds : Tree :=
  ⟨#[⟨none, .composite ⟨[⟨1⟩, ⟨7⟩, ⟨5⟩], 0, [], 0⟩, [], none, none⟩,
    ⟨some ⟨0⟩, .composite ⟨[], 0, [], 0⟩, [], none, none⟩,
    ⟨some ⟨7⟩, .composite ⟨[⟨3⟩, ⟨4⟩], 0, [], 0⟩, [], none, none⟩,
    ⟨some ⟨2⟩, .leaf ⟨0, ⟨3⟩, ⟨0, 1⟩, false, none⟩, [], none, none⟩,
    ⟨some ⟨2⟩, .leaf ⟨1, ⟨3⟩, ⟨1, 2⟩, false, none⟩, [], none, none⟩,
    ⟨some ⟨0⟩, .composite ⟨[⟨6⟩], 0, [], 2⟩, [], none, none⟩,
    ⟨some ⟨5⟩, .composite ⟨[], 0, [], 2⟩, [], none, none⟩,
    ⟨some ⟨0⟩, .composite ⟨[⟨2⟩], 0, [], 0⟩, [], none, none⟩]⟩

/-- The outermost leaves lie further in than the outermost composites, and below the last child of
the root there is no leaf. -/
theorem traversalsAgree_of_hollowEnds :
    hollowEnds.IsTreeBelow ⟨0⟩ ∧ hollowEnds.shape.Reached ⟨0⟩ ⟨5⟩ ∧
      hollowEnds.TraversalsAgree ⟨0⟩ ∧ hollowEnds.TraversalsAgree ⟨5⟩ ∧
      (List.range 9).map (hollowEnds.answer · [⟨0⟩]) =
        [some ⟨0⟩, some ⟨1⟩, some ⟨7⟩, some ⟨2⟩, some ⟨3⟩, some ⟨4⟩, some ⟨5⟩, some ⟨6⟩, none] ∧
      hollowEnds.firstLeaf? ⟨0⟩ = some ⟨3⟩ ∧ hollowEnds.lastLeaf? ⟨0⟩ = some ⟨4⟩ ∧
      hollowEnds.lastLeaf? ⟨5⟩ = none := by
  have htree : hollowEnds.IsTreeBelow ⟨0⟩ := by decide
  have hreached : hollowEnds.shape.Reached ⟨0⟩ ⟨5⟩ := ⟨[2], rfl⟩
  have hroot := traversalsAgree_of_reached hollowEnds ⟨0⟩ ⟨0⟩ htree (Shape.reached_self _ _)
  have hlast := traversalsAgree_of_reached hollowEnds ⟨0⟩ ⟨5⟩ htree hreached
  refine ⟨htree, hreached, hroot, hlast, ?_, ?_, ?_, ?_⟩
  · simp only [hroot.answers]
    decide
  · rw [hroot.firstLeaf]
    decide
  · rw [hroot.lastLeaf]
    decide
  · rw [hlast.lastLeaf]
    decide

end Tree

end ParseTree
