import Mathlib.Data.Finset.Card
import ParseTree.Proofs.Tree.Descent
import ParseTree.Proofs.Tree.Edit
import ParseTree.Tree.View

/-!
# Trees among the nodes

All nodes ever made are held in one arena, whatever they refer to. The nodes that a node leads to
are a tree if they are in the arena and each of them is reached in one way. Reading bounds a walk by
the number of nodes. In a tree that is no bound at all: the walk is the traversal of the tree. A
walk of one more step tells whether it is one.

## Main definitions

* `Tree.IsTreeBelow`: what a node leads to is a tree

## Main results

* `IsTreeBelow.traversal_descendants`: a walk visits the whole tree
* `IsTreeBelow.mem_descendants_iff`, `IsTreeBelow.nodup_descendants`: it does so once
* `IsTreeBelow.descendants_eq_cons`: it follows the recursion over child lists
* `isTreeBelow_iff`: what is a tree is decided by a walk
* `isTreeBelow_of_wellFormed`: in a well-formed shape there is a tree below every node
-/

namespace ParseTree.Tree

variable {t : Tree} {id x : NodeId} {stack l : List NodeId} {n : ℕ}

/-- What a node leads to is a tree. Nothing is said about the nodes that it does not lead to. -/
structure IsTreeBelow (t : Tree) (root : NodeId) : Prop where
  /-- What is reached is in the arena. -/
  contains : ∀ x, t.shape.Reached root x → t.Contains x
  /-- Going down children, each node is reached in at most one way. -/
  once : t.shape.ReachedOnce root

/-! ### Walks -/

theorem walk_eq (h : t.shape.Traversal stack l) (hn : l.length ≤ n) : t.walk n stack = l := by
  induction h generalizing n with
  | nil => exact walk_nil t n
  | @cons id stack l _ ih =>
    cases n with
    | zero => exact absurd hn (Nat.not_succ_le_zero _)
    | succ n => rw [walk_succ_cons, ← children_shape, ih (Nat.le_of_succ_le_succ hn)]

/-- A walk that ends before its bound is a traversal. -/
theorem traversal_walk_of_length_lt (h : (t.walk n stack).length < n) :
    t.shape.Traversal stack (t.walk n stack) := by
  induction n generalizing stack with
  | zero => exact absurd h (Nat.not_lt_zero _)
  | succ n ih =>
    cases stack with
    | nil => exact .nil
    | cons id stack =>
      rw [walk_succ_cons] at h ⊢
      exact .cons (ih (Nat.lt_of_succ_lt_succ h))

/-- There are no more different nodes than the tree has. -/
theorem length_le_size_of_nodup (hn : l.Nodup) (hc : ∀ x ∈ l, t.Contains x) :
    l.length ≤ t.size := by
  have hinj : Function.Injective NodeId.index := by
    rintro ⟨a⟩ ⟨b⟩ rfl
    rfl
  have hsub : (l.map NodeId.index).toFinset ⊆ Finset.range t.size := by
    intro i hi
    obtain ⟨x, hx, rfl⟩ := List.mem_map.mp (List.mem_toFinset.mp hi)
    exact Finset.mem_range.mpr (hc x hx)
  have hcard := Finset.card_le_card hsub
  rwa [List.toFinset_card_of_nodup (hn.map hinj), List.length_map, Finset.card_range] at hcard

/-! ### Trees -/

theorem isTreeBelow_of_traversal (h : t.shape.Traversal [id] l) (hn : l.Nodup)
    (hc : ∀ x ∈ l, t.Contains x) : t.IsTreeBelow id where
  contains x hx := hc x (h.mem_iff_reached.mpr ⟨id, List.mem_singleton_self id, hx⟩)
  once := h.nodup_iff_reachedOnce.mp hn

namespace IsTreeBelow

variable (h : t.IsTreeBelow id)

include h

/-- Below a node of a tree there is a tree. -/
theorem of_reached (hx : t.shape.Reached id x) : t.IsTreeBelow x where
  contains y hy := h.contains y (hx.trans hy)
  once := h.once.of_reached hx

theorem length_le_size (hl : t.shape.Traversal [id] l) : l.length ≤ t.size := by
  refine length_le_size_of_nodup (hl.nodup_iff_reachedOnce.mpr h.once) fun x hx => h.contains x ?_
  simpa using hl.mem_iff_reached.mp hx

/-- The walk from the node visits everything below it. -/
theorem traversal_descendants : t.shape.Traversal [id] (t.descendants id) := by
  obtain ⟨l, hl⟩ := h.once.exists_traversal h.contains
  rwa [descendants, walk_eq hl (h.length_le_size hl)]

theorem length_descendants_le : (t.descendants id).length ≤ t.size :=
  h.length_le_size h.traversal_descendants

theorem nodup_descendants : (t.descendants id).Nodup :=
  h.traversal_descendants.nodup_iff_reachedOnce.mpr h.once

theorem mem_descendants_iff : x ∈ t.descendants id ↔ t.shape.Reached id x := by
  simp [h.traversal_descendants.mem_iff_reached]

/-- The walks from the children make up the traversal of what lies below the node. -/
theorem traversal_children :
    t.shape.Traversal (t.children id) ((t.children id).flatMap t.descendants) :=
  .flatMap fun _ hc => (h.of_reached (Shape.reached_of_mem_children hc)).traversal_descendants

/-- A walk follows the recursion over child lists. -/
theorem descendants_eq_cons : t.descendants id = id :: (t.children id).flatMap t.descendants := by
  refine h.traversal_descendants.unique (.cons ?_)
  rw [List.append_nil]
  exact h.traversal_children

end IsTreeBelow

/-- A walk of one more step than there are nodes decides what is a tree. -/
theorem isTreeBelow_iff : t.IsTreeBelow id ↔ (t.walk (t.size + 1) [id]).Nodup ∧
    ∀ x ∈ t.walk (t.size + 1) [id], t.Contains x := by
  constructor
  · intro h
    rw [walk_eq h.traversal_descendants (Nat.le_succ_of_le h.length_descendants_le)]
    exact ⟨h.nodup_descendants, fun x hx => h.contains x (h.mem_descendants_iff.mp hx)⟩
  · rintro ⟨hn, hc⟩
    have hlt := Nat.lt_succ_of_le (length_le_size_of_nodup hn hc)
    exact isTreeBelow_of_traversal (traversal_walk_of_length_lt hlt) hn hc

instance (t : Tree) (id : NodeId) : Decidable (t.IsTreeBelow id) :=
  decidable_of_iff _ isTreeBelow_iff.symm

theorem contains_of_below (hc : t.Contains id) (h : t.shape.Below x id) : t.Contains x := by
  rcases Relation.ReflTransGen.cases_head h with rfl | ⟨p, hp, -⟩
  · exact hc
  · exact contains_of_parent? hp

/-- In a well-formed shape there is a tree below every node. -/
theorem isTreeBelow_of_wellFormed (hw : t.shape.WellFormed) (hc : t.Contains id) :
    t.IsTreeBelow id := by
  obtain ⟨l, hl⟩ := hw.exists_traversal (n := t.size)
    (fun c hp => contains_of_parent? (Option.ne_none_iff_exists'.mp hp).choose_spec) id
  exact isTreeBelow_of_traversal hl (hl.nodup hw) fun x hx =>
    contains_of_below hc ((hl.mem_singleton_iff hw).mp hx)

end ParseTree.Tree
