import ParseTree.Proofs.Tree.Yield

/-!
# The last leaf

The search for the last leaf goes down from the last child on. It finds the leaf that comes last in
document order, and on the right edge of the tree that is the last leaf of all.

## Main results

* `IsTreeBelow.lastLeaf?_eq`, `lastLeaf?_eq`: the last leaf found below a node is the last one in
  document order
* `getLast?_leaves_of_spine`: below a node on the right edge it is the last one of the tree
-/

namespace ParseTree.Tree

variable {t : Tree} {id x c : NodeId} {l stack : List NodeId} {n d : ℕ}

theorem children_eq_nil_of_isLeaf (h : t.isLeaf id) : t.children id = [] := by
  by_contra hne
  rw [isLeaf, Node.leaf?_eq_none_of_children_ne_nil hne] at h
  cases h

/-- A search from the last node of a stack to the first finds the last leaf below them, if it finds
the last leaf below each. -/
theorem findSome?_reverse_eq {find : NodeId → Option NodeId}
    (hfind : ∀ c l, t.shape.Traversal [c] l → l.length ≤ n → find c = (l.filter t.isLeaf).getLast?)
    (h : t.shape.Traversal stack l) (hn : l.length ≤ n) :
    stack.reverse.findSome? find = (l.filter t.isLeaf).getLast? := by
  induction stack using List.reverseRecOn generalizing l with
  | nil =>
    cases h
    rfl
  | append_singleton stack c ih =>
    obtain ⟨l₁, l₂, rfl, h₁, h₂⟩ := h.split
    rw [List.length_append] at hn
    rw [List.reverse_append, List.reverse_singleton, List.singleton_append, List.findSome?_cons,
      hfind c l₂ h₂ (by omega), ih h₁ (by omega), List.filter_append, List.getLast?_append]
    cases (l₂.filter t.isLeaf).getLast? <;> rfl

theorem lastLeafWithin?_eq (h : t.shape.Traversal [id] l) (hn : l.length ≤ n) :
    t.lastLeafWithin? n id = (l.filter t.isLeaf).getLast? := by
  induction n generalizing id l with
  | zero =>
    obtain rfl := List.length_eq_zero_iff.mp (Nat.le_zero.mp hn)
    cases h
  | succ n ih =>
    cases h with
    | @cons _ _ l h =>
      rw [List.append_nil] at h
      rw [lastLeafWithin?]
      by_cases hleaf : t.isLeaf id
      · rw [children_shape, children_eq_nil_of_isLeaf hleaf] at h
        cases h
        rw [if_pos hleaf, List.filter_cons_of_pos hleaf]
        rfl
      · rw [if_neg hleaf, List.filter_cons_of_neg hleaf]
        exact findSome?_reverse_eq (fun c l => ih) h (Nat.le_of_succ_le_succ hn)

theorem IsTreeBelow.lastLeaf?_eq (h : t.IsTreeBelow id) :
    t.lastLeaf? id = (t.leaves id).getLast? :=
  lastLeafWithin?_eq h.traversal_descendants h.length_descendants_le

section WellFormed

variable (hw : t.shape.WellFormed)

include hw

theorem lastLeaf?_eq (hc : t.Contains id) : t.lastLeaf? id = (t.leaves id).getLast? :=
  (isTreeBelow_of_wellFormed hw hc).lastLeaf?_eq

/-- Nothing comes after what is below a node on the right edge. -/
theorem getLast?_leaves_of_spine (hr : t.Contains root) (hs : t.shape.Spine root c d)
    (h : t.lastLeaf? c = some x) : (t.leaves root).getLast? = some x := by
  have hc : t.Contains c := contains_of_below hr (hs.below_root hw)
  obtain ⟨l₁, l₂, hl, hl₂, -⟩ := hs.split_traversal (traversal_descendants hw hr)
  rw [lastLeaf?_eq hw hc, leaves, descendants_eq hw hc hl₂] at h
  rw [leaves, hl, List.filter_append, List.getLast?_append, h, Option.some_or]

end WellFormed

end ParseTree.Tree
