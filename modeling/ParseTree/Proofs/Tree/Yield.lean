import ParseTree.Proofs.Tree.Below
import ParseTree.Proofs.Tree.Merge

/-!
# The tokens of a tree

In a well-formed tree the walk from a node is its traversal. So the tokens below the root are known
from the shape, and so is what an edit does to them.

## Main definitions

* `Tree.yieldBelow`: the tokens below a node, in document order
* `Tree.yield`: the tokens below the root

## Main results

* `traversal_descendants`: a walk visits everything below a node
* `mem_descendants_iff`, `nodup_descendants`: it does so once
* `leaves_wrap`: a wrapper changes the leaves below no node
* `yieldBelow_addLeaf`: a leaf at the right edge comes after all others
* `yieldBelow_addComposite`, `yieldBelow_wrap`, `yieldBelow_absorb`: composites do not change the
  tokens
-/

namespace ParseTree.Tree

variable {t t' : Tree} {id p x top child inner : NodeId} {l : List NodeId} {n : ℕ}

section WellFormed

variable (hw : t.shape.WellFormed)

include hw

/-- The last leaf found below a node lies below it. -/
theorem below_of_lastLeafWithin? (h : t.lastLeafWithin? n id = some x) : t.shape.Below x id := by
  induction n generalizing id with
  | zero => exact absurd h (by simp [lastLeafWithin?])
  | succ n ih =>
    rw [lastLeafWithin?] at h
    split_ifs at h
    · obtain rfl := Option.some.inj h
      exact Relation.ReflTransGen.refl
    · obtain ⟨c, hc, hx⟩ := List.exists_of_findSome?_eq_some h
      exact (ih hx).trans (Shape.below_of_parent? (hw.parent?_of_mem (List.mem_reverse.mp hc)))

/-- The walk from a node visits everything below it. -/
theorem traversal_descendants (hc : t.Contains id) :
    t.shape.Traversal [id] (t.descendants id) :=
  (isTreeBelow_of_wellFormed hw hc).traversal_descendants

theorem descendants_eq (hc : t.Contains id) (h : t.shape.Traversal [id] l) :
    t.descendants id = l :=
  (traversal_descendants hw hc).unique h

theorem mem_descendants_iff (hc : t.Contains id) : x ∈ t.descendants id ↔ t.shape.Below x id :=
  (traversal_descendants hw hc).mem_singleton_iff hw

theorem nodup_descendants (hc : t.Contains id) : (t.descendants id).Nodup :=
  (traversal_descendants hw hc).nodup hw

/-- A walk from a node without children ends at once. -/
theorem descendants_of_children_eq_nil (hc : t.Contains id) (h : t.children id = []) :
    t.descendants id = [id] := by
  refine descendants_eq hw hc (.cons ?_)
  rw [children_shape, h]
  exact .nil

end WellFormed

/-- The tokens below a node, in document order. -/
def yieldBelow (t : Tree) (id : NodeId) : List Leaf :=
  (t.descendants id).filterMap fun x => (t.node x).leaf?

/-- The tokens below the root, in document order. -/
def yield (t : Tree) : List Leaf :=
  t.yieldBelow root

theorem span_of_leaf? {leaf : Leaf} (h : (t.node x).leaf? = some leaf) : t.span x = leaf.span := by
  unfold Node.leaf? at h
  unfold span
  cases hk : (t.node x).kind with
  | leaf l =>
    rw [hk] at h
    rw [Option.some.inj h]
  | composite c =>
    rw [hk] at h
    cases h

/-- A composite covers what lies between its outermost leaves, or is placed at its anchor. -/
theorem span_of_leaf?_eq_none (h : (t.node x).leaf? = none) :
    t.span x = match (t.firstLeaf? x).bind t.leafSpan?, (t.lastLeaf? x).bind t.leafSpan? with
      | some first, some last => first.cover last
      | _, _ => .point (t.node x).anchor := by
  unfold Node.leaf? at h
  rw [Tree.span, Node.anchor, Node.composite?]
  split at h
  · next c hc => rw [hc]; rfl
  · cases h

/-- The tokens are those of the leaves. -/
theorem yieldBelow_eq (t : Tree) (id : NodeId) :
    t.yieldBelow id = (t.leaves id).filterMap fun x => (t.node x).leaf? := by
  rw [yieldBelow, leaves, List.filterMap_filter]
  refine List.filterMap_congr fun x _ => ?_
  cases hx : (t.node x).leaf? <;> simp [isLeaf, hx]

/-- What depends on the leaf of a node only is said of the leaves themselves. -/
theorem map_leaves {α : Type} {g : NodeId → α} {f : Leaf → α}
    (h : ∀ x leaf, (t.node x).leaf? = some leaf → g x = f leaf) (id : NodeId) :
    (t.leaves id).map g = (t.yieldBelow id).map f := by
  rw [leaves, yieldBelow]
  induction t.descendants id with
  | nil => rfl
  | cons x l ih =>
    cases hx : (t.node x).leaf? with
    | none => simp [isLeaf, hx, ih]
    | some leaf => simp [isLeaf, hx, ih, h x leaf hx]

/-- The text of a leaf is read off its span. -/
theorem map_text_leaves (t : Tree) (source : String) (id : NodeId) :
    (t.leaves id).map (t.text source) =
      (t.yieldBelow id).map fun leaf => (leaf.span.slice? source).getD "" := by
  refine map_leaves (fun x leaf hx => ?_) id
  rw [text, span_of_leaf? hx]

theorem mem_yield_iff (hw : t.shape.WellFormed) (hr : t.Contains root) {leaf : Leaf} :
    leaf ∈ t.yield ↔ ∃ x, t.shape.Below x root ∧ (t.node x).leaf? = some leaf := by
  rw [yield, yieldBelow, List.mem_filterMap]
  simp only [mem_descendants_iff hw hr]

/-- Trees with the same nodes have the same walks. -/
theorem SameNodes.descendants (hw : t.shape.WellFormed) (hx : t.Contains x)
    (h : t.SameNodes t') : t'.descendants x = t.descendants x := by
  have ht := traversal_descendants hw hx
  rw [← h.shape] at ht hw
  exact descendants_eq hw ((h.contains_iff x).mpr hx) ht

theorem isLeaf_congr (h : (t'.node x).leaf? = (t.node x).leaf?) : t'.isLeaf x = t.isLeaf x :=
  congrArg Option.isSome h

/-- Trees with the same nodes have the same leaves. -/
theorem SameNodes.leaves (h : t.SameNodes t') (hw : t.shape.WellFormed) (hx : t.Contains x) :
    t'.leaves x = t.leaves x := by
  rw [Tree.leaves, Tree.leaves, h.descendants hw hx]
  exact List.filter_congr fun y _ => isLeaf_congr (h.leaf? y)

/-- Trees with the same nodes have the same tokens. -/
theorem SameNodes.yieldBelow (hw : t.shape.WellFormed) (hx : t.Contains x) (h : t.SameNodes t') :
    t'.yieldBelow x = t.yieldBelow x := by
  rw [Tree.yieldBelow, Tree.yieldBelow, h.descendants hw hx]
  exact List.filterMap_congr fun x _ => h.leaf? x

section Edit

variable (hw : t.shape.WellFormed) (ht : t.Contains top)

include hw ht

/-- A node at the right edge comes last. -/
theorem descendants_push {n : ℕ} (hp : t.shape.Spine top p n) (hc : t.Contains p)
    (hs : t'.shape = t.shape.append p t.nextId) (hsize : t'.size = t.size + 1) :
    t'.descendants top = t.descendants top ++ [t.nextId] := by
  have hne := ne_nextId_of_contains hc
  have hd := Shape.Traversal.append hw t.isolated_nextId hne hp (traversal_descendants hw ht)
  have hw' := hw.append t.isolated_nextId hne
  rw [← hs] at hd hw'
  refine descendants_eq hw' ?_ hd
  rw [Contains, hsize]
  exact Nat.lt_succ_of_lt ht

/-- A wrapper comes just before the node that it wraps, and has it below itself. -/
theorem descendants_wrap (hi : t.Contains inner) (element : ElementId) :
    (t.wrap element inner).descendants (if top = inner then t.nextId else top) =
      (t.descendants top).flatMap fun x => if x = inner then [t.nextId, inner] else [x] := by
  have hnew : t.nextId ∉ t.descendants top := by
    intro h
    exact t.not_contains_nextId (contains_of_below ht ((mem_descendants_iff hw ht).mp h))
  have hd := Shape.Traversal.interpose inner hnew (traversal_descendants hw ht)
  rw [List.map_singleton, ← shape_wrap hw hi element] at hd
  have hw' := hw.interpose t.isolated_nextId (ne_nextId_of_contains hi)
  rw [← shape_wrap hw hi element] at hw'
  refine descendants_eq hw' ?_ hd
  rw [Contains, size_wrap]
  split_ifs
  · exact Nat.lt_succ_self _
  · exact Nat.lt_succ_of_lt ht

/-- Below the node that is wrapped nothing changes. -/
theorem descendants_wrap_of_below (hi : t.Contains inner) (hb : t.shape.Below top inner)
    (element : ElementId) : (t.wrap element inner).descendants top = t.descendants top := by
  have hd := traversal_descendants hw ht
  have hw' := hw.interpose t.isolated_nextId (ne_nextId_of_contains hi)
  rw [← shape_wrap hw hi element] at hw'
  refine descendants_eq hw' ?_ (hd.congr fun x hx => ?_)
  · rw [Contains, size_wrap]
    exact Nat.lt_succ_of_lt ht
  · have hbelow := (mem_descendants_iff hw ht).mp hx
    rw [shape_wrap hw hi, Shape.children_interpose_of_parent?_ne hw
      (ne_nextId_of_contains (contains_of_below ht hbelow))]
    intro hp
    exact hw.not_below_of_parent? hp (hbelow.trans hb)

/-- A wrapper around a composite changes the leaves below no node. -/
theorem leaves_wrap (hi : t.IsComposite inner) (element : ElementId) :
    (t.wrap element inner).leaves top = t.leaves top := by
  have hleaf (x : NodeId) : (t.wrap element inner).isLeaf x = t.isLeaf x :=
    isLeaf_congr (leaf?_wrap x)
  by_cases htop : top = inner
  · rw [leaves, leaves, descendants_wrap_of_below hw ht hi.contains (htop ▸ .refl)]
    exact List.filter_congr fun x _ => hleaf x
  · have hinner : t.isLeaf inner = false := by
      rw [isLeaf, hi.leaf?]
      rfl
    have hnew : t.isLeaf t.nextId = false := by
      rw [isLeaf, node_of_not_contains t.not_contains_nextId]
      rfl
    have hsplit : t.leaves top = (t.descendants top).flatMap fun x => [x].filter t.isLeaf := by
      rw [← List.filter_flatMap, List.flatMap_singleton']
      rfl
    have hd := descendants_wrap hw ht hi.contains element
    rw [if_neg htop] at hd
    rw [hsplit, leaves, hd, List.filter_flatMap]
    refine List.flatMap_congr fun x _ => ?_
    by_cases hx : x = inner
    · simp [hx, hleaf, hnew, hinner]
    · rw [if_neg hx]
      exact List.filter_congr fun y _ => hleaf y

/-- A child that is merged away is left out. -/
theorem descendants_absorb (hm : t.Mergeable id child) (hne : child ≠ top) :
    (t.absorb id child).descendants top = (t.descendants top).filter fun x => x ≠ child := by
  have hd := (traversal_descendants hw ht).contract hw hm.children (by simpa using hne)
  have hw' := hw.contract hm.children
  rw [← shape_absorb hw hm] at hd hw'
  refine descendants_eq hw' ?_ hd
  rwa [Contains, size_absorb]

theorem yieldBelow_push {n : ℕ} (hp : t.shape.Spine top p n) (hc : t.IsComposite p)
    (hs : t'.shape = t.shape.append p t.nextId) (hsize : t'.size = t.size + 1) {leaf? : Option Leaf}
    (hl : ∀ x, (t'.node x).leaf? = if x = t.nextId then leaf? else (t.node x).leaf?) :
    t'.yieldBelow top = t.yieldBelow top ++ leaf?.toList := by
  rw [yieldBelow, yieldBelow, descendants_push hw ht hp hc.contains hs hsize,
    List.filterMap_append]
  refine congrArg₂ (· ++ ·) (List.filterMap_congr ?_) ?_
  · intro x hx
    have hx := contains_of_below ht ((mem_descendants_iff hw ht).mp hx)
    rw [hl, if_neg (ne_nextId_of_contains hx)]
  · rw [List.filterMap_cons, hl, if_pos rfl]
    cases leaf? <;> rfl

theorem yieldBelow_addLeaf {n : ℕ} (hp : t.shape.Spine top p n) (hc : t.IsComposite p)
    (leaf : Leaf) (element : Option ElementId) (error : Option SyntaxError) :
    (t.addLeaf leaf element error p).yieldBelow top = t.yieldBelow top ++ [leaf] :=
  yieldBelow_push hw ht hp hc (shape_addLeaf hc ..) (size_addLeaf ..) leaf?_addLeaf

theorem yieldBelow_addComposite {n : ℕ} (hp : t.shape.Spine top p n) (hc : t.IsComposite p)
    (element : ElementId) (lookahead anchor : ℕ) :
    (t.addComposite element lookahead anchor p).yieldBelow top = t.yieldBelow top := by
  have hl (x : NodeId) : ((t.addComposite element lookahead anchor p).node x).leaf? =
      if x = t.nextId then none else (t.node x).leaf? := by
    rw [leaf?_addComposite]
    split_ifs with hx
    · rw [hx, node_of_not_contains t.not_contains_nextId]
      rfl
    · rfl
  have hyield := yieldBelow_push hw ht hp hc (shape_addComposite hc ..) (size_addComposite ..) hl
  exact hyield.trans (List.append_nil _)

/-- What was below the wrapped node is below the wrapper. -/
theorem yieldBelow_wrap (hi : t.Contains inner) (hc : (t.node inner).leaf? = none)
    (element : ElementId) :
    (t.wrap element inner).yieldBelow (if top = inner then t.nextId else top) =
      t.yieldBelow top := by
  have hout : (t.node t.nextId).leaf? = none := by
    rw [node_of_not_contains t.not_contains_nextId]
    rfl
  rw [yieldBelow, yieldBelow, descendants_wrap hw ht hi, List.filterMap_flatMap,
    List.filterMap_eq_flatMap_toList _ (t.descendants top)]
  apply List.flatMap_congr
  intro x _
  by_cases hx : x = inner
  · simp [hx, leaf?_wrap, hc, hout]
  · rw [if_neg hx, List.filterMap_cons, leaf?_wrap]
    cases (t.node x).leaf? <;> rfl

theorem yieldBelow_absorb (hm : t.Mergeable id child) (hne : child ≠ top) :
    (t.absorb id child).yieldBelow top = t.yieldBelow top := by
  rw [yieldBelow, yieldBelow, descendants_absorb hw ht hm hne, List.filterMap_filter]
  apply List.filterMap_congr
  intro x _
  rw [leaf?_absorb hw hm]
  by_cases hx : x = child
  · simp [hx, hm.leaf?]
  · simp [hx]

end Edit

end ParseTree.Tree
