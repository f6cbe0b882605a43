import ParseTree.Proofs.Session.Rooted

/-!
# The nodes in document order

The open composite of a balanced run lies on the right edge of the tree. So new nodes come last in
document order, a wrapper comes just before the composite that it wraps, and a composite that is
merged away is left out.

## Main results

* `descendants_createLeaf`, `descendants_newComposite`: a new node comes last
* `descendants_wrapCurrent`, `descendants_merge`: the order after an action, after a merge
* `leaves_createLeaf`, `leaves_newComposite`, `leaves_wrapCurrent`, `leaves_merge`: the leaves in
  this order
-/

namespace ParseTree

open Session

variable {σ γ : Type} {env : Setting σ γ} {s s' : Session σ γ} {d : ℕ}

theorem Similar.descendants (h : Similar s s') (hr : Rooted s d) :
    s'.tree.descendants Tree.root = s.tree.descendants Tree.root :=
  h.nodes.descendants hr.wellFormed hr.contains_root

theorem descendants_createLeaf (hr : Rooted s d) (t : Token) (i : ℕ) (element : Option ElementId)
    (feature : Option String) :
    (s.createLeaf env t i element feature).tree.descendants Tree.root =
      s.tree.descendants Tree.root ++ [s.tree.nextId] :=
  Tree.descendants_push hr.wellFormed hr.contains_root hr.spine hr.current.contains
    (shape_createLeaf env s t i element feature hr.toLinked) (size_createLeaf ..)

theorem descendants_newComposite (hr : Rooted s d) (element : ElementId) :
    (s.newComposite env element).tree.descendants Tree.root =
      s.tree.descendants Tree.root ++ [s.tree.nextId] :=
  Tree.descendants_push hr.wellFormed hr.contains_root hr.spine hr.current.contains
    (Tree.shape_addComposite hr.current ..) (Tree.size_addComposite ..)

theorem descendants_wrapCurrent (hr : Rooted s d) (action : ElementId) :
    (s.wrapCurrent action).tree.descendants Tree.root =
      (s.tree.descendants Tree.root).flatMap fun x =>
        if x = s.current then [s.tree.nextId, s.current] else [x] := by
  have hl := (sameButLookahead_wrapCurrent s action).toSameNodes
  have hr' := hr.wrapCurrent action
  have hwrap := Tree.descendants_wrap hr.wellFormed hr.contains_root hr.current.contains action
  rw [if_neg hr.current_ne_root.symm] at hwrap
  rw [hl.descendants (hl.shape ▸ hr'.wellFormed) ((hl.contains_iff _).mp hr'.contains_root), hwrap]

theorem descendants_merge {child : NodeId} (hr : Rooted s d) (hc : s.absorbed? env = some child) :
    (s.merge child).tree.descendants Tree.root =
      (s.tree.descendants Tree.root).filter fun x => x ≠ child := by
  have hm := mergeable_of_absorbed? hc
  have hl := (sameButLookahead_merge s child).toSameNodes
  have hw : (s.tree.absorb s.current child).shape.WellFormed := by
    rw [Tree.shape_absorb hr.wellFormed hm]
    exact hr.wellFormed.contract hm.children
  have hroot : (s.tree.absorb s.current child).Contains Tree.root := by
    rw [Tree.Contains, Tree.size_absorb]
    exact hr.contains_root
  rw [hl.descendants hw hroot,
    Tree.descendants_absorb hr.wellFormed hr.contains_root hm (hr.absorbed_ne_root hc)]

/-! ## Leaves -/

/-- What is written at the next identifier changes nothing about the nodes of a walk. -/
theorem Rooted.ne_nextId_of_mem {x : NodeId} (hr : Rooted s d)
    (hx : x ∈ s.tree.descendants Tree.root) : x ≠ s.tree.nextId :=
  hr.ne_nextId_of_below ((Tree.mem_descendants_iff hr.wellFormed hr.contains_root).mp hx)

theorem leaves_createLeaf (hr : Rooted s d) (t : Token) (i : ℕ) (element : Option ElementId)
    (feature : Option String) :
    (s.createLeaf env t i element feature).tree.leaves Tree.root =
      s.tree.leaves Tree.root ++ [s.tree.nextId] := by
  have hleaf := leaf?_createLeaf env s t i element feature
  rw [Tree.leaves, Tree.leaves, descendants_createLeaf hr, List.filter_append]
  refine congrArg₂ _ (List.filter_congr fun x hx => Tree.isLeaf_congr ?_) (List.filter_cons_of_pos ?_)
  · rw [hleaf, if_neg (hr.ne_nextId_of_mem hx)]
  · rw [Tree.isLeaf, hleaf, if_pos rfl]
    rfl

theorem leaves_newComposite (hr : Rooted s d) (element : ElementId) :
    (s.newComposite env element).tree.leaves Tree.root = s.tree.leaves Tree.root := by
  have hleaf (x : NodeId) : (s.newComposite env element).tree.isLeaf x = s.tree.isLeaf x :=
    Tree.isLeaf_congr (Tree.leaf?_addComposite x)
  have hnew : s.tree.isLeaf s.tree.nextId = false := by
    rw [Tree.isLeaf, Tree.node_of_not_contains s.tree.not_contains_nextId]
    rfl
  rw [Tree.leaves, Tree.leaves, descendants_newComposite hr, List.filter_append,
    List.filter_cons_of_neg (by rw [hleaf, hnew]; exact Bool.false_ne_true), List.filter_nil,
    List.append_nil]
  exact List.filter_congr fun x _ => hleaf x

theorem leaves_wrapCurrent (hr : Rooted s d) (action : ElementId) :
    (s.wrapCurrent action).tree.leaves Tree.root = s.tree.leaves Tree.root := by
  have hl := (sameButLookahead_wrapCurrent s action).toSameNodes
  have hr' := hr.wrapCurrent action
  rw [hl.leaves (hl.shape ▸ hr'.wellFormed) ((hl.contains_iff _).mp hr'.contains_root),
    Tree.leaves_wrap hr.wellFormed hr.contains_root hr.current]

theorem leaves_merge {child : NodeId} (hr : Rooted s d) (hc : s.absorbed? env = some child) :
    (s.merge child).tree.leaves Tree.root = s.tree.leaves Tree.root := by
  have hm := mergeable_of_absorbed? hc
  rw [Tree.leaves, Tree.leaves, descendants_merge hr hc, List.filter_filter]
  refine List.filter_congr fun x _ => ?_
  rw [Tree.isLeaf_congr (leaf?_merge hr.toLinked hm x)]
  by_cases hx : x = child
  · rw [hx, Tree.isLeaf, hm.leaf?]
    rfl
  · simp [hx]

end ParseTree
