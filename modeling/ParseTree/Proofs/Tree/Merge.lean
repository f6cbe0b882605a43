import ParseTree.Proofs.Tree.Content

/-!
# Merging a composite with its only child

Compression takes the only child of a composite out of the tree: what was below the child is below
the composite afterwards, and what the child said is said by the composite.

## Main definitions

* `Tree.takeOver`: the merge of two composites, up to the lookahead leaves of the upper one

## Main results

* `shape_absorb`: merging contracts the shape
* `semantic_absorb`, `mem_lookaheadLeaves_absorb`: what the nodes say afterwards
-/

namespace ParseTree

namespace Node

/-- The node without relatives and without anything to say. -/
def vacated (n : Node) : Node :=
  { n.mapComposite (fun c => { c with children := [], lookaheadLeaves := [] }) with
    parent := none, grammar := [], semantic := none }

/-- The node with what another one says. -/
def joined (c n : Node) : Node :=
  { n.mapComposite (fun k => { k with children := c.children }) with
    grammar := n.grammar ++ c.grammar, semantic := n.semantic.or c.semantic }

theorem children_vacated (n : Node) : n.vacated.children = [] := by
  rw [vacated, children, composite?]
  exact (children_mapComposite _ n).trans (by cases n.composite? <;> rfl)

theorem lookaheadLeaves_vacated (n : Node) : n.vacated.lookaheadLeaves = [] := by
  cases n with | mk parent kind _ _ _ => cases kind <;> rfl

theorem leaf?_vacated (n : Node) : n.vacated.leaf? = n.leaf? :=
  leaf?_mapComposite _ n

theorem error_vacated (n : Node) : n.vacated.error = n.error :=
  error_mapComposite _ n

theorem parent_joined (c n : Node) : (joined c n).parent = n.parent :=
  parent_mapComposite _ n

theorem joined_with_parent (c n : Node) (parent : Option NodeId) :
    joined c { n with parent } = { joined c n with parent } := by
  cases n with | mk _ kind _ _ _ => cases kind <;> rfl

theorem children_joined (c : Node) {n : Node} (h : n.leaf? = none) :
    (joined c n).children = c.children := by
  cases n with
  | mk parent kind _ _ _ =>
    cases kind with
    | composite => rfl
    | leaf => exact absurd h (by simp [leaf?])

theorem lookaheadLeaves_joined (c n : Node) : (joined c n).lookaheadLeaves = n.lookaheadLeaves := by
  refine lookaheadLeaves_mapComposite (f := fun k => { k with children := c.children }) ?_ n
  exact fun _ => rfl

theorem leaf?_joined (c n : Node) : (joined c n).leaf? = n.leaf? :=
  leaf?_mapComposite _ n

theorem error_joined (c n : Node) : (joined c n).error = n.error :=
  error_mapComposite _ n

theorem anchor_vacated (n : Node) : n.vacated.anchor = n.anchor :=
  anchor_mapComposite (f := fun c => { c with children := [], lookaheadLeaves := [] })
    (fun _ => rfl) n

theorem anchor_joined (c n : Node) : (joined c n).anchor = n.anchor :=
  anchor_mapComposite (f := fun k => { k with children := c.children }) (fun _ => rfl) n

end Node

namespace Tree

variable {t : Tree} {id child x y : NodeId}

/-- The nodes hang on another one. -/
def adopt (t : Tree) (id : NodeId) (children : List NodeId) : Tree :=
  children.foldl (fun t child => t.modify child fun n => { n with parent := some id }) t

/-- The merge of two composites, up to the lookahead leaves of the upper one. -/
def takeOver (t : Tree) (id child : NodeId) : Tree :=
  ((t.modify child Node.vacated).adopt id (t.children child)).modify id
    (.joined (t.node child))

theorem absorb_eq (t : Tree) (id child : NodeId) :
    t.absorb id child =
      (t.takeOver id child).addLookaheadLeaves ((t.lookaheadLeaves child).map (id, ·)) := by
  rw [addLookaheadLeaves_map_target]
  rfl

section Adopt

/-- Adopted nodes change in nothing but the node above. -/
theorem node_adopt (t : Tree) (id : NodeId) (l : List NodeId) (x : NodeId) :
    ∃ parent, (t.adopt id l).node x = { t.node x with parent } := by
  -- The same node may be adopted more than once, so the node above is the last one given.
  induction l generalizing t with
  | nil => exact ⟨(t.node x).parent, rfl⟩
  | cons c l ih =>
    obtain ⟨parent, hx⟩ := ih (t.modify c fun n => { n with parent := some id })
    refine ⟨parent, hx.trans ?_⟩
    rw [node_modify]
    split_ifs <;> rfl

theorem size_adopt (t : Tree) (id : NodeId) (l : List NodeId) : (t.adopt id l).size = t.size :=
  view_foldl (v := Tree.size) (fun _ _ => size_modify ..) l t

theorem parent?_adopt {l : List NodeId} (hl : ∀ c ∈ l, t.Contains c) (id x : NodeId) :
    (t.adopt id l).parent? x = if x ∈ l then some id else t.parent? x := by
  induction l generalizing t with
  | nil => simp [adopt]
  | cons c l ih =>
    have hl' : ∀ d ∈ l, (t.modify c fun n => { n with parent := some id }).Contains d := by
      intro d hd
      rw [Contains, size_modify]
      exact hl d (List.mem_cons_of_mem _ hd)
    rw [adopt, List.foldl_cons, ← adopt, ih hl']
    by_cases hx : x ∈ l
    · rw [if_pos hx, if_pos (List.mem_cons_of_mem _ hx)]
    · rw [if_neg hx, parent?, node_modify]
      by_cases hxc : x = c
      · rw [if_pos ⟨hxc, hl c List.mem_cons_self⟩, if_pos (hxc ▸ List.mem_cons_self)]
      · rw [if_neg fun h => hxc h.1, if_neg]
        · rfl
        · simp [hxc, hx]

end Adopt

/-- A composite and its only child can be merged. -/
structure Mergeable (t : Tree) (id child : NodeId) : Prop where
  /-- There is no other child. -/
  children : t.children id = [child]
  /-- The child is no leaf. -/
  leaf? : (t.node child).leaf? = none
  /-- No message gets lost. -/
  error : (t.node child).error = none
  /-- At most one element is bound to the two. -/
  semantic : ∀ outer inner, (t.node id).semantic = some outer →
    (t.node child).semantic = some inner → outer = inner

theorem mergeable_of_mergeableChild? (h : t.mergeableChild? id = some child) :
    t.Mergeable id child := by
  rw [mergeableChild?] at h
  split at h
  case h_2 => exact absurd h (by simp)
  next only hl =>
    simp only [Bool.or_eq_true, Option.isNone_iff_eq_none] at h
    split_ifs at h with he
    rw [not_or, ← ne_eq, ← Option.isSome_iff_ne_none, Node.composite?_isSome_iff] at he
    obtain ⟨hk, he⟩ := he
    have herr : (t.node only).error = none := by simpa using he
    split at h
    next outer inner ho hi =>
      split_ifs at h with heq
      obtain rfl := Option.some.inj h
      refine ⟨hl, hk, herr, ?_⟩
      intro o i ho' hi'
      rw [Option.some.inj (ho'.symm.trans ho), Option.some.inj (hi'.symm.trans hi), heq]
    next hnone =>
      obtain rfl := Option.some.inj h
      exact ⟨hl, hk, herr, fun o i ho hi => absurd hi (hnone o i ho)⟩

section Absorb

variable (hw : t.shape.WellFormed) (hm : t.Mergeable id child)

include hw hm

theorem Mergeable.parent? : t.parent? child = some id :=
  hw.parent?_of_mem (by simp [hm.children])

theorem Mergeable.ne : child ≠ id :=
  hw.ne_of_parent? (hm.parent? hw)

theorem Mergeable.contains : t.Contains child :=
  contains_of_parent? (hm.parent? hw)

theorem Mergeable.contains_id : t.Contains id :=
  contains_of_mem_children (hw.mem_of_parent? (hm.parent? hw))

theorem Mergeable.leaf?_id : (t.node id).leaf? = none :=
  (isComposite_of_mem_children (hw.mem_of_parent? (hm.parent? hw))).leaf?

/-- What a view of nodes shows after a merge, unless it shows the node above. -/
theorem view_takeOver {α : Type} {v : Node → α}
    (hv : ∀ (n : Node) parent, v { n with parent } = v n) (x : NodeId) :
    v ((t.takeOver id child).node x) =
      if x = id then v ((t.node child).joined (t.node id))
      else if x = child then v (t.node child).vacated
      else v (t.node x) := by
  have hne := hm.ne hw
  obtain ⟨parent, hx⟩ := node_adopt (t.modify child .vacated) id (t.children child) x
  rw [takeOver, node_modify, hx, node_modify]
  have hc : ((t.modify child .vacated).adopt id (t.children child)).Contains id := by
    rw [Contains, size_adopt, size_modify]
    exact hm.contains_id hw
  by_cases hxi : x = id
  · rw [if_pos ⟨hxi, hc⟩, if_pos hxi, if_neg fun h => hne (h.1.symm.trans hxi), hxi,
      Node.joined_with_parent, hv]
  · rw [if_neg fun h => hxi h.1, if_neg hxi, hv]
    by_cases hxc : x = child
    · rw [if_pos ⟨hxc, hm.contains hw⟩, if_pos hxc, hxc]
    · rw [if_neg fun h => hxc h.1, if_neg hxc]

theorem parent?_takeOver (x : NodeId) :
    (t.takeOver id child).parent? x = (t.shape.contract id child).parent? x := by
  have hcc := hm.contains hw
  have hself : child ∉ t.children child := fun h => hw.ne_of_parent? (hw.parent?_of_mem h) rfl
  have hl : ∀ c ∈ t.children child, (t.modify child .vacated).Contains c := by
    intro c hc
    rw [Contains, size_modify]
    exact contains_of_parent? (hw.parent?_of_mem hc)
  have hj := view_modify (v := Node.parent) (Node.parent_joined (t.node child))
    ((t.modify child .vacated).adopt id (t.children child)) id x
  rw [parent?, takeOver, hj, ← parent?, parent?_adopt hl, Shape.parent?_contract, parent?,
    node_modify, children_shape]
  by_cases hxc : x = child
  · rw [if_pos hxc, if_neg (hxc ▸ hself), if_pos ⟨hxc, hcc⟩]
    rfl
  · rw [if_neg hxc, if_neg (c := x = child ∧ _) fun h => hxc h.1]
    rfl

theorem shape_absorb : (t.absorb id child).shape = t.shape.contract id child := by
  rw [absorb_eq, (sameButLookahead_addLookaheadLeaves _ _).shape]
  refine shape_eq (parent?_takeOver hw hm) fun x => ?_
  rw [Tree.children, view_takeOver hw hm (v := Node.children) fun _ _ => rfl,
    Shape.children_contract, Node.children_joined _ (hm.leaf?_id hw), Node.children_vacated]
  rfl

theorem leaf?_absorb (x : NodeId) :
    ((t.absorb id child).node x).leaf? = (t.node x).leaf? := by
  rw [absorb_eq, (sameButLookahead_addLookaheadLeaves _ _).leaf?,
    view_takeOver hw hm (v := Node.leaf?) fun _ _ => rfl, Node.leaf?_joined, Node.leaf?_vacated]
  split_ifs with h₁ h₂
  · rw [h₁]
  · rw [h₂]
  · rfl

theorem error_absorb (x : NodeId) :
    ((t.absorb id child).node x).error = (t.node x).error := by
  rw [absorb_eq, (sameButLookahead_addLookaheadLeaves _ _).error,
    view_takeOver hw hm (v := Node.error) fun _ _ => rfl, Node.error_joined, Node.error_vacated]
  split_ifs with h₁ h₂
  · rw [h₁]
  · rw [h₂]
  · rfl

theorem anchor_absorb (x : NodeId) :
    ((t.absorb id child).node x).anchor = (t.node x).anchor := by
  rw [absorb_eq, (sameButLookahead_addLookaheadLeaves _ _).anchor,
    view_takeOver hw hm (v := Node.anchor) fun _ _ => rfl, Node.anchor_joined, Node.anchor_vacated]
  split_ifs with h₁ h₂
  · rw [h₁]
  · rw [h₂]
  · rfl

/-- The composite keeps its element and else gets that of the child, which has none afterwards. -/
theorem semantic_absorb (x : NodeId) :
    ((t.absorb id child).node x).semantic =
      if x = id then (t.node id).semantic.or (t.node child).semantic
      else if x = child then none
      else (t.node x).semantic := by
  rw [absorb_eq, (sameButLookahead_addLookaheadLeaves _ _).semantic,
    view_takeOver hw hm (v := Node.semantic) fun _ _ => rfl]
  rfl

/-- The composite represents what the child did, too. -/
theorem grammar_absorb (x : NodeId) :
    ((t.absorb id child).node x).grammar =
      if x = id then (t.node id).grammar ++ (t.node child).grammar
      else if x = child then []
      else (t.node x).grammar := by
  rw [absorb_eq, (sameButLookahead_addLookaheadLeaves _ _).grammar,
    view_takeOver hw hm (v := Node.grammar) fun _ _ => rfl]
  rfl

theorem isComposite_takeOver_id : (t.takeOver id child).IsComposite id := by
  constructor
  · rw [takeOver, Contains, size_modify, size_adopt, size_modify]
    exact hm.contains_id hw
  · rw [view_takeOver hw hm (v := Node.leaf?) fun _ _ => rfl, if_pos rfl, Node.leaf?_joined]
    exact hm.leaf?_id hw

theorem lookaheadLeaves_takeOver (x : NodeId) :
    (t.takeOver id child).lookaheadLeaves x = if x = child then [] else t.lookaheadLeaves x := by
  rw [lookaheadLeaves, ← Node.lookaheadLeaves,
    view_takeOver hw hm (v := Node.lookaheadLeaves) fun _ _ => rfl,
    Node.lookaheadLeaves_joined, Node.lookaheadLeaves_vacated]
  by_cases hxi : x = id
  · rw [if_pos hxi, if_neg (hxi ▸ (hm.ne hw).symm), hxi]
    rfl
  · rw [if_neg hxi]
    rfl

theorem mem_lookaheadLeaves_absorb :
    y ∈ (t.absorb id child).lookaheadLeaves x ↔
      x ≠ child ∧ y ∈ t.lookaheadLeaves x ∨ x = id ∧ y ∈ t.lookaheadLeaves child := by
  rw [absorb_eq, mem_lookaheadLeaves_addLookaheadLeaves, lookaheadLeaves_takeOver hw hm]
  · by_cases hx : x = child <;> simp [hx, eq_comm, and_comm]
  · exact (isComposite_takeOver_id hw hm).of_mem_map_target

theorem nodupLookahead_absorb (h : t.NodupLookahead) : (t.absorb id child).NodupLookahead := by
  rw [absorb_eq]
  refine NodupLookahead.addLookaheadLeaves ?_ ?_
  · intro x
    rw [lookaheadLeaves_takeOver hw hm]
    split_ifs
    · exact List.nodup_nil
    · exact h x
  · exact (isComposite_takeOver_id hw hm).of_mem_map_target

omit hw hm in
theorem size_absorb (t : Tree) (id child : NodeId) : (t.absorb id child).size = t.size := by
  rw [absorb_eq, (sameButLookahead_addLookaheadLeaves _ _).size, takeOver, size_modify, size_adopt,
    size_modify]

end Absorb

end Tree

end ParseTree
