import ParseTree.Proofs.Tree.Yield

/-!
# A composite in the place of another

A wrapper takes the place of a composite: its place among the children of the node above, its
lookahead and its anchor. What it is in the end is said node by node, for all that a node holds.

## Main definitions

* `Tree.Interposed`: a bound wrapper stands in the place of a composite

## Main results

* `node_wrap_eq`, `node_moveLookaheadLeaves`: the nodes after a composite was wrapped, after its
  lookahead leaves went to another
* `interposed_of_bind?`: wrapping a composite, moving its lookahead leaves and binding the wrapper
-/

namespace ParseTree

theorem Node.mapComposite_mapComposite (f g : Composite → Composite) (n : Node) :
    (n.mapComposite f).mapComposite g = n.mapComposite fun c => g (f c) := by
  obtain ⟨parent, kind, grammar, semantic, error⟩ := n
  cases kind <;> rfl

theorem Node.mapComposite_with_parent (f : Composite → Composite) (n : Node) (p : Option NodeId) :
    { n with parent := p }.mapComposite f = { n.mapComposite f with parent := p } := by
  obtain ⟨parent, kind, grammar, semantic, error⟩ := n
  cases kind <;> rfl

theorem Node.mapComposite_id (n : Node) : (n.mapComposite fun c => c) = n := by
  obtain ⟨parent, kind, grammar, semantic, error⟩ := n
  cases kind <;> rfl

theorem Node.mapComposite_of_composite? {n : Node} {c : Composite} (h : n.composite? = some c)
    (f : Composite → Composite) : n.mapComposite f = { n with kind := .composite (f c) } := by
  obtain ⟨parent, kind, grammar, semantic, error⟩ := n
  cases kind with
  | leaf l => cases h
  | composite c' =>
    obtain rfl := Option.some.inj h
    rfl

/-- Items that are adjoined one by one come after the others, if none is there already. -/
theorem Attribution.foldl_adjoin_eq_append {ids leaves : List NodeId} (h : (ids ++ leaves).Nodup) :
    leaves.foldl (fun ids leaf => adjoin leaf ids) ids = ids ++ leaves := by
  induction leaves generalizing ids with
  | nil => exact (List.append_nil ids).symm
  | cons leaf leaves ih =>
    have hleaf : leaf ∉ ids := by
      intro hmem
      exact (List.disjoint_of_nodup_append h) hmem List.mem_cons_self
    rw [List.append_cons] at h ⊢
    rw [List.foldl_cons, adjoin, if_neg hleaf, ih h]

namespace Tree

variable {t t' : Tree} {inner source target : NodeId} {action : ElementId} {element : SemanticId}

/-- The wrapper, the node that it wraps and the node above change, no other does. -/
theorem node_wrap_eq (hw : t.shape.WellFormed) (hi : t.Contains inner) (action : ElementId)
    (x : NodeId) : (t.wrap action inner).node x =
      if x = t.nextId then
        ⟨t.parent? inner, .composite ⟨[inner], (t.node inner).composite?.elim 0 (·.lookahead), [],
          (t.node inner).composite?.elim 0 (·.anchor)⟩, [action], none, none⟩
      else if x = inner then { t.node inner with parent := some t.nextId }
      else if t.parent? inner = some x then (t.node x).mapComposite fun c =>
        { c with children := c.children.map fun child => if child = inner then t.nextId else child }
      else t.node x := by
  have hin := ne_nextId_of_contains hi
  rw [wrap]
  dsimp only
  generalize hn : (⟨t.parent? inner, .composite ⟨[inner], _, [], _⟩, [action], none, none⟩ : Node) =
    n
  have hpush {y : NodeId} (hy : t.Contains y) : (t.push n).Contains y := by
    rw [Contains, size_push]
    exact Nat.lt_succ_of_lt hy
  cases hp : t.parent? inner with
  | none =>
    rw [node_modify]
    dsimp only
    rw [node_push]
    by_cases hx : x = inner
    · rw [if_pos ⟨hx, hpush hi⟩, hx, if_neg hin, if_neg hin, if_pos rfl]
    · rw [if_neg fun h => hx h.1, if_neg hx, if_neg (Option.some_ne_none x).symm]
  | some p =>
    have hpc : t.Contains p := contains_of_mem_children (hw.mem_of_parent? hp)
    have hpn := ne_nextId_of_contains hpc
    have hpi : inner ≠ p := hw.ne_of_parent? hp
    rw [node_modify, node_modify, node_push]
    by_cases hx : x = inner
    · have hc : ((t.push n).modify p (.mapComposite fun c =>
          { c with children := c.children.map fun child =>
            if child = inner then t.nextId else child })).Contains inner := by
        rw [Contains, size_modify]
        exact hpush hi
      rw [if_pos ⟨hx, hc⟩, if_neg fun h => hpi (hx ▸ h.1), hx, if_neg hin, if_neg hin, if_pos rfl]
    · rw [if_neg fun h => hx h.1, if_neg hx]
      by_cases hxp : x = p
      · rw [if_pos ⟨hxp, hpush hpc⟩, hxp, if_neg hpn, if_neg hpn, if_pos rfl]
      · rw [if_neg fun h => hxp h.1, if_neg fun h => hxp (Option.some.inj h).symm]

theorem node_addLookaheadLeaf (hc : t.Contains target) (leaf x : NodeId) :
    (t.addLookaheadLeaf target leaf).node x =
      if x = target then (t.node target).mapComposite fun c =>
        { c with lookaheadLeaves := Attribution.adjoin leaf c.lookaheadLeaves }
      else t.node x := by
  have hadd : (fun c : Composite => if leaf ∈ c.lookaheadLeaves then c
      else { c with lookaheadLeaves := c.lookaheadLeaves ++ [leaf] }) =
      fun c => { c with lookaheadLeaves := Attribution.adjoin leaf c.lookaheadLeaves } := by
    funext c
    rw [Attribution.adjoin]
    split_ifs <;> rfl
  rw [addLookaheadLeaf, hadd, node_modify]
  by_cases hx : x = target
  · rw [if_pos ⟨hx, hc⟩, if_pos hx, hx]
  · rw [if_neg fun h => hx h.1, if_neg hx]

/-- A composite that is given leaves one by one adjoins them to those that it has. -/
theorem node_foldl_addLookaheadLeaf (hc : t.Contains target) (leaves : List NodeId) (x : NodeId) :
    (leaves.foldl (fun t leaf => t.addLookaheadLeaf target leaf) t).node x =
      if x = target then (t.node target).mapComposite fun c =>
        { c with lookaheadLeaves :=
          leaves.foldl (fun ids leaf => Attribution.adjoin leaf ids) c.lookaheadLeaves }
      else t.node x := by
  induction leaves generalizing t with
  | nil =>
    rw [List.foldl_nil]
    split_ifs with hx
    · rw [hx]
      exact (Node.mapComposite_id _).symm
    · rfl
  | cons leaf leaves ih =>
    have hc' : (t.addLookaheadLeaf target leaf).Contains target := by
      rwa [Contains, size_addLookaheadLeaf]
    rw [List.foldl_cons, ih hc', node_addLookaheadLeaf hc, node_addLookaheadLeaf hc, if_pos rfl,
      Node.mapComposite_mapComposite]
    split_ifs <;> rfl

/-- One composite gives up its lookahead leaves, another has them instead. -/
theorem node_moveLookaheadLeaves (hs : t.Contains source) (hc : t.IsComposite target)
    (hne : source ≠ target) (hn : (t.lookaheadLeaves source).Nodup)
    (hnil : t.lookaheadLeaves target = []) (x : NodeId) :
    (t.moveLookaheadLeaves source target).node x =
      if x = target then
        (t.node target).mapComposite fun c => { c with lookaheadLeaves := t.lookaheadLeaves source }
      else if x = source then
        (t.node source).mapComposite fun c => { c with lookaheadLeaves := [] }
      else t.node x := by
  have hc' : (t.clearLookahead source).Contains target := by
    rw [clearLookahead, Contains, size_modify]
    exact hc.contains
  have hclear (y : NodeId) : (t.clearLookahead source).node y =
      if y = source then (t.node source).mapComposite fun c => { c with lookaheadLeaves := [] }
      else t.node y := by
    rw [clearLookahead, node_modify]
    by_cases hy : y = source
    · rw [if_pos ⟨hy, hs⟩, if_pos hy, hy]
    · rw [if_neg fun h => hy h.1, if_neg hy]
  rw [moveLookaheadLeaves, ← clearLookahead, node_foldl_addLookaheadLeaf hc', hclear, hclear,
    if_neg hne.symm]
  split_ifs with hx
  · obtain ⟨c, hk⟩ := Option.isSome_iff_exists.mp ((Node.composite?_isSome_iff _).mpr hc.leaf?)
    rw [lookaheadLeaves, hk] at hnil
    have hempty : c.lookaheadLeaves = [] := hnil
    rw [Node.mapComposite_of_composite? hk, Node.mapComposite_of_composite? hk, hempty,
      Attribution.foldl_adjoin_eq_append hn]
    rfl
  · rfl
  · rfl

/-- A wrapper that is bound to an element stands in the place of a composite, with all the lookahead
that the composite had. Nothing else changed. -/
structure Interposed (t t' : Tree) (id : NodeId) (action : ElementId) (element : SemanticId) :
    Prop where
  /-- There is one node more. -/
  size : t'.size = t.size + 1
  /-- It is below the node that the composite was below, has the composite as its only child, and
  has its lookahead and its anchor. -/
  wrapper : ∃ c, (t.node id).composite? = some c ∧ t'.node t.nextId =
    ⟨t.parent? id, .composite { c with children := [id] }, [action], some element, none⟩
  /-- The composite is below it and has no lookahead leaves left. -/
  wrapped : t'.node id =
    { (t.node id).mapComposite fun c => { c with lookaheadLeaves := [] } with
      parent := some t.nextId }
  /-- The node above has the wrapper in the place of the composite. -/
  above : ∀ p, t.parent? id = some p → ∃ left right, t.children p = left ++ id :: right ∧
    id ∉ left ++ right ∧ t'.node p =
      (t.node p).mapComposite fun c => { c with children := left ++ t.nextId :: right }
  /-- Other nodes are as they were. -/
  others : ∀ x, x ≠ t.nextId → x ≠ id → t.parent? id ≠ some x → t'.node x = t.node x
  /-- Below every node there are the same leaves in the same order. -/
  leaves : ∀ x, t.Contains x → t'.leaves x = t.leaves x

/-- The node in whose place another stands is split off from the nodes beside it. -/
theorem exists_split (hw : t.shape.WellFormed) {p : NodeId} (hp : t.parent? inner = some p)
    (outer : NodeId) : ∃ left right, t.children p = left ++ inner :: right ∧
      inner ∉ left ++ right ∧
      ((t.children p).map fun child => if child = inner then outer else child) =
        left ++ outer :: right := by
  obtain ⟨left, right, hsplit⟩ := List.append_of_mem (hw.mem_of_parent? hp)
  have hnodup := hw.nodup p
  rw [children_shape] at hsplit hnodup
  rw [hsplit, List.nodup_middle, List.nodup_cons] at hnodup
  have hleft : inner ∉ left := fun h => hnodup.1 (List.mem_append_left right h)
  have hright : inner ∉ right := fun h => hnodup.1 (List.mem_append_right left h)
  refine ⟨left, right, hsplit, hnodup.1, ?_⟩
  rw [hsplit, List.map_append, List.map_cons, if_pos rfl,
    Shape.map_replace_of_not_mem hleft, Shape.map_replace_of_not_mem hright]

/-- Wrapping a composite, moving its lookahead leaves and binding the wrapper. -/
theorem interposed_of_bind? (hw : t.shape.WellFormed) (hi : t.IsComposite inner)
    (hn : (t.lookaheadLeaves inner).Nodup)
    (h : ((t.wrap action inner).moveLookaheadLeaves inner t.nextId).bind? t.nextId element =
      some t') : t.Interposed t' inner action element := by
  have hin := ne_nextId_of_contains hi.contains
  have hwrapper : (t.wrap action inner).IsComposite t.nextId := isComposite_wrap_nextId
  have hnil : (t.wrap action inner).lookaheadLeaves t.nextId = [] := by
    rw [lookaheadLeaves_wrap, lookaheadLeaves, node_of_not_contains t.not_contains_nextId]
    rfl
  have hmove := node_moveLookaheadLeaves hi.wrap.contains hwrapper hin
    ((lookaheadLeaves_wrap inner).symm ▸ hn) hnil
  have hsame := sameButLookahead_moveLookaheadLeaves (t.wrap action inner) inner t.nextId
  have hnodes := hsame.toSameNodes.trans (sameNodes_bind? h)
  have hbound (x : NodeId) : t'.node x = if x = t.nextId then
      { ((t.wrap action inner).moveLookaheadLeaves inner t.nextId).node t.nextId with
        semantic := some element }
      else ((t.wrap action inner).moveLookaheadLeaves inner t.nextId).node x := by
    rcases bind?_eq_some h with rfl | ⟨-, hs⟩
    · rw [node_modify]
      by_cases hx : x = t.nextId
      · rw [if_pos ⟨hx, (hsame.contains_iff _).mpr hwrapper.contains⟩, if_pos hx, hx]
      · rw [if_neg fun h => hx h.1, if_neg hx]
    · rw [hsame.semantic, semantic_wrap, node_of_not_contains t.not_contains_nextId] at hs
      cases hs
  obtain ⟨c, hk⟩ := Option.isSome_iff_exists.mp ((Node.composite?_isSome_iff _).mpr hi.leaf?)
  have hleaves : (t.wrap action inner).lookaheadLeaves inner = c.lookaheadLeaves := by
    rw [lookaheadLeaves_wrap, lookaheadLeaves, hk]
    rfl
  constructor
  case size => exact hnodes.size.trans (size_wrap ..)
  case wrapper =>
    refine ⟨c, hk, ?_⟩
    rw [hbound, if_pos rfl, hmove, if_pos rfl, node_wrap_eq hw hi.contains, if_pos rfl, hleaves, hk]
    rfl
  case wrapped =>
    rw [hbound, if_neg hin, hmove, if_neg hin, if_pos rfl, node_wrap_eq hw hi.contains, if_neg hin,
      if_pos rfl]
    exact Node.mapComposite_with_parent ..
  case above =>
    intro p hp
    have hpn : p ≠ t.nextId :=
      ne_nextId_of_contains (contains_of_mem_children (hw.mem_of_parent? hp))
    have hpi := (hw.ne_of_parent? hp).symm
    obtain ⟨left, right, hsplit, hnot, hmap⟩ := exists_split hw hp t.nextId
    obtain ⟨k, hkp⟩ := Option.isSome_iff_exists.mp ((Node.composite?_isSome_iff _).mpr
      (isComposite_of_mem_children (hw.mem_of_parent? hp)).leaf?)
    have hchildren : t.children p = k.children := by
      rw [children, Node.children, hkp]
      rfl
    refine ⟨left, right, hsplit, hnot, ?_⟩
    rw [hbound, if_neg hpn, hmove, if_neg hpn, if_neg hpi, node_wrap_eq hw hi.contains, if_neg hpn,
      if_neg hpi, if_pos hp, Node.mapComposite_of_composite? hkp,
      Node.mapComposite_of_composite? hkp, ← hchildren, hmap]
  case others =>
    intro x hx hxi hxp
    rw [hbound, if_neg hx, hmove, if_neg hx, if_neg hxi, node_wrap_eq hw hi.contains, if_neg hx,
      if_neg hxi, if_neg hxp]
  case leaves =>
    intro x hx
    have hw' : (t.wrap action inner).shape.WellFormed := by
      rw [shape_wrap hw hi.contains]
      exact hw.interpose t.isolated_nextId hin
    have hx' : (t.wrap action inner).Contains x := by
      rw [Contains, size_wrap]
      exact Nat.lt_succ_of_lt hx
    rw [hnodes.leaves hw' hx', leaves_wrap hw hx hi]

end Tree

end ParseTree
