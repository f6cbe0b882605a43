import ParseTree.Proofs.Tree.Shape
import ParseTree.Tree.Attribution

/-!
# What an edit of a tree changes

Every edit is described by what it does to the parts of a tree that others look at: the shape, the
token, error and element of each node, and the lookahead leaves. The edits treated here add a last
child or insert a node above another.

## Main definitions

* `Tree.shape`: the links of a tree
* `Tree.IsComposite`: a node of the tree that is no leaf

## Main results

* `shape_addComposite`, `shape_addLeaf`, `shape_wrap`: the edits as changes of shape
* `leaf?_…`, `error_…`, `semantic_…`, `lookaheadLeaves_…`: what a node says after an edit
-/

namespace ParseTree

namespace Node

theorem composite?_isSome_iff (n : Node) : n.composite?.isSome ↔ n.leaf? = none := by
  unfold composite? leaf?
  cases n.kind <;> simp

theorem children_mapComposite (f : Composite → Composite) (n : Node) :
    (n.mapComposite f).children = (n.composite?.map f).elim [] (·.children) := by
  rw [children, composite?_mapComposite]

/-- Changing a composite in anything but its children keeps the children. -/
theorem children_mapComposite_of_eq {f : Composite → Composite}
    (hf : ∀ c, (f c).children = c.children) (n : Node) :
    (n.mapComposite f).children = n.children := by
  rw [children_mapComposite, children]
  cases n.composite? <;> simp [hf]

/-- The leaves that the node was decided on. -/
def lookaheadLeaves (n : Node) : List NodeId :=
  n.composite?.elim [] (·.lookaheadLeaves)

/-- Changing a composite in anything but its lookahead leaves keeps those. -/
theorem lookaheadLeaves_mapComposite {f : Composite → Composite}
    (hf : ∀ c, (f c).lookaheadLeaves = c.lookaheadLeaves) (n : Node) :
    (n.mapComposite f).lookaheadLeaves = n.lookaheadLeaves := by
  rw [lookaheadLeaves, composite?_mapComposite, lookaheadLeaves]
  cases n.composite? <;> simp [hf]

/-- The position of the node while it has no leaves. -/
def anchor (n : Node) : ℕ :=
  n.composite?.elim 0 (·.anchor)

/-- Changing a composite in anything but its anchor keeps the anchor. -/
theorem anchor_mapComposite {f : Composite → Composite} (hf : ∀ c, (f c).anchor = c.anchor)
    (n : Node) : (n.mapComposite f).anchor = n.anchor := by
  rw [anchor, composite?_mapComposite, anchor]
  cases n.composite? <;> simp [hf]

theorem grammar_mapComposite (f : Composite → Composite) (n : Node) :
    (n.mapComposite f).grammar = n.grammar := by
  unfold mapComposite
  split <;> rfl

theorem leaf?_eq_none_of_children_ne_nil {n : Node} (h : n.children ≠ []) : n.leaf? = none := by
  rw [← composite?_isSome_iff, Option.isSome_iff_ne_none]
  intro hn
  rw [children, hn] at h
  exact h rfl

end Node

namespace Tree

variable {t : Tree} {id x p child inner : NodeId} {n : Node} {f : Node → Node}

/-- The links of a tree. -/
def shape (t : Tree) : Shape :=
  ⟨t.parent?, t.children⟩

/-- The identifier belongs to a node of the tree that is no leaf. -/
structure IsComposite (t : Tree) (id : NodeId) : Prop where
  /-- The tree has the node. -/
  contains : t.Contains id
  /-- It stands for no token. -/
  leaf? : (t.node id).leaf? = none

@[simp] theorem parent?_shape (t : Tree) : t.shape.parent? = t.parent? := rfl

@[simp] theorem children_shape (t : Tree) : t.shape.children = t.children := rfl

theorem shape_eq {t' : Tree} {s : Shape} (hp : ∀ x, t'.parent? x = s.parent? x)
    (hc : ∀ x, t'.children x = s.children x) : t'.shape = s := by
  cases s
  rw [shape, Shape.mk.injEq]
  exact ⟨funext hp, funext hc⟩

/-! ## Nodes after a change of one node -/

theorem node_of_not_contains (h : ¬ t.Contains id) : t.node id = .detached := by
  simp only [Contains, size] at h
  rw [node, Array.getElem?_eq_none (Nat.le_of_not_lt h)]
  rfl

theorem not_contains_nextId (t : Tree) : ¬ t.Contains t.nextId :=
  Nat.lt_irrefl _

theorem ne_nextId_of_contains (h : t.Contains id) : id ≠ t.nextId := by
  rintro rfl
  exact t.not_contains_nextId h

/-- Any node of a tree with one more node is the new one or was there before. -/
theorem contains_of_lt_succ (h : id.index < t.size + 1) (hne : id ≠ t.nextId) : t.Contains id := by
  refine (Nat.lt_succ_iff_lt_or_eq.mp h).resolve_right fun e => hne ?_
  cases id
  simp_all [nextId]

theorem isolated_of_not_contains (h : ¬ t.Contains id) : t.shape.Isolated id := by
  constructor
  · simp [parent?, node_of_not_contains h, Node.detached]
  · simp [Tree.children, node_of_not_contains h, Node.detached, Node.children, Node.composite?]

theorem isolated_nextId (t : Tree) : t.shape.Isolated t.nextId :=
  isolated_of_not_contains t.not_contains_nextId

theorem node_empty (x : NodeId) : empty.node x = .detached := by
  by_cases hx : x = root
  · rw [hx]
    rfl
  · refine node_of_not_contains fun hc => hx ?_
    cases x
    exact congrArg NodeId.mk (Nat.lt_one_iff.mp hc)

theorem isolated_empty (x : NodeId) : empty.shape.Isolated x := by
  constructor
  · rw [parent?_shape, parent?, node_empty]
    rfl
  · rw [children_shape, children, node_empty]
    rfl

theorem contains_of_parent? (h : t.parent? id = some p) : t.Contains id := by
  by_contra hc
  exact absurd ((isolated_of_not_contains hc).parent.symm.trans h) (by simp)

theorem contains_of_mem_children (h : child ∈ t.children id) : t.Contains id := by
  by_contra hc
  have := (isolated_of_not_contains hc).children
  rw [children_shape] at this
  rw [this] at h
  exact absurd h List.not_mem_nil

theorem isComposite_of_mem_children (h : child ∈ t.children id) : t.IsComposite id :=
  ⟨contains_of_mem_children h, Node.leaf?_eq_none_of_children_ne_nil (List.ne_nil_of_mem h)⟩

theorem node_modify (t : Tree) (id x : NodeId) (f : Node → Node) :
    (t.modify id f).node x = if x = id ∧ t.Contains id then f (t.node x) else t.node x := by
  by_cases hx : x = id
  · subst hx
    by_cases hc : t.Contains x
    · rw [node_modify_self hc, if_pos ⟨rfl, hc⟩]
    · rw [if_neg fun h => hc h.2, node_of_not_contains hc, node_of_not_contains]
      rwa [Contains, size_modify]
  · rw [node_modify_of_ne hx, if_neg fun h => hx h.1]

/-- A change that a view of nodes does not notice is noticed at no node. -/
theorem view_modify {α : Type} {v : Node → α} (hv : ∀ n, v (f n) = v n) (t : Tree)
    (id x : NodeId) : v ((t.modify id f).node x) = v (t.node x) := by
  rw [node_modify]
  split_ifs
  · exact hv _
  · rfl

theorem node_push (t : Tree) (n : Node) (x : NodeId) :
    (t.push n).node x = if x = t.nextId then n else t.node x := by
  split_ifs with hx
  · rw [hx, node_push_nextId]
  · by_cases hc : t.Contains x
    · exact node_push_of_lt hc n
    · rw [node_of_not_contains hc, node_of_not_contains]
      rw [Contains, size_push]
      intro h
      exact hc (contains_of_lt_succ h hx)

theorem shape_modify (hp : ∀ n, (f n).parent = n.parent) (hc : ∀ n, (f n).children = n.children)
    (t : Tree) (id : NodeId) : (t.modify id f).shape = t.shape :=
  shape_eq (view_modify hp t id) (view_modify hc t id)

/-- What each step of a loop keeps, the loop keeps. -/
theorem view_foldl {α β : Type} {v : Tree → α} {g : Tree → β → Tree} (hg : ∀ t b, v (g t b) = v t)
    (l : List β) (t : Tree) : v (l.foldl g t) = v t := by
  induction l generalizing t with
  | nil => rfl
  | cons b l ih => rw [List.foldl_cons, ih, hg]

/-! ## A new last child -/

section AppendChild

variable {c : Composite} {leaf : Leaf} {element : ElementId} {lookahead anchor : Nat}
  {element? : Option ElementId} {error : Option SyntaxError}

theorem node_push_appendChild (hp : t.Contains p) (n : Node) (x : NodeId) :
    ((t.push n).appendChild p t.nextId).node x =
      if x = t.nextId then n
      else if x = p then
        (t.node p).mapComposite fun c => { c with children := c.children ++ [t.nextId] }
      else t.node x := by
  have hpn := ne_nextId_of_contains hp
  have hp' : (t.push n).Contains p := by
    rw [Contains, size_push]
    exact Nat.lt_succ_of_lt hp
  rw [appendChild, node_modify, node_push]
  by_cases hx : x = t.nextId
  · rw [if_neg fun h => hpn (h.1.symm.trans hx), if_pos hx, if_pos hx]
  · by_cases hxp : x = p
    · rw [if_pos ⟨hxp, hp'⟩, if_neg hx, if_neg hx, if_pos hxp, hxp]
    · rw [if_neg fun h => hxp h.1, if_neg hx, if_neg hx, if_neg hxp]

/-- A view that does not see children sees only that there is one more node. -/
theorem view_push_appendChild {α : Type} {v : Node → α}
    (hv : ∀ n, v (n.mapComposite fun c => { c with children := c.children ++ [t.nextId] }) = v n)
    (n : Node) (p x : NodeId) :
    v (((t.push n).appendChild p t.nextId).node x) =
      if x = t.nextId then v n else v (t.node x) := by
  rw [appendChild, view_modify hv, node_push, apply_ite v]

/-- A view that takes the new node for none at all sees nothing. -/
theorem view_push_appendChild_of_eq {α : Type} {v : Node → α}
    (hv : ∀ n, v (n.mapComposite fun c => { c with children := c.children ++ [t.nextId] }) = v n)
    (hn : v n = v .detached) (p x : NodeId) :
    v (((t.push n).appendChild p t.nextId).node x) = v (t.node x) := by
  rw [view_push_appendChild hv]
  split_ifs with hx
  · rw [hx, node_of_not_contains t.not_contains_nextId, hn]
  · rfl

theorem shape_push_appendChild (hp : t.IsComposite p) (hn : n.parent = some p)
    (hc : n.children = []) :
    ((t.push n).appendChild p t.nextId).shape = t.shape.append p t.nextId := by
  refine shape_eq ?_ ?_
  · intro x
    rw [Shape.parent?_append, parent?, node_push_appendChild hp.contains]
    split_ifs with h₁ h₂
    · exact hn
    · rw [Node.parent_mapComposite, h₂]
      rfl
    · rfl
  · intro x
    rw [Shape.children_append, Tree.children, node_push_appendChild hp.contains]
    have hpn := ne_nextId_of_contains hp.contains
    obtain ⟨c, hcomp⟩ := Option.isSome_iff_exists.mp
      ((Node.composite?_isSome_iff _).mpr hp.leaf?)
    by_cases hxn : x = t.nextId
    · rw [if_pos hxn, if_neg (hxn ▸ hpn.symm), hc, hxn]
      exact t.isolated_nextId.children.symm
    · rw [if_neg hxn]
      split_ifs with hxp
      · rw [Node.children_mapComposite, children_shape, Tree.children, Node.children, hcomp]
        rfl
      · rfl

theorem shape_addComposite (hp : t.IsComposite p) (element : ElementId) (lookahead anchor : Nat) :
    (t.addComposite element lookahead anchor p).shape = t.shape.append p t.nextId :=
  shape_push_appendChild hp rfl rfl

theorem shape_addLeaf (hp : t.IsComposite p) (leaf : Leaf) (element : Option ElementId)
    (error : Option SyntaxError) :
    (t.addLeaf leaf element error p).shape = t.shape.append p t.nextId :=
  shape_push_appendChild hp rfl rfl

theorem leaf?_addComposite (x : NodeId) :
    ((t.addComposite element lookahead anchor p).node x).leaf? = (t.node x).leaf? := by
  rw [addComposite]
  refine view_push_appendChild_of_eq (v := Node.leaf?) ?_ ?_ p x
  · exact Node.leaf?_mapComposite _
  · rfl

theorem error_addComposite (x : NodeId) :
    ((t.addComposite element lookahead anchor p).node x).error = (t.node x).error := by
  rw [addComposite]
  refine view_push_appendChild_of_eq (v := Node.error) ?_ ?_ p x
  · exact Node.error_mapComposite _
  · rfl

theorem semantic_addComposite (x : NodeId) :
    ((t.addComposite element lookahead anchor p).node x).semantic = (t.node x).semantic := by
  rw [addComposite]
  refine view_push_appendChild_of_eq (v := Node.semantic) ?_ ?_ p x
  · exact Node.semantic_mapComposite _
  · rfl

theorem lookaheadLeaves_addComposite (x : NodeId) :
    (t.addComposite element lookahead anchor p).lookaheadLeaves x = t.lookaheadLeaves x := by
  rw [lookaheadLeaves, addComposite]
  refine view_push_appendChild_of_eq (v := Node.lookaheadLeaves) ?_ ?_ p x
  · exact Node.lookaheadLeaves_mapComposite fun _ => rfl
  · rfl

theorem anchor_addComposite (x : NodeId) :
    ((t.addComposite element lookahead anchor p).node x).anchor =
      if x = t.nextId then anchor else (t.node x).anchor :=
  view_push_appendChild (v := Node.anchor) (Node.anchor_mapComposite fun _ => rfl) _ p x

theorem anchor_addLeaf (x : NodeId) :
    ((t.addLeaf leaf element? error p).node x).anchor = (t.node x).anchor := by
  rw [addLeaf]
  refine view_push_appendChild_of_eq (v := Node.anchor) ?_ ?_ p x
  · exact Node.anchor_mapComposite fun _ => rfl
  · rfl

theorem grammar_addComposite (x : NodeId) :
    ((t.addComposite element lookahead anchor p).node x).grammar =
      if x = t.nextId then [element] else (t.node x).grammar :=
  view_push_appendChild (v := Node.grammar) (Node.grammar_mapComposite _) _ p x

theorem grammar_addLeaf (x : NodeId) :
    ((t.addLeaf leaf element? error p).node x).grammar =
      if x = t.nextId then element?.toList else (t.node x).grammar :=
  view_push_appendChild (v := Node.grammar) (Node.grammar_mapComposite _) _ p x

theorem leaf?_addLeaf (x : NodeId) : ((t.addLeaf leaf element? error p).node x).leaf? =
    if x = t.nextId then some leaf else (t.node x).leaf? :=
  view_push_appendChild (v := Node.leaf?) (Node.leaf?_mapComposite _) _ p x

theorem error_addLeaf (x : NodeId) : ((t.addLeaf leaf element? error p).node x).error =
    if x = t.nextId then error else (t.node x).error :=
  view_push_appendChild (v := Node.error) (Node.error_mapComposite _) _ p x

theorem semantic_addLeaf (x : NodeId) :
    ((t.addLeaf leaf element? error p).node x).semantic = (t.node x).semantic := by
  rw [addLeaf]
  refine view_push_appendChild_of_eq (v := Node.semantic) ?_ ?_ p x
  · exact Node.semantic_mapComposite _
  · rfl

theorem lookaheadLeaves_addLeaf (x : NodeId) :
    (t.addLeaf leaf element? error p).lookaheadLeaves x = t.lookaheadLeaves x := by
  rw [lookaheadLeaves, addLeaf]
  refine view_push_appendChild_of_eq (v := Node.lookaheadLeaves) ?_ ?_ p x
  · exact Node.lookaheadLeaves_mapComposite fun _ => rfl
  · rfl

theorem IsComposite.addComposite (h : t.IsComposite x) :
    (t.addComposite element lookahead anchor p).IsComposite x := by
  refine ⟨?_, (leaf?_addComposite x).trans h.leaf?⟩
  rw [Contains, size_addComposite]
  exact Nat.lt_succ_of_lt h.contains

theorem IsComposite.addLeaf (h : t.IsComposite x) :
    (t.addLeaf leaf element? error p).IsComposite x := by
  refine ⟨?_, ?_⟩
  · rw [Contains, size_addLeaf]
    exact Nat.lt_succ_of_lt h.contains
  · rw [leaf?_addLeaf, if_neg (ne_nextId_of_contains h.contains), h.leaf?]

theorem isComposite_addComposite_nextId :
    (t.addComposite element lookahead anchor p).IsComposite t.nextId := by
  refine ⟨?_, ?_⟩
  · rw [Contains, size_addComposite]
    exact Nat.lt_succ_self _
  · rw [leaf?_addComposite, node_of_not_contains t.not_contains_nextId]
    rfl

end AppendChild

/-! ## A node above another -/

section Wrap

variable {element : ElementId}

/-- A view that sees neither children nor the node above sees the wrapper and nothing else. -/
theorem view_wrap_eq {α : Type} {v : Node → α}
    (hv : ∀ n (g : List NodeId → List NodeId),
      v (n.mapComposite fun c => { c with children := g c.children }) = v n)
    (hp : ∀ (n : Node) parent, v { n with parent } = v n) (t : Tree) (element : ElementId)
    (inner x : NodeId) : v ((t.wrap element inner).node x) =
      if x = t.nextId then
        v ⟨t.parent? inner, .composite ⟨[inner], (t.node inner).composite?.elim 0 (·.lookahead), [],
          (t.node inner).anchor⟩, [element], none, none⟩
      else v (t.node x) := by
  unfold wrap
  rw [view_modify fun n => hp n _]
  split
  · rw [node_push, apply_ite v]
    rfl
  · rw [view_modify fun n => hv n _, node_push, apply_ite v]
    rfl

/-- A view that sees neither children nor the node above, and takes a new composite for no node,
sees nothing of a wrapper. -/
theorem view_wrap {α : Type} {v : Node → α}
    (hv : ∀ n (g : List NodeId → List NodeId),
      v (n.mapComposite fun c => { c with children := g c.children }) = v n)
    (hp : ∀ (n : Node) parent, v { n with parent } = v n)
    (hn : ∀ parent children lookahead anchor grammar,
      v ⟨parent, .composite ⟨children, lookahead, [], anchor⟩, grammar, none, none⟩ = v .detached)
    (t : Tree) (element : ElementId) (inner x : NodeId) :
    v ((t.wrap element inner).node x) = v (t.node x) := by
  rw [view_wrap_eq hv hp, hn]
  split_ifs with hx
  · rw [hx, node_of_not_contains t.not_contains_nextId]
  · rfl

theorem leaf?_wrap (x : NodeId) : ((t.wrap element inner).node x).leaf? = (t.node x).leaf? :=
  view_wrap (v := Node.leaf?) (fun n _ => Node.leaf?_mapComposite _ n) (fun _ _ => rfl)
    (fun _ _ _ _ _ => rfl) t element inner x

theorem error_wrap (x : NodeId) : ((t.wrap element inner).node x).error = (t.node x).error :=
  view_wrap (v := Node.error) (fun n _ => Node.error_mapComposite _ n) (fun _ _ => rfl)
    (fun _ _ _ _ _ => rfl) t element inner x

theorem semantic_wrap (x : NodeId) :
    ((t.wrap element inner).node x).semantic = (t.node x).semantic :=
  view_wrap (v := Node.semantic) (fun n _ => Node.semantic_mapComposite _ n) (fun _ _ => rfl)
    (fun _ _ _ _ _ => rfl) t element inner x

theorem lookaheadLeaves_wrap (x : NodeId) :
    (t.wrap element inner).lookaheadLeaves x = t.lookaheadLeaves x :=
  view_wrap (v := Node.lookaheadLeaves)
    (fun n g =>
      Node.lookaheadLeaves_mapComposite (f := fun c => { c with children := g c.children })
        (fun _ => rfl) n) (fun _ _ => rfl)
    (fun _ _ _ _ _ => rfl) t element inner x

theorem IsComposite.wrap (h : t.IsComposite x) : (t.wrap element inner).IsComposite x := by
  refine ⟨?_, (leaf?_wrap x).trans h.leaf?⟩
  rw [Contains, size_wrap]
  exact Nat.lt_succ_of_lt h.contains

theorem isComposite_wrap_nextId : (t.wrap element inner).IsComposite t.nextId := by
  refine ⟨?_, ?_⟩
  · rw [Contains, size_wrap]
    exact Nat.lt_succ_self _
  · rw [leaf?_wrap, node_of_not_contains t.not_contains_nextId]
    rfl

/-- The wrapper is placed where the inner node is. -/
theorem anchor_wrap (x : NodeId) : ((t.wrap element inner).node x).anchor =
    if x = t.nextId then (t.node inner).anchor else (t.node x).anchor :=
  view_wrap_eq (v := Node.anchor)
    (fun n g => Node.anchor_mapComposite (f := fun c => { c with children := g c.children })
      (fun _ => rfl) n) (fun _ _ => rfl) t element inner x

theorem grammar_wrap (x : NodeId) : ((t.wrap element inner).node x).grammar =
    if x = t.nextId then [element] else (t.node x).grammar :=
  view_wrap_eq (v := Node.grammar) (fun n _ => Node.grammar_mapComposite _ n) (fun _ _ => rfl)
    t element inner x

/-- The nodes after the new one was made and before the inner one refers to it. -/
theorem node_wrap (t : Tree) (element : ElementId) (inner x : NodeId) :
    ∃ n : Node, n.parent = t.parent? inner ∧ n.children = [inner] ∧
      (t.wrap element inner).node x =
        (((t.parent? inner).elim (t.push n) fun p => (t.push n).modify p (.mapComposite fun c =>
          { c with children := c.children.map fun child => if child = inner then t.nextId else child
            })).modify inner fun n => { n with parent := some t.nextId }).node x := by
  refine ⟨⟨t.parent? inner, .composite ⟨[inner], (t.node inner).composite?.elim 0 (·.lookahead), [],
    (t.node inner).composite?.elim 0 (·.anchor)⟩, [element], none, none⟩, rfl, rfl, ?_⟩
  rw [wrap]
  cases t.parent? inner <;> rfl

theorem parent?_wrap (hi : t.Contains inner) (element : ElementId) (x : NodeId) :
    (t.wrap element inner).parent? x =
      if x = t.nextId then t.parent? inner
      else if x = inner then some t.nextId else t.parent? x := by
  have hin := ne_nextId_of_contains hi
  obtain ⟨n, hn, -, hx⟩ := node_wrap t element inner x
  have hsize : (t.push n).Contains inner := by
    rw [Contains, size_push]
    exact Nat.lt_succ_of_lt hi
  rw [parent?, hx, node_modify]
  by_cases hxi : x = inner
  · subst hxi
    rw [if_pos, if_neg hin, if_pos rfl]
    refine ⟨rfl, ?_⟩
    cases t.parent? x with
    | none => exact hsize
    | some p => rw [Option.elim_some, Contains, size_modify]; exact hsize
  · rw [if_neg fun h => hxi h.1, if_neg hxi]
    have hpush : ((t.push n).node x).parent =
        if x = t.nextId then t.parent? inner else t.parent? x := by
      rw [node_push, apply_ite Node.parent, hn]
      rfl
    rw [← hpush]
    cases t.parent? inner with
    | none => rfl
    | some p => exact view_modify (v := Node.parent) (Node.parent_mapComposite _) (t.push n) p x

theorem children_wrap (hw : t.shape.WellFormed) (element : ElementId) (x : NodeId) :
    (t.wrap element inner).children x =
      if x = t.nextId then [inner]
      else (t.children x).map fun c => if c = inner then t.nextId else c := by
  obtain ⟨n, -, hn, hx⟩ := node_wrap t element inner x
  have hmap (h : t.parent? inner ≠ some x) :
      ((t.children x).map fun c => if c = inner then t.nextId else c) = t.children x :=
    Shape.map_replace_of_not_mem (fun hc => h (hw.parent?_of_mem hc)) _
  rw [Tree.children, hx, view_modify (f := fun n => { n with parent := some t.nextId })
    (v := Node.children) fun _ => rfl]
  rcases hp : t.parent? inner with - | p
  · rw [Option.elim_none, node_push, apply_ite Node.children, hn, hmap (by simp [hp])]
    rfl
  · have hpc : t.Contains p := contains_of_mem_children (hw.mem_of_parent? hp)
    have hpn := ne_nextId_of_contains hpc
    have hsize : (t.push n).Contains p := by
      rw [Contains, size_push]
      exact Nat.lt_succ_of_lt hpc
    rw [Option.elim_some, node_modify, node_push]
    by_cases hxp : x = p
    · subst hxp
      rw [if_pos ⟨rfl, hsize⟩, if_neg hpn, if_neg hpn, Node.children_mapComposite, Tree.children,
        Node.children]
      cases (t.node x).composite? <;> rfl
    · rw [if_neg fun h => hxp h.1, apply_ite Node.children, hn, hmap fun h => hxp ?_]
      · rfl
      · exact (Option.some.inj (hp.symm.trans h)).symm

theorem shape_wrap (hw : t.shape.WellFormed) (hi : t.Contains inner) (element : ElementId) :
    (t.wrap element inner).shape = t.shape.interpose inner t.nextId := by
  refine shape_eq ?_ ?_
  · intro x
    rw [parent?_wrap hi, Shape.parent?_interpose]
    rfl
  · intro x
    rw [children_wrap hw, Shape.children_interpose]
    rfl

end Wrap

end Tree

end ParseTree
