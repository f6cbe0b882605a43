import ParseTree.Tree.Basic

/-!
# Growing a tree

The steps by which a tree is built: adding nodes at the end of a composite, wrapping a node into a
new one, attaching errors and elements, and merging a composite with its only child.

## Main definitions

* `Tree.addComposite`, `Tree.addLeaf`: a new last child
* `Tree.wrap`: a new composite in the place of a node, with that node as its child
* `Tree.attachError`, `Tree.bind?`: an error, a semantic element on a node
* `Tree.addLookaheadLeaf`, `Tree.moveLookaheadLeaves`: the leaves that a composite was decided on
* `Tree.compress?`: a composite that takes over the content of its only child

## Main results

* `size_addComposite`, `size_addLeaf`, `size_wrap`: each adds one node
-/

namespace ParseTree.Tree

/-- The tree in which a composite has one more child at the end. -/
def appendChild (t : Tree) (parent child : NodeId) : Tree :=
  t.modify parent (.mapComposite fun c => { c with children := c.children ++ [child] })

/-- The tree with a new empty composite as last child of another. Its identifier is the next one. -/
def addComposite (t : Tree) (element : ElementId) (lookahead anchor : Nat) (parent : NodeId) :
    Tree :=
  (t.push ⟨some parent, .composite ⟨[], lookahead, [], anchor⟩, [element], none, none⟩).appendChild
    parent t.nextId

/-- The tree with a new leaf as last child of a composite. Its identifier is the next one. -/
def addLeaf (t : Tree) (leaf : Leaf) (element : Option ElementId) (error : Option SyntaxError)
    (parent : NodeId) : Tree :=
  (t.push ⟨some parent, .leaf leaf, element.toList, none, error⟩).appendChild parent t.nextId

/-- The tree in which a new composite takes the place of a node and has it as only child. Its
identifier is the next one. -/
def wrap (t : Tree) (element : ElementId) (inner : NodeId) : Tree :=
  let outer := t.nextId
  let c := (t.node inner).composite?
  let t' := t.push
    ⟨t.parent? inner, .composite ⟨[inner], c.elim 0 (·.lookahead), [], c.elim 0 (·.anchor)⟩,
      [element], none, none⟩
  let t' := match t.parent? inner with
    | none => t'
    | some parent => t'.modify parent (.mapComposite fun c =>
        { c with children := c.children.map fun child => if child = inner then outer else child })
  t'.modify inner fun n => { n with parent := some outer }

/-- The tree in which a node carries one more error message. -/
def attachError (t : Tree) (id : NodeId) (error : SyntaxError) : Tree :=
  t.modify id fun n => { n with error := SyntaxError.mergeInto n.error error }

/-- The tree in which a node is bound to a semantic element; `none` if it is bound to another. -/
def bind? (t : Tree) (id : NodeId) (element : SemanticId) : Option Tree :=
  match (t.node id).semantic with
  | none => some (t.modify id fun n => { n with semantic := some element })
  | some bound => if bound = element then some t else none

/-- The tree in which a composite has the leaf among its lookahead leaves. -/
def addLookaheadLeaf (t : Tree) (composite leaf : NodeId) : Tree :=
  t.modify composite (.mapComposite fun c =>
    if leaf ∈ c.lookaheadLeaves then c
    else { c with lookaheadLeaves := c.lookaheadLeaves ++ [leaf] })

/-- The lookahead leaves of a node. -/
def lookaheadLeaves (t : Tree) (id : NodeId) : List NodeId :=
  (t.node id).composite?.elim [] (·.lookaheadLeaves)

/-- The tree in which the lookahead leaves of one composite belong to another. -/
def moveLookaheadLeaves (t : Tree) (source target : NodeId) : Tree :=
  (t.lookaheadLeaves source).foldl (fun t leaf => t.addLookaheadLeaf target leaf)
    (t.modify source (.mapComposite fun c => { c with lookaheadLeaves := [] }))

/-- The only child of a node that the node can be merged with: a composite without error that is not
bound to another element. -/
def mergeableChild? (t : Tree) (id : NodeId) : Option NodeId :=
  match t.children id with
  | [child] =>
    let c := t.node child
    if c.composite?.isNone || c.error.isSome then none
    else
      match (t.node id).semantic, c.semantic with
      | some outer, some inner => if outer = inner then some child else none
      | _, _ => some child
  | _ => none

/-- The tree in which a node has taken over the content of its only child: its children, grammar
elements and lookahead leaves, and its semantic element if the node has none. The child is left
without relatives. -/
def absorb (t : Tree) (id child : NodeId) : Tree :=
  let c := t.node child
  let t' := t.modify child fun n =>
    { n.mapComposite (fun c => { c with children := [], lookaheadLeaves := [] }) with
      parent := none, grammar := [], semantic := none }
  let t' := c.children.foldl (fun t grandchild =>
    t.modify grandchild fun n => { n with parent := some id }) t'
  let t' := t'.modify id fun n =>
    { n.mapComposite (fun k => { k with children := c.children }) with
      grammar := n.grammar ++ c.grammar, semantic := n.semantic.or c.semantic }
  (t.lookaheadLeaves child).foldl (fun t leaf => t.addLookaheadLeaf id leaf) t'

/-- The result of merging a composite with its only child. -/
structure Compressed where
  /-- The tree afterwards. -/
  tree : Tree
  /-- The child that was merged. -/
  absorbed : NodeId
  /-- The element that the child was bound to. -/
  semantic : Option SemanticId

/-- Merges a composite with its only child, if it can be. -/
def compress? (t : Tree) (id : NodeId) : Option Compressed :=
  (t.mergeableChild? id).map fun child =>
    ⟨t.absorb id child, child, (t.node child).semantic⟩

@[simp] theorem size_appendChild (t : Tree) (parent child : NodeId) :
    (t.appendChild parent child).size = t.size := by
  simp [appendChild]

@[simp] theorem size_addComposite (t : Tree) (element : ElementId) (lookahead anchor : Nat)
    (parent : NodeId) : (t.addComposite element lookahead anchor parent).size = t.size + 1 := by
  simp [addComposite]

@[simp] theorem size_addLeaf (t : Tree) (leaf : Leaf) (element : Option ElementId)
    (error : Option SyntaxError) (parent : NodeId) :
    (t.addLeaf leaf element error parent).size = t.size + 1 := by
  simp [addLeaf]

@[simp] theorem size_wrap (t : Tree) (element : ElementId) (inner : NodeId) :
    (t.wrap element inner).size = t.size + 1 := by
  simp only [wrap]
  split <;> simp

@[simp] theorem size_attachError (t : Tree) (id : NodeId) (error : SyntaxError) :
    (t.attachError id error).size = t.size := by
  simp [attachError]

@[simp] theorem size_addLookaheadLeaf (t : Tree) (composite leaf : NodeId) :
    (t.addLookaheadLeaf composite leaf).size = t.size := by
  simp [addLookaheadLeaf]

end ParseTree.Tree
