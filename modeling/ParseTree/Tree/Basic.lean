import ParseTree.Grammar.Basic
import ParseTree.Identifier
import ParseTree.Issue.SyntaxError
import ParseTree.Token.Basic

/-!
# Syntax trees

The nodes of a tree are held in the order of their creation and refer to each other by position.
A composite lists its children; a leaf stands for one token. Nodes that were merged into others stay
in their place, but no other node refers to them.

## Main definitions

* `Leaf`, `Composite`, `Node`: the nodes
* `Tree`: all nodes of a tree, the root being the first
* `Tree.node`, `Tree.modify`: a node, the tree with a node changed

## Main results

* `node_modify_self`, `node_modify_of_ne`: the nodes of a tree after a change of one
* `node_push_of_lt`, `node_push_nextId`: the nodes of a tree after one more was added
-/

namespace ParseTree

/-- What a leaf says about its token. -/
structure Leaf where
  /-- The position of the token in its stream. -/
  token : Nat
  /-- The kind of the token. -/
  kind : TokenKind
  /-- The bytes covered. -/
  span : Span
  /-- The token is on the hidden channel. -/
  isHidden : Bool
  /-- The feature that the token is assigned to. -/
  feature : Option String
deriving DecidableEq, Repr

/-- What an inner node is made of. -/
structure Composite where
  /-- The nodes directly below, in document order. -/
  children : List NodeId
  /-- The number of tokens recorded as lookahead when the node was opened. -/
  lookahead : Nat
  /-- The leaves of the tokens that were inspected to decide on the node. -/
  lookaheadLeaves : List NodeId
  /-- The position of the node while it has no leaves. -/
  anchor : Nat
deriving DecidableEq, Repr

/-- The two kinds of node. -/
inductive NodeKind where
  /-- An inner node. -/
  | composite (c : Composite)
  /-- A token. -/
  | leaf (l : Leaf)
deriving DecidableEq, Repr

/-- A node of a syntax tree. -/
structure Node where
  /-- The node above. -/
  parent : Option NodeId
  /-- The kind of node. -/
  kind : NodeKind
  /-- The grammar elements that the node represents, outermost first. -/
  grammar : List ElementId
  /-- The semantic element that the node is bound to. -/
  semantic : Option SemanticId
  /-- The syntax error attached to the node. -/
  error : Option SyntaxError
deriving DecidableEq, Repr

namespace Node

/-- A composite that nothing refers to and that refers to nothing. -/
def detached : Node :=
  ⟨none, .composite ⟨[], 0, [], 0⟩, [], none, none⟩

instance : Inhabited Node := ⟨detached⟩

/-- The composite of an inner node. -/
def composite? (n : Node) : Option Composite :=
  match n.kind with
  | .composite c => some c
  | .leaf _ => none

/-- The leaf of a token node. -/
def leaf? (n : Node) : Option Leaf :=
  match n.kind with
  | .composite _ => none
  | .leaf l => some l

/-- The nodes directly below; leaves have none. -/
def children (n : Node) : List NodeId :=
  n.composite?.elim [] (·.children)

/-- The node with its composite changed; leaves stay as they are. -/
def mapComposite (f : Composite → Composite) (n : Node) : Node :=
  match n.kind with
  | .composite c => { n with kind := .composite (f c) }
  | .leaf _ => n

@[simp] theorem parent_mapComposite (f : Composite → Composite) (n : Node) :
    (n.mapComposite f).parent = n.parent := by
  unfold mapComposite; split <;> rfl

@[simp] theorem leaf?_mapComposite (f : Composite → Composite) (n : Node) :
    (n.mapComposite f).leaf? = n.leaf? := by
  unfold mapComposite; split <;> simp_all [leaf?]

@[simp] theorem composite?_mapComposite (f : Composite → Composite) (n : Node) :
    (n.mapComposite f).composite? = n.composite?.map f := by
  unfold mapComposite; split <;> simp_all [composite?]

@[simp] theorem error_mapComposite (f : Composite → Composite) (n : Node) :
    (n.mapComposite f).error = n.error := by
  unfold mapComposite; split <;> rfl

@[simp] theorem semantic_mapComposite (f : Composite → Composite) (n : Node) :
    (n.mapComposite f).semantic = n.semantic := by
  unfold mapComposite; split <;> rfl

end Node

/-- The nodes of a syntax tree in the order of their creation. -/
structure Tree where
  /-- The nodes. -/
  nodes : Array Node
deriving Repr

namespace Tree

/-- The identifier of the root. -/
def root : NodeId := ⟨0⟩

/-- The tree that consists of an empty root. -/
def empty : Tree :=
  ⟨#[.detached]⟩

/-- The number of nodes ever created. -/
def size (t : Tree) : Nat :=
  t.nodes.size

/-- The identifier belongs to the tree. -/
def Contains (t : Tree) (id : NodeId) : Prop :=
  id.index < t.size

instance (t : Tree) (id : NodeId) : Decidable (t.Contains id) :=
  inferInstanceAs (Decidable (id.index < t.size))

/-- A node by its identifier; identifiers of other trees give a detached node. -/
def node (t : Tree) (id : NodeId) : Node :=
  t.nodes[id.index]?.getD .detached

/-- The node above another. -/
def parent? (t : Tree) (id : NodeId) : Option NodeId :=
  (t.node id).parent

/-- The nodes directly below another, in document order. -/
def children (t : Tree) (id : NodeId) : List NodeId :=
  (t.node id).children

/-- The node stands for a token. -/
def isLeaf (t : Tree) (id : NodeId) : Bool :=
  (t.node id).leaf?.isSome

/-- The tree with one node changed. -/
def modify (t : Tree) (id : NodeId) (f : Node → Node) : Tree :=
  ⟨t.nodes.modify id.index f⟩

/-- The identifier of the next node. -/
def nextId (t : Tree) : NodeId :=
  ⟨t.size⟩

/-- The tree with one more node, which no other refers to. -/
def push (t : Tree) (n : Node) : Tree :=
  ⟨t.nodes.push n⟩

@[simp] theorem size_modify (t : Tree) (id : NodeId) (f : Node → Node) :
    (t.modify id f).size = t.size := by
  simp [modify, size]

@[simp] theorem size_push (t : Tree) (n : Node) : (t.push n).size = t.size + 1 := by
  simp [push, size]

theorem node_modify_self {t : Tree} {id : NodeId} (h : t.Contains id) (f : Node → Node) :
    (t.modify id f).node id = f (t.node id) := by
  simp only [Contains, size] at h
  simp only [node, modify, Array.getElem?_modify, if_true, Array.getElem?_eq_getElem h]
  rfl

theorem node_modify_of_ne {t : Tree} {id other : NodeId} (h : other ≠ id) (f : Node → Node) :
    (t.modify id f).node other = t.node other := by
  have hi : id.index ≠ other.index := fun e => h (by cases id; cases other; simp_all)
  simp [node, modify, Array.getElem?_modify, hi]

theorem node_push_nextId (t : Tree) (n : Node) : (t.push n).node t.nextId = n := by
  simp [node, push, nextId, size]

theorem node_push_of_lt {t : Tree} {id : NodeId} (h : t.Contains id) (n : Node) :
    (t.push n).node id = t.node id := by
  simp only [Contains, size] at h
  simp [node, push, Array.getElem?_push, Nat.ne_of_lt h]

end Tree

end ParseTree
