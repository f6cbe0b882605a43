import ParseTree.Text.Quoted
import ParseTree.Tree.Basic

/-!
# Reading a tree

Nodes below a node, in document order, and what follows from the leaves: spans and texts. The number
of nodes bounds every walk, so a walk over a tree visits all of it.

## Main definitions

* `Tree.next`: one call of the iterator over nodes in document order
* `Tree.descendants`, `Tree.leaves`: the nodes, the leaves below a node
* `Tree.firstLeaf?`, `Tree.lastLeaf?`: the outermost leaves
* `Tree.span`, `Tree.text`: the covered bytes and text
* `Tree.enclosingElement?`: the semantic element that a node belongs to
* `NodeView`: a node with the tree and the text it belongs to
-/

namespace ParseTree

namespace Tree

/-- One call of the iterator over the nodes on a stack and below it: the node on top, if there is
one, and the stack afterwards. The children of the node are pushed from the last to the first. -/
def next (t : Tree) : List NodeId → Option NodeId × List NodeId
  | [] => (none, [])
  | id :: stack =>
    (some id, (t.children id).reverse.foldl (fun stack child => child :: stack) stack)

/-- The nodes on a stack and below it, in document order, up to a number of nodes. -/
def walk (t : Tree) : Nat → List NodeId → List NodeId
  | 0, _ => []
  | _ + 1, [] => []
  | n + 1, id :: stack => id :: t.walk n (t.children id ++ stack)

/-- A node and everything below it, in document order. -/
def descendants (t : Tree) (id : NodeId) : List NodeId :=
  t.walk t.size [id]

/-- The leaves below a node, in document order; a leaf is below itself. -/
def leaves (t : Tree) (id : NodeId) : List NodeId :=
  (t.descendants id).filter t.isLeaf

/-- The first leaf below a node. -/
def firstLeaf? (t : Tree) (id : NodeId) : Option NodeId :=
  (t.leaves id).head?

/-- The last leaf at most so many levels below a node. -/
def lastLeafWithin? (t : Tree) : Nat → NodeId → Option NodeId
  | 0, _ => none
  | n + 1, id =>
    if t.isLeaf id then some id else (t.children id).reverse.findSome? (t.lastLeafWithin? n)

/-- The last leaf below a node, in a tree that grows or that is finished. -/
def lastLeaf? (t : Tree) (id : NodeId) : Option NodeId :=
  t.lastLeafWithin? t.size id

/-- The span of a leaf; other nodes have none of their own. -/
def leafSpan? (t : Tree) (id : NodeId) : Option Span :=
  (t.node id).leaf?.map (·.span)

/-- The bytes covered by a node: from its first to its last leaf, or its anchor if it has none. -/
def span (t : Tree) (id : NodeId) : Span :=
  match (t.node id).kind with
  | .leaf l => l.span
  | .composite c =>
    match (t.firstLeaf? id).bind t.leafSpan?, (t.lastLeaf? id).bind t.leafSpan? with
    | some first, some last => first.cover last
    | _, _ => .point c.anchor

/-- The part of a source text that a node covers. -/
def text (t : Tree) (source : String) (id : NodeId) : String :=
  ((t.span id).slice? source).getD ""

/-- The semantic element of a node or of the nearest node above that has one, up to a number of
levels. -/
def enclosingWithin? (t : Tree) : Nat → NodeId → Option SemanticId
  | 0, _ => none
  | n + 1, id =>
    match (t.node id).semantic with
    | some element => some element
    | none => (t.parent? id).bind (t.enclosingWithin? n)

/-- The semantic element of a node or of the nearest node above that has one. -/
def enclosingElement? (t : Tree) (id : NodeId) : Option SemanticId :=
  t.enclosingWithin? t.size id

/-- The leaf is on the hidden channel. -/
def isHidden (t : Tree) (id : NodeId) : Bool :=
  (t.node id).leaf?.any (·.isHidden)

/-- The nodes below a node that carry an error, with the error. -/
def errors (t : Tree) (id : NodeId) : List (NodeId × SyntaxError) :=
  (t.descendants id).filterMap fun id => (t.node id).error.map (id, ·)

@[simp] theorem next_nil (t : Tree) : t.next [] = (none, []) := rfl

/-- The children end up on the stack in their own order. -/
@[simp] theorem next_cons (t : Tree) (id : NodeId) (stack : List NodeId) :
    t.next (id :: stack) = (some id, t.children id ++ stack) := by
  rw [next, List.foldl_flip_cons_eq_append', List.reverse_reverse]

@[simp] theorem walk_zero (t : Tree) (stack : List NodeId) : t.walk 0 stack = [] := rfl

@[simp] theorem walk_nil (t : Tree) (n : Nat) : t.walk n [] = [] := by
  cases n <;> rfl

@[simp] theorem walk_succ_cons (t : Tree) (n : Nat) (id : NodeId) (stack : List NodeId) :
    t.walk (n + 1) (id :: stack) = id :: t.walk n (t.children id ++ stack) := rfl

end Tree

/-- A node together with the tree and the text it belongs to. -/
structure NodeView where
  /-- The tree. -/
  tree : Tree
  /-- The source text. -/
  source : String
  /-- The node. -/
  id : NodeId

namespace NodeView

/-- The bytes covered. -/
def span (v : NodeView) : Span :=
  v.tree.span v.id

/-- The text covered. -/
def text (v : NodeView) : String :=
  v.tree.text v.source v.id

/-- Another node of the same tree. -/
def goTo (v : NodeView) (id : NodeId) : NodeView :=
  { v with id }

/-- The leaves below the node, in document order. -/
def leaves (v : NodeView) : List NodeView :=
  (v.tree.leaves v.id).map v.goTo

/-- The first leaf below the node. -/
def firstLeaf? (v : NodeView) : Option NodeView :=
  v.leaves.head?

/-- The last leaf below the node. -/
def lastLeaf? (v : NodeView) : Option NodeView :=
  (v.tree.lastLeaf? v.id).map v.goTo

/-- The semantic element that the node belongs to. -/
def enclosingElement? (v : NodeView) : Option SemanticId :=
  v.tree.enclosingElement? v.id

/-- The kind, span and text of the node. -/
def inspect (v : NodeView) : String :=
  (if v.tree.isLeaf v.id then "Leaf" else if v.id = Tree.root then "Root" else "Composite") ++
    "(" ++ v.span.inspect ++ " " ++ Text.quoted v.text ++ ")"

end NodeView

end ParseTree
