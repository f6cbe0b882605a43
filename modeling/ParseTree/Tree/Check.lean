import ParseTree.Tree.View

/-!
# Checking a tree

A finished tree is checked against its text: references agree in both directions, no node is reached
twice, the leaves follow each other without gaps in the order of their tokens and cover the text,
and every bound element has its node in the tree. The check walks the tree in document order and
reports the first violation it meets.

## Main definitions

* `Violation`: a defect of a tree
* `Tree.checkLeaf?`, `Tree.checkFrom`: a leaf against the leaves before it, a walk from a stack
* `Tree.violation?`: the first violation of a tree, if any
-/

namespace ParseTree

/-- A defect of a tree. -/
inductive Violation where
  /-- The root has a parent. -/
  | rootHasParent (parent : NodeId)
  /-- A child names another parent. -/
  | brokenParent (node expected : NodeId) (found : Option NodeId)
  /-- A node is reached more than once. -/
  | duplicateNode (node : NodeId)
  /-- A leaf does not start where the leaf before it ends. -/
  | gap (node : NodeId) (expected found : Nat)
  /-- A leaf has a token that does not follow the token before it. -/
  | tokenOrder (node : NodeId) (previous found : Nat)
  /-- The leaves end before or after the text does. -/
  | incompleteCoverage (covered length : Nat)
  /-- A semantic element is bound to a node outside the tree. -/
  | detachedSemanticNode (node : NodeId)
deriving DecidableEq, Repr

/-- The wording of a violation. -/
def Violation.message : Violation → String
  | rootHasParent parent => "root node has parent " ++ parent.inspect
  | brokenParent node expected found =>
    "node " ++ node.inspect ++ " has parent " ++ Text.inspectOption NodeId.inspect found ++
      ", expected " ++ expected.inspect
  | duplicateNode node => "node " ++ node.inspect ++ " is reachable more than once"
  | gap node expected found =>
    "leaf " ++ node.inspect ++ s!" starts at {found}, expected {expected}"
  | tokenOrder node previous found =>
    "leaf " ++ node.inspect ++ s!" has token {found} after token {previous}"
  | incompleteCoverage covered length => s!"leaves cover {covered} of {length} bytes"
  | detachedSemanticNode node => "semantic element bound to detached node " ++ node.inspect

namespace Tree

/-- How far a walk in document order has come. -/
structure Progress where
  /-- The nodes that were not reached yet. -/
  unvisited : List NodeId
  /-- The end of the last leaf. -/
  offset : Nat
  /-- The token of the last leaf. -/
  previous : Option Nat
deriving DecidableEq, Repr

/-- The violation of a leaf that follows others. -/
def checkLeaf? (p : Progress) (id : NodeId) (l : Leaf) : Option Violation :=
  if l.span.start ≠ p.offset then some (.gap id p.offset l.span.start)
  else
    match p.previous with
    | some previous => if l.token ≤ previous then some (.tokenOrder id previous l.token) else none
    | none => none

/-- The violation of a child that names another parent; the last such child is reported. -/
def checkChildren? (t : Tree) (id : NodeId) : Option Violation :=
  ((t.children id).reverse.find? fun child => t.parent? child ≠ some id).map fun child =>
    .brokenParent child id (t.parent? child)

/-- The progress after a node was reached. -/
def Progress.visit (p : Progress) (id : NodeId) (leaf : Option Leaf) : Progress :=
  match leaf with
  | none => { p with unvisited := p.unvisited.erase id }
  | some l => ⟨p.unvisited.erase id, l.span.stop, some l.token⟩

/-- Walks the nodes on a stack and below it in document order. -/
def checkFrom (t : Tree) (p : Progress) : List NodeId → Except Violation Progress
  | [] => .ok p
  | id :: stack =>
    if id ∈ p.unvisited then
      match (t.node id).leaf?.bind (checkLeaf? p id), t.checkChildren? id with
      | some v, _ | none, some v => .error v
      | none, none => t.checkFrom (p.visit id (t.node id).leaf?) (t.children id ++ stack)
    else .error (.duplicateNode id)
termination_by p.unvisited.length
decreasing_by
  have h : id ∈ p.unvisited := by assumption
  have := List.length_pos_of_mem h
  unfold Progress.visit
  split <;> simp only [List.length_erase_of_mem h] <;> omega

/-- The first violation of a tree over a text, given the primary nodes of its elements. Of a text
that is too long for 32 bits, only the part with offsets is to be covered. -/
def violation? (t : Tree) (source : String) (primary : List NodeId) : Option Violation :=
  match t.parent? root with
  | some parent => some (.rootHasParent parent)
  | none =>
    match t.checkFrom ⟨(List.range t.size).map NodeId.mk, 0, none⟩ [root] with
    | .error v => some v
    | .ok p =>
      if p.offset ≠ saturate source.utf8ByteSize then
        some (.incompleteCoverage p.offset (saturate source.utf8ByteSize))
      else
        (primary.find? fun id => id ∈ p.unvisited ∨ ¬ t.Contains id).map .detachedSemanticNode

end Tree

end ParseTree
