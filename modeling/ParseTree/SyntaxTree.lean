import ParseTree.Issue.Diagnostic
import ParseTree.Tree.Check

/-!
# Finished syntax trees

A finished tree goes with the text it covers and the nodes of its semantic elements.

## Main definitions

* `SyntaxTree`: the tree, its text and the primary nodes
* `SyntaxTree.nodeFor?`: the node of a semantic element
* `SyntaxTree.diagnostics`: the syntax errors as diagnostics
* `SyntaxTree.violation?`: the first defect, if there is one
-/

namespace ParseTree

/-- A finished syntax tree. -/
structure SyntaxTree where
  /-- The nodes. -/
  tree : Tree
  /-- The text that the tree covers. -/
  source : String
  /-- The primary nodes of the semantic elements. -/
  primary : List (SemanticId × NodeId)
deriving Repr

namespace SyntaxTree

/-- A node of the tree. -/
def view (t : SyntaxTree) (id : NodeId) : NodeView :=
  ⟨t.tree, t.source, id⟩

/-- The nodes in document order. -/
def nodes (t : SyntaxTree) : List NodeId :=
  t.tree.descendants Tree.root

/-- The leaves in document order. -/
def leaves (t : SyntaxTree) : List NodeId :=
  t.tree.leaves Tree.root

/-- The nodes that carry an error, in document order, with the error. -/
def errors (t : SyntaxTree) : List (NodeId × SyntaxError) :=
  t.tree.errors Tree.root

/-- The primary node of a semantic element. -/
def nodeFor? (t : SyntaxTree) (element : SemanticId) : Option NodeId :=
  t.primary.lookup element

/-- The diagnostic of an error on a node; errors without a code count as mismatched input. -/
def diagnostic (t : SyntaxTree) (id : NodeId) (error : SyntaxError) : Diagnostic :=
  .ofSyntaxError (error.code.getD .mismatchedInput) error.message (t.tree.span id)

/-- The diagnostics of all errors, in document order. -/
def diagnostics (t : SyntaxTree) : List Diagnostic :=
  t.errors.map fun e => t.diagnostic e.1 e.2

/-- The first defect of the tree, if there is one. -/
def violation? (t : SyntaxTree) : Option Violation :=
  t.tree.violation? t.source (t.primary.map (·.2))

end SyntaxTree

end ParseTree
