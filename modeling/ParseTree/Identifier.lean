/-!
# Identifiers of nodes and elements

## Main definitions

* `NodeId`: the position of a node in its tree
* `SemanticId`: the handle of a semantic element
-/

namespace ParseTree

/-- The position of a node in its tree. -/
structure NodeId where
  /-- The position. -/
  index : Nat
deriving DecidableEq, Repr, BEq, ReflBEq, LawfulBEq

/-- The identifier as inspection output writes it. -/
def NodeId.inspect (id : NodeId) : String :=
  s!"NodeId({id.index})"

/-- The handle of a semantic element. -/
structure SemanticId where
  /-- The number of the element. -/
  index : Nat
deriving DecidableEq, Repr, BEq, ReflBEq, LawfulBEq

/-- The identifier as inspection output writes it. -/
def SemanticId.inspect (id : SemanticId) : String :=
  s!"SemanticId({id.index})"

end ParseTree
