import ParseTree.Model.Basic

/-!
# Models with refusals

A model can be set up to refuse certain operations before they reach it, and to hand out its first
element instead of making further ones. Such models show how a parse deals with the refusals of a
factory.

## Main definitions

* `Refusal`: an operation that is refused, and how
* `Model.factoryWith`: the model as a factory that refuses some operations
-/

namespace ParseTree

/-- The operations of a factory. -/
inductive FactoryCall where
  /-- An element is made. -/
  | create
  /-- A feature gets a value. -/
  | set
  /-- A feature gets one more value. -/
  | add
deriving DecidableEq, Repr

/-- The node that a refusal names, seen from the node of the value. -/
inductive RefusalNode where
  /-- The node itself. -/
  | here
  /-- The node above, or the node itself if there is none. -/
  | above
deriving DecidableEq, Repr

/-- An operation that is refused. -/
structure Refusal where
  /-- The operation. -/
  call : FactoryCall
  /-- The classifier or the feature. -/
  name : String
  /-- What is said to be wrong. -/
  message : String
  /-- The refusal ends the parse. -/
  isInternal : Bool
  /-- The node it names. -/
  node : Option RefusalNode
deriving DecidableEq, Repr

namespace Refusal

/-- The first refusal of an operation. -/
def find? (refusals : List Refusal) (call : FactoryCall) (name : String) : Option Refusal :=
  refusals.find? fun r => r.call == call && r.name == name

/-- The error of a refused creation. -/
def error (r : Refusal) : ConversionError :=
  ⟨r.message, none, r.isInternal⟩

/-- The error of a refused assignment of a value read from a node. -/
def errorAt (r : Refusal) (view : NodeView) : ConversionError :=
  match r.node with
  | none => r.error
  | some .here => { r.error with node := some view.id }
  | some .above => { r.error with node := some ((view.tree.parent? view.id).getD view.id) }

end Refusal

/-- The model as a semantic factory that refuses some operations and, on request, hands out its
first element again and again. -/
def Model.factoryWith (refusals : List Refusal) (reuse : Bool) : Factory Model where
  create classifier m :=
    match Refusal.find? refusals .create classifier with
    | some r => (.error r.error, m)
    | none => if reuse && 0 < m.size then (.ok ⟨0⟩, m) else Model.factory.create classifier m
  set a view m :=
    match Refusal.find? refusals .set a.feature with
    | some r => (.error (r.errorAt view), m)
    | none => Model.factory.set a view m
  add a view m :=
    match Refusal.find? refusals .add a.feature with
    | some r => (.error (r.errorAt view), m)
    | none => Model.factory.add a view m

end ParseTree
