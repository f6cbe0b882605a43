import ParseTree.Tree.View
import ParseTree.Value.Registry

/-!
# Semantic factories

A parse builds semantic elements through a factory. The factory converts and stores values and may
refuse one; a refusal either becomes a syntax error or ends the parse.

## Main definitions

* `ConversionError`: a refusal
* `Factory`: the three operations of a factory with states of a type
-/

namespace ParseTree

/-- The refusal of a value or of an element. -/
structure ConversionError where
  /-- What is wrong. -/
  message : String
  /-- The node it belongs to, if that is known. -/
  node : Option NodeId
  /-- The refusal ends the parse. -/
  isInternal : Bool
deriving DecidableEq, Repr

namespace ConversionError

/-- A refusal that becomes a syntax error. -/
def recoverable (message : String) : ConversionError :=
  ⟨message, none, false⟩

/-- A refusal that ends the parse. -/
def internal (message : String) : ConversionError :=
  ⟨message, none, true⟩

/-- The refusal with a node, unless it has one. -/
def orNode (e : ConversionError) (node : NodeId) : ConversionError :=
  { e with node := e.node.or (some node) }

end ConversionError

/-- A feature of an element and the value it is to get. -/
structure Assignment where
  /-- The element. -/
  element : SemanticId
  /-- The name of the feature. -/
  feature : String
  /-- The value, not converted yet. -/
  value : RawValue
  /-- The rule that the value's text comes from. -/
  rule : Option String
deriving DecidableEq, Repr

/-- The operations of a semantic factory. Each gives the state afterwards, also on a refusal. -/
structure Factory (σ : Type) where
  /-- Makes an element of a classifier. -/
  create : String → σ → Except ConversionError SemanticId × σ
  /-- Assigns a feature with one value; the value was read from the node. -/
  set : Assignment → NodeView → σ → Except ConversionError Unit × σ
  /-- Adds to a feature with many values; the value was read from the node. -/
  add : Assignment → NodeView → σ → Except ConversionError Unit × σ

end ParseTree
