import ParseTree.Model.Basic

/-!
# What a model says of a refused value

A model looks at a node only to name it when it refuses a value. So values read from different nodes
have the same fate, up to the node that the refusal names.

## Main definitions

* `ConversionError.rename`: a refusal that names another node
* `Model.store`: a value is converted and stored

## Main results

* `store_rename`: the same value read from another node
* `node_eq_none_of_store`: a refusal that ends the parse names no node
-/

namespace ParseTree

/-- The refusal with another node in the place of the one that it names. -/
def ConversionError.rename (f : NodeId → NodeId) (e : ConversionError) : ConversionError :=
  { e with node := e.node.map f }

namespace Model

variable {m : Model} {a : Assignment} {node : NodeId} {e : ConversionError}

/-- The model after a feature was changed with a value. -/
def store (m : Model) (a : Assignment) (g : Value → ModelElement → ModelElement) (node : NodeId) :
    Except ConversionError Model := do
  let value ← m.convert a.value a.rule node
  m.update a.element (g value)

theorem convert_rename (m : Model) (value : RawValue) (rule : Option String) (node : NodeId)
    (f : NodeId → NodeId) : m.convert value rule (f node) =
      (m.convert value rule node).mapError (.rename f) := by
  cases value with
  | text s =>
    cases rule with
    | none => rfl
    | some rule =>
      rw [convert, convert]
      cases m.converters.toValue rule s <;> rfl
  | element | bool => cases rule <;> rfl

theorem isInternal_of_convert {value : RawValue} {rule : Option String}
    (h : m.convert value rule node = .error e) : e.isInternal = false := by
  cases value with
  | text s =>
    cases rule with
    | none => cases h
    | some rule =>
      rw [convert] at h
      cases hv : m.converters.toValue rule s with
      | ok v =>
        rw [hv] at h
        cases h
      | error fault =>
        rw [hv] at h
        obtain rfl := Except.error.inj h
        rfl
  | element | bool => cases rule <;> cases h

theorem node_of_update {id : SemanticId} {g : ModelElement → ModelElement}
    (h : m.update id g = .error e) : e.node = none := by
  rw [update] at h
  cases he : m.element? id with
  | some element =>
    rw [he] at h
    cases h
  | none =>
    rw [he] at h
    obtain rfl := Except.error.inj h
    rfl

theorem store_rename (m : Model) (a : Assignment) (g : Value → ModelElement → ModelElement)
    (node : NodeId) (f : NodeId → NodeId) :
    m.store a g (f node) = (m.store a g node).mapError (.rename f) := by
  rw [store, store, convert_rename]
  cases m.convert a.value a.rule node with
  | error e => rfl
  | ok value =>
    show m.update _ _ = (m.update _ _).mapError _
    cases hu : m.update a.element (g value) with
    | ok m' => rfl
    | error e =>
      have hnode := node_of_update hu
      cases e
      cases hnode
      rfl

theorem node_eq_none_of_store {g : Value → ModelElement → ModelElement}
    (h : m.store a g node = .error e) (hi : e.isInternal) : e.node = none := by
  rw [store] at h
  cases hc : m.convert a.value a.rule node with
  | error e' =>
    rw [hc] at h
    obtain rfl := Except.error.inj h
    rw [isInternal_of_convert hc] at hi
    cases hi
  | ok value =>
    rw [hc] at h
    exact node_of_update h

end Model

end ParseTree
