import ParseTree.Model.Factory

/-!
# Semantic models

A model holds elements with a classifier and named features. Text values pass through the converter
of the rule they come from. An operation either succeeds or leaves the model as it was.

## Main definitions

* `ModelElement`: an element, its features in the order of their first assignment
* `Model.create`, `Model.set`, `Model.add`: the operations
* `Model.factory`: the model as a semantic factory

## Main results

* `feature?_assign_self`, `feature?_assign_of_ne`: the features of an element after an assignment
-/

namespace ParseTree

/-- An element of a model. -/
structure ModelElement where
  /-- The classifier. -/
  classifier : String
  /-- The features with their values, in the order of their first assignment. -/
  features : List (String × Value)
deriving Repr

namespace ModelElement

/-- The value of a feature. -/
def feature? (e : ModelElement) (name : String) : Option Value :=
  e.features.lookup name

/-- The features after a feature got a value: it keeps its place, or comes last if it is new. -/
def assignIn (name : String) (value : Value) : List (String × Value) → List (String × Value)
  | [] => [(name, value)]
  | (other, v) :: rest =>
    if other == name then (other, value) :: rest else (other, v) :: assignIn name value rest

/-- The element after a feature got a value. -/
def assign (e : ModelElement) (name : String) (value : Value) : ModelElement :=
  { e with features := assignIn name value e.features }

/-- The element after a value was added to a feature: the values held before come first. -/
def append (e : ModelElement) (name : String) (value : Value) : ModelElement :=
  e.assign name (.list ((e.feature? name).elim [] Value.items ++ [value]))

theorem lookup_assignIn (name other : String) (value : Value) (fs : List (String × Value)) :
    (assignIn name value fs).lookup other =
      if other = name then some value else fs.lookup other := by
  induction fs with
  | nil => simp only [assignIn, List.lookup_cons]; split <;> simp_all
  | cons f fs ih =>
    obtain ⟨key, v⟩ := f
    have miss {l : List (String × Value)} {w : Value} (h : other ≠ key) :
        ((key, w) :: l).lookup other = l.lookup other := by
      simp [List.lookup_cons, beq_eq_false_iff_ne.2 h]
    by_cases hk : key = name <;> by_cases ho : other = key <;> simp_all [assignIn]

theorem feature?_assign_self (e : ModelElement) (name : String) (value : Value) :
    (e.assign name value).feature? name = some value := by
  simp [feature?, assign, lookup_assignIn]

theorem feature?_assign_of_ne {name other : String} (h : other ≠ name) (e : ModelElement)
    (value : Value) : (e.assign name value).feature? other = e.feature? other := by
  simp [feature?, assign, lookup_assignIn, h]

end ModelElement

/-- A semantic model. -/
structure Model where
  /-- The elements, by number. -/
  elements : Array ModelElement
  /-- The converters of text values. -/
  converters : Registry

namespace Model

/-- The model without elements. -/
def empty (converters : Registry) : Model :=
  ⟨#[], converters⟩

/-- The number of elements. -/
def size (m : Model) : Nat :=
  m.elements.size

/-- The element with a handle. -/
def element? (m : Model) (id : SemanticId) : Option ModelElement :=
  m.elements[id.index]?

/-- The value of a feature of an element. -/
def get? (m : Model) (id : SemanticId) (feature : String) : Option Value :=
  (m.element? id).bind (·.feature? feature)

/-- The handle of the next element. -/
def nextId (m : Model) : SemanticId :=
  ⟨m.size⟩

/-- The number of elements that have a handle: handles are numbers of 32 bits. -/
def capacity : Nat := 0x100000000

/-- The model with one more element, whose handle is the next one. -/
def create (m : Model) (classifier : String) : Except ConversionError Model :=
  if classifier.isEmpty then .error (.internal "cannot create an element without classifier")
  else if m.size < capacity then .ok { m with elements := m.elements.push ⟨classifier, []⟩ }
  else .error (.internal "too many semantic elements")

/-- The value that is stored for a raw value read from a node. -/
def convert (m : Model) (value : RawValue) (rule : Option String) (node : NodeId) :
    Except ConversionError Value :=
  match value, rule with
  | .element id, _ => .ok (.element id)
  | .bool b, _ => .ok (.bool b)
  | .text s, none => .ok (.text s)
  | .text s, some rule =>
    (m.converters.toValue rule s).mapError fun fault =>
      (ConversionError.recoverable fault.message).orNode node

/-- The model after a change of an element. -/
def update (m : Model) (id : SemanticId) (f : ModelElement → ModelElement) :
    Except ConversionError Model :=
  match m.element? id with
  | some e => .ok { m with elements := m.elements.setIfInBounds id.index (f e) }
  | none => .error (.internal ("unknown element " ++ id.inspect))

/-- The model after a feature got one value. -/
def set (m : Model) (a : Assignment) (node : NodeId) : Except ConversionError Model := do
  let value ← m.convert a.value a.rule node
  m.update a.element (·.assign a.feature value)

/-- The model after a value was added to a feature. -/
def add (m : Model) (a : Assignment) (node : NodeId) : Except ConversionError Model := do
  let value ← m.convert a.value a.rule node
  m.update a.element (·.append a.feature value)

/-- The outcome of an operation and the model afterwards, which is the old one on a refusal. -/
def outcome {α : Type} (m : Model) (value : α) :
    Except ConversionError Model → Except ConversionError α × Model
  | .ok m' => (.ok value, m')
  | .error e => (.error e, m)

/-- The model as a semantic factory. -/
def factory : Factory Model where
  create classifier m := m.outcome m.nextId (m.create classifier)
  set a view m := m.outcome () (m.set a view.id)
  add a view m := m.outcome () (m.add a view.id)

end Model

end ParseTree
