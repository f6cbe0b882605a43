import ParseTree.Value.Converter

/-!
# Converters by rule

## Main definitions

* `Registry`: the converter of each rule
* `Registry.register`, `Registry.find?`: a rule's converter set and looked up
* `Registry.toValue`: the value of a rule's text, which stays text without a converter

## Main results

* `find?_register`: the last registration of a rule counts
-/

namespace ParseTree

/-- The converters of rules, by rule name. -/
structure Registry where
  /-- The registrations; the first one for a rule counts. -/
  entries : List (String × Converter)
  /-- What the converters read, write and divide decimal numbers with. -/
  library : DecimalLibrary

namespace Registry

/-- No rule has a converter. -/
def empty (library : DecimalLibrary) : Registry :=
  ⟨[], library⟩

/-- The converter becomes that of the rule. -/
def register (r : Registry) (rule : String) (converter : Converter) : Registry :=
  { r with entries := (rule, converter) :: r.entries }

/-- Every converter is that of the rule it is made for. -/
def standard (library : DecimalLibrary) : Registry :=
  Converter.all.foldl (fun r c => r.register c.name c) (empty library)

/-- The converter of a rule. -/
def find? (r : Registry) (rule : String) : Option Converter :=
  r.entries.lookup rule

/-- The rules that have a converter, sorted. -/
def rules (r : Registry) : List String :=
  (r.entries.map (·.1)).eraseDups.mergeSort

/-- The registry as inspection output writes it. -/
def inspect (r : Registry) : String :=
  Text.inspectRecord "ValueConverterRegistry"
    [("rules", Text.inspectList (r.rules.map Text.quoted))]

/-- The value that a text of a rule denotes. -/
def toValue (r : Registry) (rule text : String) : Except ConversionFault Value :=
  match r.find? rule with
  | some converter => converter.toValue r.library text
  | none => .ok (.text text)

theorem find?_register (r : Registry) (rule other : String) (converter : Converter) :
    (r.register rule converter).find? other =
      if other = rule then some converter else r.find? other := by
  simp only [find?, register, List.lookup_cons]
  split <;> simp_all

/-- The outcome of converting a text to a value, back to text and to a value again. -/
inductive RoundTrip where
  /-- The rule has no converter. -/
  | noConverter
  /-- The text denotes no value. -/
  | rejected
  /-- The value has no text. -/
  | noText (value : Value)
  /-- The text of the value denotes no value. -/
  | noValue (value : Value) (text : String) (fault : ConversionFault)
  /-- The text of the value denotes a value. -/
  | complete (value : Value) (text : String) (again : Value)
deriving Repr

/-- Converts a text of a rule to a value, back to text and to a value again. -/
def roundTrip (r : Registry) (rule text : String) : RoundTrip :=
  match r.find? rule with
  | none => .noConverter
  | some converter =>
    match converter.toValue r.library text with
    | .error _ => .rejected
    | .ok value =>
      match converter.toText r.library value with
      | .error _ => .noText value
      | .ok written =>
        match converter.toValue r.library written with
        | .error fault => .noValue value written fault
        | .ok again => .complete value written again

end Registry

end ParseTree
