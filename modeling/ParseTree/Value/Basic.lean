import ParseTree.Identifier
import ParseTree.Text.Quoted
import ParseTree.Value.Decimal.Basic

/-!
# Feature values

## Main definitions

* `RawValue`: what a recognizer hands to a feature
* `Value`: what a feature holds
* `Value.sameAs`: equality of values, where decimal numbers are compared as numbers
-/

namespace ParseTree

/-- A value as a recognizer hands it to a feature. -/
inductive RawValue where
  /-- Another semantic element. -/
  | element (id : SemanticId)
  /-- Unconverted text. -/
  | text (s : String)
  /-- The flag of an optional part. -/
  | bool (b : Bool)
deriving DecidableEq, Repr

/-- The value of a feature. -/
inductive Value where
  /-- A whole number. -/
  | int (n : Int64)
  /-- A decimal number. -/
  | decimal (d : Decimal)
  /-- A text. -/
  | text (s : String)
  /-- A truth value. -/
  | bool (b : Bool)
  /-- A semantic element. -/
  | element (id : SemanticId)
  /-- The values of a feature with many values. -/
  | list (values : List Value)
deriving Repr

namespace Value

section

variable (library : DecimalLibrary)

mutual

/-- The value as inspection output writes it. -/
def inspect : Value → String
  | int n => "Int(" ++ toString n.toInt ++ ")"
  | decimal d => "Decimal(" ++ library.text d ++ ")"
  | text s => "Text(" ++ Text.quoted s ++ ")"
  | bool b => "Bool(" ++ (if b then "true" else "false") ++ ")"
  | element id => "Element(" ++ id.inspect ++ ")"
  | list values => "List(" ++ Text.inspectList (inspectAll values) ++ ")"

/-- The values of a list as inspection output writes them. -/
def inspectAll : List Value → List String
  | [] => []
  | v :: vs => inspect v :: inspectAll vs

end

end

mutual

/-- The values are equal, decimal numbers being compared as numbers. -/
def sameAs : Value → Value → Bool
  | int m, int n => m == n
  | decimal d, decimal e => decide (d.SameNumber e)
  | text s, text t => s == t
  | bool a, bool b => a == b
  | element a, element b => a == b
  | list vs, list ws => sameAll vs ws
  | _, _ => false

/-- The lists have equal values in the same order. -/
def sameAll : List Value → List Value → Bool
  | [], [] => true
  | v :: vs, w :: ws => sameAs v w && sameAll vs ws
  | _, _ => false

end

/-- The items of a value: those of a list, otherwise the value itself. -/
def items : Value → List Value
  | list values => values
  | v => [v]

end Value

end ParseTree
