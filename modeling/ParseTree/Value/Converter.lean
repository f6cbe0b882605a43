import ParseTree.Text.Blank
import ParseTree.Value.Basic
import ParseTree.Value.StringLiteral

/-!
# Value converters

A converter turns the text of a rule into a value and a value back into text. Decimal numbers are
read, written and divided by a library.

## Main definitions

* `Converter`: the converters for whole numbers, identifiers, string literals, decimal numbers and
  fractions
* `Converter.toValue`, `Converter.toText`: the two directions
* `ConversionFault`: why a conversion is refused
-/

namespace ParseTree

/-- A way to convert between text and values. -/
inductive Converter where
  /-- Whole numbers of 64 bits in decimal digits. -/
  | int
  /-- Identifiers; a leading caret sets them apart from keywords. -/
  | identifier
  /-- String literals. -/
  | string
  /-- Decimal numbers. -/
  | decimal
  /-- Quotients of two decimal numbers, held as a decimal number. -/
  | fraction
deriving DecidableEq, Repr

/-- The name of a converter, which is also the rule it is made for. -/
def Converter.name : Converter → String
  | int => "INT"
  | identifier => "ID"
  | string => "STRING"
  | decimal => "DECIMAL"
  | fraction => "Fraction"

/-- All converters. -/
def Converter.all : List Converter :=
  [.int, .identifier, .string, .decimal, .fraction]

/-- Why a conversion is refused. -/
inductive ConversionFault where
  /-- The empty text is no whole number. -/
  | emptyInt
  /-- The text is no whole number of 64 bits. -/
  | notInt (text : String)
  /-- The text is no string literal. -/
  | notLiteral (fault : LiteralFault)
  /-- The text is no decimal number. -/
  | notDecimal (text reason : String)
  /-- The second number of the fraction is zero. -/
  | divisionByZero (text : String)
  /-- The quotient does not fit. -/
  | outOfRange (text : String)
  /-- The converter has no text for the value, given as inspection output writes it. -/
  | noText (value : String) (converter : Converter)
deriving DecidableEq, Repr

/-- The wording of a refusal. -/
def ConversionFault.message : ConversionFault → String
  | emptyInt => "Couldn't convert empty string to int value."
  | notInt text => "Couldn't convert '" ++ text ++ "' to int value."
  | notLiteral fault => fault.message
  | notDecimal text reason =>
    "Couldn't convert '" ++ text ++ "' to decimal value: " ++ reason ++ "."
  | divisionByZero text => "Division by zero in '" ++ text ++ "'."
  | outOfRange text => "Fraction '" ++ text ++ "' is out of range."
  | noText value converter => "cannot serialize " ++ value ++ " as " ++ converter.name

namespace Converter

/-- Reads a whole number: an optional sign and decimal digits. -/
def readInt? (cs : List Char) : Option Int :=
  match cs with
  | '-' :: ds => (readDigits? ds).map fun n => -(n : Int)
  | '+' :: ds => (readDigits? ds).map Int.ofNat
  | ds => (readDigits? ds).map Int.ofNat
where
  /-- Reads one or more decimal digits. -/
  readDigits? (ds : List Char) : Option Nat :=
    if ds.isEmpty then none else (ds.mapM digitValue?).map (·.foldl (10 * · + ·) 0)

/-- Reads a whole number of 64 bits. -/
def readInt64? (cs : List Char) : Option Int64 := do
  let n ← readInt? cs
  if Int64.minValue.toInt ≤ n ∧ n ≤ Int64.maxValue.toInt then some (.ofInt n) else none

section Library

variable (library : DecimalLibrary)

/-- Reads a decimal number between blanks. -/
def readDecimal (text : String) : Except ConversionFault Decimal :=
  (library.read (String.ofList (Text.trim text.toList))).mapError (.notDecimal text)

/-- Reads a decimal number or the quotient of two, in normal form. -/
def readFraction (text : String) : Except ConversionFault Decimal := do
  let numerator := text.toList.takeWhile (· != '/')
  match text.toList.dropWhile (· != '/') with
  | [] => return library.normalize (← readDecimal library text)
  | _ :: denominator =>
    let d ← readDecimal library (String.ofList numerator)
    let e ← readDecimal library (String.ofList denominator)
    if e.isZero then throw (.divisionByZero text)
    match library.divide? d e with
    | some q => return library.normalize q
    | none => throw (.outOfRange text)

/-- The text of a number as a fraction over a power of ten. -/
def fractionText (d : Decimal) : String :=
  let d := library.normalize d
  if d.scale = 0 then library.text d
  else toString d.signedMantissa ++ "/" ++ toString (powerOfTen d.scale)

/-- The value that a text denotes. -/
def toValue (converter : Converter) (text : String) : Except ConversionFault Value :=
  match converter with
  | int =>
    if text.isEmpty then .error .emptyInt
    else (readInt64? text.toList).elim (.error (.notInt text)) fun n => .ok (.int n)
  | identifier =>
    match text.toList with
    | '^' :: name => .ok (.text (String.ofList name))
    | _ => .ok (.text text)
  | string =>
    ((StringLiteral.decode text.toList).map fun cs => Value.text (String.ofList cs)).mapError
      .notLiteral
  | decimal => Value.decimal <$> readDecimal library text
  | fraction => Value.decimal <$> readFraction library text

/-- A text that denotes the value. -/
def toText (converter : Converter) (value : Value) : Except ConversionFault String :=
  match converter, value with
  | int, .int n => .ok (toString n.toInt)
  | identifier, .text s => .ok s
  | string, .text s => .ok (String.ofList (StringLiteral.encode s.toList))
  | decimal, .decimal d => .ok (library.text d)
  | fraction, .decimal d => .ok (fractionText library d)
  | converter, value => .error (.noText (value.inspect library) converter)

end Library

end Converter

end ParseTree
