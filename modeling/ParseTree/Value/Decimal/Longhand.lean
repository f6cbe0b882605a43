import ParseTree.Value.Decimal.Basic

/-!
# Decimal arithmetic in longhand

A library of decimal arithmetic that works on the digits, for running converters. Converters take
any library; this one is an instance, and nothing that holds of converters is read off it.

A numeral has an optional sign, digits with at most one point, underscores after the first digit and
an optional exponent. Fraction digits that no longer fit are rounded away, a half upwards; whole
digits that do not fit are refused. A quotient is given to as many fraction digits as fit, with the
last one rounded half to even.

## Main definitions

* `Longhand.text`: a number in digits, all fraction digits included
* `Longhand.Fault`: why a text is no numeral
* `Longhand.read`: reads a numeral
* `Longhand.normalize`: the same number without trailing fraction zeros
* `Longhand.divide?`: the quotient, unless it is too large
* `DecimalLibrary.longhand`: the library

## Main results

* `read_eq_ok_of_readPlain`: a plain numeral is a numeral of the same value
-/

namespace ParseTree

namespace Longhand

/-- The largest number of fraction digits. -/
def maxScale : Nat := 28

/-- The magnitude of a mantissa and a scale that fit. -/
def magnitude? (mantissa scale : Nat) : Option Magnitude :=
  if h : mantissa < mantissaLimit ∧ scale ≤ 28 then some ⟨mantissa, scale, h.1, h.2⟩ else none

theorem magnitude?_eq_some_iff {mantissa scale : Nat} {m : Magnitude} :
    magnitude? mantissa scale = some m ↔ m.mantissa = mantissa ∧ m.scale = scale := by
  unfold magnitude?
  split
  · simp only [Option.some.injEq, Magnitude.ext_iff]
    exact ⟨fun h => ⟨h.1.symm, h.2.symm⟩, fun h => ⟨h.1.symm, h.2.symm⟩⟩
  · next h =>
    constructor
    · simp
    · rintro ⟨rfl, rfl⟩
      exact absurd ⟨m.mantissa_lt, m.scale_le⟩ h

/-! ### Writing -/

/-- The digits: a whole part and, if the scale is positive, a point and the fraction digits. -/
def digits (m : Magnitude) : List Char :=
  let ds := Nat.toDigits 10 m.mantissa
  let padded := List.replicate (m.scale + 1 - ds.length) '0' ++ ds
  let whole := padded.take (padded.length - m.scale)
  if m.scale = 0 then whole else whole ++ '.' :: padded.drop (padded.length - m.scale)

/-- The characters of a number: a minus sign if it is negative, then the digits. -/
def characters (d : Decimal) : List Char :=
  if d.isNegative then '-' :: digits d.magnitude else digits d.magnitude

/-- A number in digits, with all its fraction digits. -/
def text (d : Decimal) : String :=
  String.ofList (characters d)

/-! ### Reading -/

/-- Why a text is no numeral. -/
inductive Fault where
  /-- There is no character. -/
  | empty
  /-- There is a second point. -/
  | twoPoints
  /-- An underscore stands before all digits. -/
  | leadingUnderscore
  /-- A character has no place in a numeral. -/
  | unknownCharacter
  /-- There is no digit. -/
  | noDigits
  /-- The whole part does not fit. -/
  | tooManyDigits
  /-- Rounding makes a whole number that does not fit. -/
  | roundsTooHigh
  /-- The exponent is no number. -/
  | badExponent
  /-- The exponent is larger than the largest scale. -/
  | scaleTooLarge (exponent : Nat)
  /-- The exponent makes the number too large. -/
  | tooLarge
deriving DecidableEq, Repr

/-- The wording of a fault. -/
def Fault.message : Fault → String
  | empty => "Invalid decimal: empty"
  | twoPoints => "Invalid decimal: two decimal points"
  | leadingUnderscore => "Invalid decimal: must start lead with a number"
  | unknownCharacter => "Invalid decimal: unknown character"
  | noDigits => "Invalid decimal: no digits found"
  | tooManyDigits => "Invalid decimal: overflow from too many digits"
  | roundsTooHigh => "Invalid decimal: overflow from mantissa after rounding"
  | badExponent => "Failed to parse"
  | scaleTooLarge exponent =>
    s!"Scale exceeds the maximum precision allowed: {exponent} > {maxScale}"
  | tooLarge => "Number exceeds maximum value that can be represented."

/-- The magnitude with one more digit, a fraction digit after the point; `none` if it does not
fit. -/
def append? (m : Magnitude) (digit : Nat) (afterPoint : Bool) : Option Magnitude :=
  magnitude? (m.mantissa * 10 + digit) (if afterPoint then m.scale + 1 else m.scale)

/-- The magnitude with its last digit raised by one. A mantissa that becomes too large loses a
fraction digit, if it has one. -/
def increment? (m : Magnitude) : Option Magnitude :=
  match magnitude? (m.mantissa + 1) m.scale with
  | some m' => some m'
  | none => if m.scale = 0 then none else magnitude? ((m.mantissa + 5) / 10) (m.scale - 1)

/-- A character among the digits that are rounded away; underscores count as zeros. -/
def droppedDigit (c : Char) : Except Fault Nat :=
  match digitValue? c with
  | some d => .ok d
  | none =>
    if c = '_' then .ok 0 else if c = '.' then .error .twoPoints else .error .unknownCharacter

/-- Rounds at the first of the remaining characters, all of which have to be digits. -/
def round (m : Magnitude) : List Char → Except Fault Magnitude
  | [] => .ok m
  | c :: cs => do
    let digit ← droppedDigit c
    let rounded ←
      if digit < 5 then .ok m else ((increment? m).elim (.error .roundsTooHigh) .ok)
    let _ ← cs.mapM droppedDigit
    return rounded

/-- Reads digits, given whether the point was passed and whether there were digits before. -/
def readDigits (afterPoint hasDigits : Bool) (m : Magnitude) : List Char → Except Fault Magnitude
  | [] => if hasDigits then .ok m else .error .noDigits
  | c :: cs =>
    if afterPoint && m.scale == maxScale then round m (c :: cs)
    else
      match digitValue? c with
      | some digit =>
        match append? m digit afterPoint with
        | some m' => readDigits afterPoint true m' cs
        | none => if afterPoint then round m (c :: cs) else .error .tooManyDigits
      | none =>
        if c = '.' then
          if afterPoint then .error .twoPoints else readDigits true hasDigits m cs
        else if c = '_' then
          if hasDigits then readDigits afterPoint hasDigits m cs else .error .leadingUnderscore
        else .error .unknownCharacter

/-- The magnitude with fewer fraction digits, a half rounded away from zero. -/
def rescale (m : Magnitude) (scale : Nat) : Magnitude :=
  if h : scale < m.scale then
    let unit := powerOfTen (m.scale - scale)
    ⟨m.mantissa / unit + (if unit ≤ 2 * (m.mantissa % unit) then 1 else 0), scale, by
      have hm := m.mantissa_lt
      have hp : 0 < unit := powerOfTen_pos _
      have hd := Nat.div_add_mod m.mantissa unit
      have hq : m.mantissa / unit ≤ unit * (m.mantissa / unit) := Nat.le_mul_of_pos_left _ hp
      split <;> omega, by have := m.scale_le; omega⟩
  else m

/-- The magnitude of no digits. -/
def zero : Magnitude :=
  .whole 0 (by decide)

/-- Reads a numeral without exponent. -/
def readPlain : List Char → Except Fault Decimal
  | [] => .error .empty
  | '-' :: cs => Decimal.ofMagnitude true <$> readDigits false false zero cs
  | '+' :: cs => Decimal.ofMagnitude false <$> readDigits false false zero cs
  | cs => Decimal.ofMagnitude false <$> readDigits false false zero cs

/-- The least number that is too large for an exponent: a one with 32 zero bits. -/
def exponentLimit : Nat := 0x100000000

/-- An unsigned 32-bit number with an optional plus sign. -/
def readExponent (cs : List Char) : Except Fault Nat :=
  let ds := if cs.head? = some '+' then cs.tail else cs
  match ds.mapM digitValue? with
  | some (d :: rest) =>
    let n := (d :: rest).foldl (10 * · + ·) 0
    if n < exponentLimit then .ok n else .error .badExponent
  | _ => .error .badExponent

/-- The number divided by a power of ten. Where the scale would become too large, the last digits
are rounded away first. -/
def shiftDown (d : Decimal) (n : Nat) : Except Fault Decimal :=
  if maxScale < n then .error (.scaleTooLarge n)
  else
    let m := rescale d.magnitude (maxScale - n)
    match magnitude? m.mantissa (m.scale + n) with
    | some m => .ok (.ofMagnitude d.isNegative m)
    | none => .error (.scaleTooLarge n)

/-- The number times a power of ten. -/
def shiftUp (d : Decimal) (n : Nat) : Except Fault Decimal :=
  if n ≤ d.scale then
    match magnitude? d.mantissa (d.scale - n) with
    | some m => .ok (.ofMagnitude d.isNegative m)
    | none => .error .tooLarge
  else if maxScale < n then .error (.scaleTooLarge n)
  else
    match magnitude? (d.mantissa * powerOfTen (n - d.scale)) 0 with
    | some m => .ok (.ofMagnitude d.isNegative m)
    | none => .error .tooLarge

/-- Reads a numeral with an exponent: the part before the first `e` or `E` and the power of ten
after it. -/
def readScientific (cs : List Char) : Except Fault Decimal := do
  let base ← readPlain (cs.takeWhile fun c => c != 'e' && c != 'E')
  match (cs.dropWhile fun c => c != 'e' && c != 'E').tail with
  | '-' :: exponent => shiftDown base (← readExponent exponent)
  | exponent => shiftUp base (← readExponent exponent)

/-- Reads a numeral. -/
def read (cs : List Char) : Except Fault Decimal :=
  match readPlain cs with
  | .ok d => .ok d
  | .error fault =>
    if cs.contains 'e' || cs.contains 'E' then readScientific cs else .error fault

theorem read_eq_ok_of_readPlain {cs : List Char} {d : Decimal} (h : readPlain cs = .ok d) :
    read cs = .ok d := by
  simp [read, h]

/-! ### Normal form -/

/-- The magnitude without trailing fraction zeros. -/
def strip (m : Magnitude) : Magnitude :=
  if h : 0 < m.scale ∧ m.mantissa % 10 = 0 then
    strip ⟨m.mantissa / 10, m.scale - 1, by have := m.mantissa_lt; omega,
      by have := m.scale_le; omega⟩
  else m
termination_by m.scale

/-- The number without trailing fraction zeros. -/
def normalize (d : Decimal) : Decimal :=
  .ofMagnitude d.isNegative (strip d.magnitude)

/-! ### Dividing -/

/-- The whole number nearest to a fraction; of two nearest ones, the even one. -/
def roundHalfEven (numerator denominator : Nat) : Nat :=
  let q := numerator / denominator
  let r := numerator % denominator
  if 2 * r < denominator ∨ (2 * r = denominator ∧ q % 2 = 0) then q else q + 1

/-- The quotient rounded at a scale, unless it is too large. -/
def quotientAt (m n : Magnitude) (scale : Nat) : Option Magnitude :=
  magnitude? (roundHalfEven (m.mantissa * powerOfTen (n.scale + scale))
    (n.mantissa * powerOfTen m.scale)) scale

/-- The quotient of two magnitudes, rounded at the largest scale at which it fits. -/
def quotient? (m n : Magnitude) : Option Magnitude :=
  (List.range (maxScale + 1)).reverse.findSome? (quotientAt m n)

/-- The quotient of two numbers of which the second is not zero; `none` if its whole part does not
fit. -/
def divide? (d e : Decimal) : Option Decimal :=
  (quotient? d.magnitude e.magnitude).map (.ofMagnitude (d.isNegative != e.isNegative))

end Longhand

/-- The library that works on the digits. -/
def DecimalLibrary.longhand : DecimalLibrary where
  text := Longhand.text
  read s := (Longhand.read s.toList).mapError Longhand.Fault.message
  divide? := Longhand.divide?
  normalize := Longhand.normalize

end ParseTree
