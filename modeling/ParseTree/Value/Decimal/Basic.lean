/-!
# Decimal numbers

A decimal number is a whole number of units of a power of ten: a mantissa of at most 96 bits, a
scale of at most 28 fraction digits and a sign. Numbers with different scales may be numerically
equal. How such numbers are written, read and divided is up to a library; whatever needs it takes
the library as an argument.

## Main definitions

* `powerOfTen`: the units of the scales
* `digitValue?`: the value of a decimal digit
* `Magnitude`: mantissa and scale
* `Decimal`: a signed magnitude, where zero has no sign
* `Decimal.SameNumber`: numerical equality
* `DecimalLibrary`: what converters call of a library

## Main results

* `isNegative_ofMagnitude`, `magnitude_ofMagnitude`: the parts of a number made from its parts
-/

namespace ParseTree

/-- Ten to the power of a number. -/
def powerOfTen : Nat → Nat
  | 0 => 1
  | n + 1 => 10 * powerOfTen n

theorem powerOfTen_pos (n : Nat) : 0 < powerOfTen n := by
  induction n with
  | zero => exact Nat.one_pos
  | succ n ih => simp only [powerOfTen]; omega

theorem powerOfTen_add (m n : Nat) : powerOfTen (m + n) = powerOfTen m * powerOfTen n := by
  induction n with
  | zero => simp [powerOfTen]
  | succ n ih => rw [← Nat.add_assoc, powerOfTen, powerOfTen, ih, Nat.mul_left_comm]

/-- The value of a decimal digit of ASCII. -/
def digitValue? (c : Char) : Option Nat :=
  if '0' ≤ c ∧ c ≤ '9' then some (c.toNat - '0'.toNat) else none

/-- The least mantissa that does not fit: a one with 96 zero bits. -/
def mantissaLimit : Nat := 0x1000000000000000000000000

/-- A mantissa and a number of fraction digits. -/
@[ext] structure Magnitude where
  /-- The digits as a whole number. -/
  mantissa : Nat
  /-- How many of the digits are fraction digits. -/
  scale : Nat
  /-- The mantissa fits 96 bits. -/
  mantissa_lt : mantissa < mantissaLimit
  /-- There are at most 28 fraction digits. -/
  scale_le : scale ≤ 28
deriving DecidableEq, Repr

/-- The magnitude of a whole number. -/
def Magnitude.whole (mantissa : Nat) (h : mantissa < mantissaLimit) : Magnitude :=
  ⟨mantissa, 0, h, Nat.zero_le 28⟩

/-- A signed decimal number. -/
@[ext] structure Decimal where
  /-- The number is below zero. -/
  isNegative : Bool
  /-- The absolute value. -/
  magnitude : Magnitude
  /-- Zero has no sign. -/
  mantissa_ne_zero : isNegative = true → magnitude.mantissa ≠ 0
deriving DecidableEq, Repr

namespace Decimal

/-- The number of a sign and a magnitude; the sign of zero is dropped. -/
def ofMagnitude (isNegative : Bool) (m : Magnitude) : Decimal :=
  ⟨isNegative && m.mantissa != 0, m, by simp⟩

/-- The digits as a whole number. -/
abbrev mantissa (d : Decimal) : Nat :=
  d.magnitude.mantissa

/-- The number of fraction digits. -/
abbrev scale (d : Decimal) : Nat :=
  d.magnitude.scale

/-- The number is zero. -/
def isZero (d : Decimal) : Bool :=
  d.mantissa == 0

/-- The mantissa with the sign of the number. -/
def signedMantissa (d : Decimal) : Int :=
  if d.isNegative then -d.mantissa else d.mantissa

/-- Numerical equality, whatever the scales. -/
def SameNumber (d e : Decimal) : Prop :=
  d.signedMantissa * powerOfTen e.scale = e.signedMantissa * powerOfTen d.scale

instance (d e : Decimal) : Decidable (d.SameNumber e) :=
  inferInstanceAs (Decidable (_ = _))

@[simp] theorem magnitude_ofMagnitude (isNegative : Bool) (m : Magnitude) :
    (ofMagnitude isNegative m).magnitude = m := rfl

@[simp] theorem isNegative_ofMagnitude (isNegative : Bool) (m : Magnitude) :
    (ofMagnitude isNegative m).isNegative = (isNegative && m.mantissa != 0) := rfl

theorem ofMagnitude_eq (d : Decimal) : ofMagnitude d.isNegative d.magnitude = d := by
  refine Decimal.ext ?_ rfl
  cases h : d.isNegative with
  | false => simp
  | true => simpa using d.mantissa_ne_zero h

end Decimal

/-- A library of decimal arithmetic, by what converters call of it. -/
structure DecimalLibrary where
  /-- A number in digits, as it is displayed and inspected. -/
  text : Decimal → String
  /-- The number that a text denotes, or the reason why there is none. -/
  read : String → Except String Decimal
  /-- The quotient of two numbers, unless it cannot be had. -/
  divide? : Decimal → Decimal → Option Decimal
  /-- A number in normal form. -/
  normalize : Decimal → Decimal

end ParseTree
