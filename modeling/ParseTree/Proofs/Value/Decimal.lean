import Mathlib.Tactic.LinearCombination
import ParseTree.Proofs.Value.Numeral

/-!
# Decimal numbers and what is relied on in their library

Numbers of different scales can be the same number. One of them has no fraction zero to drop, and it
is the only one. Of a library of decimal arithmetic four things are relied on: numbers are written
with all their digits and read without loss, a quotient that is a decimal number is found, and the
normal form has no fraction zeros.

## Main definitions

* `Decimal.factor`: a sign as a number
* `Decimal.IsLowest`: no fraction digit can be dropped
* `Decimal.IsQuotient`: a number is the quotient of two others
* `DecimalLibrary.WritesAllDigits`, `DecimalLibrary.ReadsExactly`, `DecimalLibrary.DividesExactly`,
  `DecimalLibrary.Normalizes`: what is relied on

## Main results

* `SameNumber.trans`: numerical equality does not depend on scales
* `eq_of_sameNumber`: there is one number without fraction zeros among those that are the same
* `isQuotient_numerator`: a number is the quotient of its digits and a power of ten
-/

namespace ParseTree

theorem natCast_powerOfTen_ne_zero (n : ℕ) : (powerOfTen n : ℤ) ≠ 0 :=
  Int.natCast_ne_zero.mpr (Nat.ne_of_gt (powerOfTen_pos n))

theorem powerOfTen_le_of_le {a b : ℕ} (h : a ≤ b) : powerOfTen a ≤ powerOfTen b := by
  obtain ⟨c, rfl⟩ := Nat.exists_eq_add_of_le h
  rw [powerOfTen_add]
  exact Nat.le_mul_of_pos_right _ (powerOfTen_pos c)

namespace Decimal

variable {d e f : Decimal}

/-! ### Signs -/

theorem natAbs_signedMantissa (d : Decimal) : d.signedMantissa.natAbs = d.mantissa := by
  rw [signedMantissa]
  split_ifs <;> omega

theorem signedMantissa_neg_iff (d : Decimal) : d.signedMantissa < 0 ↔ d.isNegative = true := by
  rw [signedMantissa]
  cases h : d.isNegative with
  | false => simp
  | true =>
    have hne : d.mantissa ≠ 0 := d.mantissa_ne_zero h
    rw [if_pos rfl]
    exact iff_of_true (Int.neg_neg_of_pos (Int.natCast_pos.mpr (Nat.pos_of_ne_zero hne))) rfl

/-- The sign of zero does not matter to the signed mantissa. -/
theorem signedMantissa_ofMagnitude (isNegative : Bool) (m : Magnitude) :
    (ofMagnitude isNegative m).signedMantissa =
      if isNegative then -(m.mantissa : ℤ) else m.mantissa := by
  have hmantissa : (ofMagnitude isNegative m).mantissa = m.mantissa := rfl
  rw [signedMantissa, isNegative_ofMagnitude, hmantissa]
  cases isNegative with
  | false => rfl
  | true =>
    by_cases hzero : m.mantissa = 0
    · simp [hzero]
    · rw [Bool.true_and, if_pos (bne_iff_ne.mpr hzero), if_pos rfl]

/-- The factor by which a sign multiplies a mantissa. -/
def factor (isNegative : Bool) : ℤ :=
  if isNegative then -1 else 1

theorem factor_mul_self (isNegative : Bool) : factor isNegative * factor isNegative = 1 := by
  cases isNegative <;> rfl

theorem factor_bne (b b' : Bool) : factor (b != b') = factor b * factor b' := by
  cases b <;> cases b' <;> rfl

theorem ite_neg_eq_factor_mul (isNegative : Bool) (n : ℤ) :
    (if isNegative then -n else n) = factor isNegative * n := by
  rw [factor, ite_mul, neg_one_mul, one_mul]

theorem signedMantissa_eq_factor_mul (d : Decimal) :
    d.signedMantissa = factor d.isNegative * d.mantissa :=
  ite_neg_eq_factor_mul d.isNegative d.mantissa

theorem ext_signedMantissa (h : d.signedMantissa = e.signedMantissa) (hscale : d.scale = e.scale) :
    d = e := by
  refine Decimal.ext ?_ (Magnitude.ext ?_ hscale)
  · rw [Bool.eq_iff_iff, ← signedMantissa_neg_iff, h, signedMantissa_neg_iff]
  · show d.mantissa = e.mantissa
    rw [← natAbs_signedMantissa, h, natAbs_signedMantissa]

/-! ### The same number -/

theorem SameNumber.symm (h : d.SameNumber e) : e.SameNumber d :=
  Eq.symm h

theorem SameNumber.trans (h : d.SameNumber e) (h' : e.SameNumber f) : d.SameNumber f := by
  rw [SameNumber] at h h' ⊢
  apply mul_right_cancel₀ (natCast_powerOfTen_ne_zero e.scale)
  linear_combination (powerOfTen f.scale : ℤ) * h + (powerOfTen d.scale : ℤ) * h'

/-- The last fraction digit, if there is one, is not zero. -/
def IsLowest (d : Decimal) : Prop :=
  d.scale = 0 ∨ d.mantissa % 10 ≠ 0

/-- A number without fraction zeros has the least scale. -/
theorem scale_le_of_sameNumber (h : d.SameNumber e) (he : e.IsLowest) : e.scale ≤ d.scale := by
  by_contra hlt
  obtain ⟨k, hk⟩ := Nat.exists_eq_add_of_lt (Nat.lt_of_not_le hlt)
  -- otherwise its mantissa is the other one with zeros, of which the last is a fraction digit
  have hsigned : e.signedMantissa = d.signedMantissa * (10 * powerOfTen k : ℕ) := by
    have hpower : powerOfTen e.scale = powerOfTen d.scale * (10 * powerOfTen k) := by
      rw [hk, Nat.add_assoc, powerOfTen_add, powerOfTen]
    rw [SameNumber, hpower, Int.natCast_mul] at h
    apply mul_right_cancel₀ (natCast_powerOfTen_ne_zero d.scale)
    linear_combination -h
  have hmantissa : e.mantissa = d.mantissa * (10 * powerOfTen k) := by
    rw [← natAbs_signedMantissa, hsigned, Int.natAbs_mul, natAbs_signedMantissa, Int.natAbs_natCast]
  rcases he with hscale | hmod
  · omega
  · rw [hmantissa, Nat.mul_left_comm, Nat.mul_mod_right] at hmod
    exact hmod rfl

/-- The same number without fraction zeros is the same decimal number. -/
theorem eq_of_sameNumber (h : d.SameNumber e) (hd : d.IsLowest) (he : e.IsLowest) : d = e := by
  have hscale : d.scale = e.scale :=
    Nat.le_antisymm (scale_le_of_sameNumber h.symm hd) (scale_le_of_sameNumber h he)
  refine ext_signedMantissa ?_ hscale
  rw [SameNumber, hscale] at h
  exact mul_right_cancel₀ (natCast_powerOfTen_ne_zero e.scale) h

/-! ### Quotients -/

/-- The first number is the second one divided by the third. -/
def IsQuotient (q d e : Decimal) : Prop :=
  q.signedMantissa * e.signedMantissa * powerOfTen d.scale =
    d.signedMantissa * powerOfTen (q.scale + e.scale)

theorem IsQuotient.mantissa {q : Decimal} (h : q.IsQuotient d e) :
    q.mantissa * e.mantissa * powerOfTen d.scale =
      d.mantissa * powerOfTen (q.scale + e.scale) := by
  have habs := congrArg Int.natAbs h
  simp only [Int.natAbs_mul, natAbs_signedMantissa, Int.natAbs_natCast] at habs
  exact habs

/-- The power of ten of a scale fits a mantissa. -/
theorem powerOfTen_scale_lt (d : Decimal) : powerOfTen d.scale < mantissaLimit :=
  Nat.lt_of_le_of_lt (powerOfTen_le_of_le d.magnitude.scale_le) (by decide)

/-- All digits as a whole number. -/
def numerator (d : Decimal) : Decimal :=
  .ofMagnitude d.isNegative (.whole d.mantissa d.magnitude.mantissa_lt)

/-- The power of ten that the digits are over. -/
def denominator (d : Decimal) : Decimal :=
  .ofMagnitude false (.whole (powerOfTen d.scale) d.powerOfTen_scale_lt)

/-- A number is the quotient of its digits and the power of ten. -/
theorem isQuotient_numerator (d : Decimal) : d.IsQuotient d.numerator d.denominator := by
  have hnumerator : d.numerator.signedMantissa = d.signedMantissa :=
    signedMantissa_ofMagnitude d.isNegative _
  have hdenominator : d.denominator.signedMantissa = powerOfTen d.scale :=
    signedMantissa_ofMagnitude false _
  rw [IsQuotient, hnumerator, hdenominator]
  exact mul_one _

theorem isZero_denominator (d : Decimal) : d.denominator.isZero = false :=
  beq_eq_false_iff_ne.mpr (Nat.ne_of_gt (powerOfTen_pos d.scale))

/-- The digits are the numeral of a whole number. -/
theorem spells_numerator (d : Decimal) :
    (Numeral.ofNat d.isNegative d.mantissa).Spells d.numerator := by
  refine ⟨?_, (Numeral.mantissa_ofNat _ _).symm, rfl⟩
  rw [Numeral.mantissa_ofNat]
  rfl

/-- So is the power of ten. -/
theorem spells_denominator (d : Decimal) :
    (Numeral.ofNat false (powerOfTen d.scale)).Spells d.denominator :=
  ⟨rfl, (Numeral.mantissa_ofNat _ _).symm, rfl⟩

/-- What is written of a number with its sign is the numeral of its digits. -/
theorem toList_toString_signedMantissa (d : Decimal) :
    (toString d.signedMantissa).toList = (Numeral.ofNat d.isNegative d.mantissa).text := by
  have hneg : decide (d.signedMantissa < 0) = d.isNegative := by
    rw [Bool.eq_iff_iff, decide_eq_true_iff, signedMantissa_neg_iff]
  rw [Numeral.toList_toString_int, hneg, natAbs_signedMantissa]

end Decimal

/-! ### What is relied on -/

namespace DecimalLibrary

/-- Numbers are displayed with all digits of their scale. -/
def WritesAllDigits (library : DecimalLibrary) : Prop :=
  ∀ d, ∃ n : Numeral, n.Spells d ∧ library.text d = String.ofList n.text

/-- Numerals are read without loss if their digits fit 96 bits and at most 28 of them are fraction
digits, that is, if they spell a decimal number. -/
def ReadsExactly (library : DecimalLibrary) : Prop :=
  ∀ (n : Numeral) (d : Decimal), n.Spells d → library.read (String.ofList n.text) = .ok d

/-- A quotient is found and exact if it is a decimal number. -/
def DividesExactly (library : DecimalLibrary) : Prop :=
  ∀ d e q : Decimal, e.isZero = false → q.IsQuotient d e →
    ∃ r, library.divide? d e = some r ∧ r.SameNumber q

/-- The normal form is the same number without trailing fraction zeros. -/
def Normalizes (library : DecimalLibrary) : Prop :=
  ∀ d, (library.normalize d).SameNumber d ∧ (library.normalize d).IsLowest

variable {library : DecimalLibrary} {d e : Decimal}

/-- The normal form is the only number without fraction zeros that is the same. -/
theorem Normalizes.eq (h : library.Normalizes) (hd : d.SameNumber e) (he : e.IsLowest) :
    library.normalize d = e :=
  Decimal.eq_of_sameNumber ((h d).1.trans hd) (h d).2 he

end DecimalLibrary

end ParseTree
