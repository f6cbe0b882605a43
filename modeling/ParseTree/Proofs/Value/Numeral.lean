import Mathlib.Data.Int.Notation
import Mathlib.Data.List.Basic
import ParseTree.Value.Converter

/-!
# Numerals

A plain numeral has a sign, whole digits and fraction digits. It spells a decimal number if its
digits together are the mantissa, whatever zeros it starts with, and its fraction digits are as many
as the scale tells. Whole numbers are written as numerals without fraction digits.

## Main definitions

* `Numeral`: the plain numerals, with `Numeral.text` and `Numeral.mantissa`
* `Numeral.Spells`: the numeral has the digits of a decimal number

## Main results

* `trim_text`: no character of a numeral is blank
* `toList_toString_int`, `readInt?_text`: whole numbers are written and read as numerals
-/

namespace ParseTree

/-! ### Digits -/

theorem digitValue?_of_isDigit {c : Char} (h : c.isDigit = true) :
    digitValue? c = some (c.toNat - '0'.toNat) := by
  rw [Char.isDigit, Bool.and_eq_true, decide_eq_true_iff, decide_eq_true_iff] at h
  exact if_pos ⟨h.1, h.2⟩

theorem mapM_digitValue? {ds : List Char} (h : ∀ c ∈ ds, c.isDigit = true) :
    ds.mapM digitValue? = some (ds.map fun c => c.toNat - '0'.toNat) := by
  induction ds with
  | nil => rfl
  | cons c ds ih =>
    obtain ⟨hc, hds⟩ := List.forall_mem_cons.mp h
    rw [List.mapM_cons, digitValue?_of_isDigit hc, ih hds]
    rfl

theorem foldl_eq_ofDigitChars (ds : List Char) :
    (ds.map fun c => c.toNat - '0'.toNat).foldl (10 * · + ·) 0 = Nat.ofDigitChars 10 ds 0 := by
  rw [List.foldl_map, Nat.ofDigitChars_eq_foldl]

/-- Further digits make a number no smaller. -/
theorem le_ofDigitChars (ds : List Char) (n : ℕ) : n ≤ Nat.ofDigitChars 10 ds n := by
  rw [Nat.ofDigitChars_eq_ofDigitChars_zero]
  exact Nat.le_add_right_of_le (Nat.le_mul_of_pos_left n (Nat.pow_pos (by decide)))

theorem ne_of_isDigit {c d : Char} (h : c.isDigit = true) (hd : d.isDigit = false) : c ≠ d := by
  rintro rfl
  rw [hd] at h
  cases h

/-- Digits are not blank: their codes are between those of the blanks. -/
theorem not_isBlank_of_isDigit {c : Char} (h : c.isDigit = true) : ¬ Text.IsBlank c := by
  rw [Char.isDigit, Bool.and_eq_true, decide_eq_true_iff, decide_eq_true_iff] at h
  have hlow : 48 ≤ c.toNat := UInt32.le_iff_toNat_le.mp h.1
  have hhigh : c.toNat ≤ 57 := UInt32.le_iff_toNat_le.mp h.2
  rw [Text.IsBlank]
  omega

/-! ### Numerals -/

/-- A numeral without exponent. -/
structure Numeral where
  /-- There is a minus sign. -/
  isNegative : Bool
  /-- The digits in front of the point. -/
  whole : List Char
  /-- The digits after the point; without them there is no point. -/
  fraction : List Char
  /-- There are whole digits. -/
  whole_ne_nil : whole ≠ []
  /-- The digits are decimal. -/
  isDigit : ∀ c ∈ whole ++ fraction, c.isDigit = true

namespace Numeral

variable {n : Numeral} {d : Decimal} {c : Char}

/-- The numeral without its sign. -/
def unsigned (n : Numeral) : List Char :=
  n.whole ++ if n.fraction = [] then [] else '.' :: n.fraction

/-- The numeral in characters. -/
def text (n : Numeral) : List Char :=
  if n.isNegative then '-' :: n.unsigned else n.unsigned

/-- All digits as a whole number. -/
def mantissa (n : Numeral) : ℕ :=
  Nat.ofDigitChars 10 (n.whole ++ n.fraction) 0

/-- The numeral has the digits of the number, all of its fraction digits included; the sign of zero
is of no account. -/
structure Spells (n : Numeral) (d : Decimal) : Prop where
  /-- The signs agree. -/
  isNegative : d.isNegative = (n.isNegative && n.mantissa != 0)
  /-- The digits are the same whole number. -/
  mantissa : d.mantissa = n.mantissa
  /-- The fraction digits are as many. -/
  scale : d.scale = n.fraction.length

theorem mem_unsigned (h : c ∈ n.unsigned) : c.isDigit = true ∨ c = '.' := by
  rw [unsigned, List.mem_append] at h
  rcases h with h | h
  · exact Or.inl (n.isDigit c (List.mem_append_left _ h))
  · split_ifs at h
    · cases h
    · rcases List.mem_cons.mp h with h | h
      · exact Or.inr h
      · exact Or.inl (n.isDigit c (List.mem_append_right _ h))

theorem mem_text (h : c ∈ n.text) : c.isDigit = true ∨ c = '.' ∨ c = '-' := by
  rw [text] at h
  split_ifs at h
  · rcases List.mem_cons.mp h with h | h
    · exact Or.inr (Or.inr h)
    · exact (mem_unsigned h).imp_right Or.inl
  · exact (mem_unsigned h).imp_right Or.inl

theorem slash_notMem_text (n : Numeral) : '/' ∉ n.text := by
  intro h
  rcases mem_text h with h | h | h
  · exact ne_of_isDigit h rfl rfl
  · cases h
  · cases h

/-- No character of a numeral is blank, so none is trimmed away. -/
theorem trim_text (n : Numeral) : Text.trim n.text = n.text := by
  have hblank : ∀ c ∈ n.text, ¬ decide (Text.IsBlank c) = true := by
    intro c hc
    rw [decide_eq_true_iff]
    rcases mem_text hc with h | rfl | rfl
    · exact not_isBlank_of_isDigit h
    · decide
    · decide
  have hkeep (cs : List Char) (hcs : ∀ c ∈ cs, c ∈ n.text) :
      cs.dropWhile (fun c => decide (Text.IsBlank c)) = cs := by
    cases cs with
    | nil => rfl
    | cons c cs => exact List.dropWhile_cons_of_neg (hblank c (hcs c List.mem_cons_self))
  rw [Text.trim, hkeep _ fun _ => id, hkeep _ fun _ => List.mem_reverse.mp, List.reverse_reverse]

/-! ### Writing -/

theorem isDigit_toDigits (n : ℕ) : ∀ c ∈ Nat.toDigits 10 n, c.isDigit = true := fun _ hc =>
  Nat.isDigit_of_mem_toDigits (by decide) (by decide) hc

/-! ### Whole numbers -/

/-- The numeral of a whole number. -/
def ofNat (isNegative : Bool) (n : ℕ) : Numeral :=
  ⟨isNegative, Nat.toDigits 10 n, [], Nat.toDigits_ne_nil, by
    rw [List.append_nil]
    exact isDigit_toDigits n⟩

theorem mantissa_ofNat (isNegative : Bool) (n : ℕ) : (ofNat isNegative n).mantissa = n := by
  rw [mantissa, ofNat, List.append_nil, Nat.ofDigitChars_ten_toDigits]

theorem text_ofNat (isNegative : Bool) (n : ℕ) : (ofNat isNegative n).text =
    if isNegative then '-' :: Nat.toDigits 10 n else Nat.toDigits 10 n := by
  have hunsigned : (ofNat isNegative n).unsigned = Nat.toDigits 10 n := List.append_nil _
  rw [text, hunsigned]
  rfl

theorem toList_toString_nat (n : ℕ) : (toString n).toList = (ofNat false n).text := by
  rw [Nat.toString_eq_repr, Nat.toList_repr, text_ofNat, if_neg Bool.false_ne_true]

theorem toList_toString_int (a : ℤ) :
    (toString a).toList = (ofNat (decide (a < 0)) a.natAbs).text := by
  rw [Int.toString_eq_repr, Int.repr_eq_if, text_ofNat]
  split_ifs with hge hlt hlt
  · rw [decide_eq_true_iff] at hlt
    omega
  · rw [Nat.toList_repr, show a.toNat = a.natAbs by omega]
  · rw [String.toList_append, Nat.toList_repr, show (-a).toNat = a.natAbs by omega]
    rfl
  · rw [decide_eq_true_iff] at hlt
    omega

theorem readDigits?_of_isDigit {ds : List Char} (hne : ds ≠ [])
    (hds : ∀ c ∈ ds, c.isDigit = true) :
    Converter.readInt?.readDigits? ds = some (Nat.ofDigitChars 10 ds 0) := by
  rw [Converter.readInt?.readDigits?, List.isEmpty_eq_false_iff.mpr hne,
    if_neg Bool.false_ne_true, mapM_digitValue? hds, Option.map_some, foldl_eq_ofDigitChars]

/-- A whole number is read as it is written. -/
theorem readInt?_text (isNegative : Bool) (n : ℕ) : Converter.readInt? (ofNat isNegative n).text =
    some (if isNegative then -(n : ℤ) else (n : ℤ)) := by
  have hread : Converter.readInt?.readDigits? (Nat.toDigits 10 n) = some n := by
    rw [readDigits?_of_isDigit Nat.toDigits_ne_nil (isDigit_toDigits n),
      Nat.ofDigitChars_ten_toDigits]
  rw [text_ofNat]
  cases isNegative with
  | true =>
    rw [if_pos rfl, Converter.readInt?.eq_1, hread]
    rfl
  | false =>
    obtain ⟨c, ds, hcons⟩ := List.exists_cons_of_ne_nil (Nat.toDigits_ne_nil (n := n) (b := 10))
    have hc : c.isDigit = true := isDigit_toDigits n c (hcons ▸ List.mem_cons_self)
    rw [hcons] at hread
    rw [if_neg Bool.false_ne_true, hcons, Converter.readInt?.eq_3, hread]
    · rfl
    · exact fun _ hminus => ne_of_isDigit hc rfl (List.cons.inj hminus).1
    · exact fun _ hplus => ne_of_isDigit hc rfl (List.cons.inj hplus).1

end Numeral

end ParseTree
