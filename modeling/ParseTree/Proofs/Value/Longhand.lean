import Mathlib.Tactic.Ring
import Mathlib.Tactic.SplitIfs
import ParseTree.Proofs.Value.Decimal
import ParseTree.Value.Decimal.Longhand

/-!
# Longhand arithmetic is exact

The library that works on the digits has what is relied on. It writes all digits. It reads them one
after the other, so no digit is lost as long as there is room for all of them. It divides at the
largest scale at which the quotient fits, so a quotient that is a decimal number is found with
fraction zeros after it.

## Main definitions

* `Longhand.Padded`: a magnitude with fraction zeros appended

## Main results

* `writesAllDigits_longhand`, `readsExactly_longhand`, `dividesExactly_longhand`,
  `normalizes_longhand`: what is relied on
-/

namespace ParseTree.Longhand

variable {m m' n q : Magnitude} {d e : Decimal} {numeral : Numeral} {ds : List Char}
  {afterPoint : Bool}

/-! ### Writing -/

/-- The digits of a number, cut in front of the fraction digits. -/
theorem exists_digits (m : Magnitude) : ∃ whole fraction : List Char, whole ≠ [] ∧
    (∀ c ∈ whole ++ fraction, c.isDigit = true) ∧
    Nat.ofDigitChars 10 (whole ++ fraction) 0 = m.mantissa ∧ fraction.length = m.scale ∧
    digits m = whole ++ if fraction = [] then [] else '.' :: fraction := by
  obtain ⟨padded, hpadded⟩ : ∃ padded, padded = List.replicate
      (m.scale + 1 - (Nat.toDigits 10 m.mantissa).length) '0' ++ Nat.toDigits 10 m.mantissa :=
    ⟨_, rfl⟩
  have hlength : m.scale < padded.length := by
    rw [hpadded, List.length_append, List.length_replicate]
    omega
  have hfraction : (padded.drop (padded.length - m.scale)).length = m.scale := by
    rw [List.length_drop]
    omega
  refine ⟨padded.take (padded.length - m.scale), padded.drop (padded.length - m.scale),
    ?_, ?_, ?_, hfraction, ?_⟩
  · rw [ne_eq, ← List.length_eq_zero_iff, List.length_take]
    omega
  · rw [List.take_append_drop, hpadded, List.forall_mem_append]
    refine ⟨fun c hc => ?_, Numeral.isDigit_toDigits m.mantissa⟩
    rw [(List.mem_replicate.mp hc).2]
    rfl
  · rw [List.take_append_drop, hpadded, Nat.ofDigitChars_append, Nat.ofDigitChars_replicate_zero,
      Nat.mul_zero, Nat.ofDigitChars_ten_toDigits]
  · rw [digits, ← hpadded]
    by_cases hzero : m.scale = 0
    · rw [if_pos hzero, if_pos (List.length_eq_zero_iff.mp (hfraction.trans hzero)),
        List.append_nil]
    · rw [if_neg hzero, if_neg fun hnil => hzero (hfraction ▸ List.length_eq_zero_iff.mpr hnil)]

/-- A number is written as a numeral that spells it. -/
theorem writesAllDigits_longhand : DecimalLibrary.longhand.WritesAllDigits := by
  intro d
  obtain ⟨whole, fraction, hne, hisDigit, hmantissa, hscale, hdigits⟩ := exists_digits d.magnitude
  refine ⟨⟨d.isNegative, whole, fraction, hne, hisDigit⟩, ⟨?_, hmantissa.symm, hscale.symm⟩, ?_⟩
  · rw [Numeral.mantissa, hmantissa]
    cases hneg : d.isNegative with
    | false => rfl
    | true => exact (bne_iff_ne.mpr (d.mantissa_ne_zero hneg)).symm
  · show text d = _
    rw [text, characters, hdigits]
    rfl

/-! ### Reading -/

/-- One more digit, if there is room for it. -/
theorem exists_append {digit : ℕ} (hmantissa : m.mantissa * 10 + digit < mantissaLimit)
    (hscale : (if afterPoint then m.scale + 1 else m.scale) ≤ 28) :
    ∃ m', append? m digit afterPoint = some m' ∧ m'.mantissa = m.mantissa * 10 + digit ∧
      m'.scale = if afterPoint then m.scale + 1 else m.scale :=
  ⟨⟨_, _, hmantissa, hscale⟩, magnitude?_eq_some_iff.mpr ⟨rfl, rfl⟩, rfl, rfl⟩

/-- Digits in front of others are read first, if there is room for them. -/
theorem readDigits_append (hds : ∀ c ∈ ds, c.isDigit = true) (hasDigits : Bool)
    (hmantissa : m'.mantissa = Nat.ofDigitChars 10 ds m.mantissa)
    (hscale : m'.scale = if afterPoint then m.scale + ds.length else m.scale) (cs : List Char) :
    readDigits afterPoint hasDigits m (ds ++ cs) =
      readDigits afterPoint (hasDigits || !ds.isEmpty) m' cs := by
  induction ds generalizing m hasDigits with
  | nil =>
    obtain rfl : m' = m := by
      refine Magnitude.ext (by simpa using hmantissa) ?_
      rw [hscale, List.length_nil, Nat.add_zero, ite_self]
    rw [List.nil_append, List.isEmpty_nil, Bool.not_true, Bool.or_false]
  | cons c ds ih =>
    obtain ⟨hc, hds⟩ := List.forall_mem_cons.mp hds
    rw [Nat.ofDigitChars_cons, Nat.mul_comm] at hmantissa
    rw [List.length_cons] at hscale
    -- The number that is read in the end has room for the digits, so there is room for this one.
    have hlt : m.mantissa * 10 + (c.toNat - '0'.toNat) < mantissaLimit :=
      Nat.lt_of_le_of_lt (le_ofDigitChars ds _) (hmantissa ▸ m'.mantissa_lt)
    have hle : (if afterPoint then m.scale + 1 else m.scale) ≤ 28 := by
      have hle' := m'.scale_le
      split_ifs at hscale ⊢ <;> omega
    have hroom : ¬ (afterPoint && m.scale == maxScale) = true := by
      have hle' := m'.scale_le
      rw [Bool.and_eq_true, beq_iff_eq, maxScale]
      rintro ⟨rfl, hfull⟩
      rw [if_pos rfl] at hscale
      omega
    obtain ⟨m₁, happend, hmantissa₁, hscale₁⟩ := exists_append hlt hle
    rw [← hmantissa₁] at hmantissa
    have hscale' : m'.scale = if afterPoint then m₁.scale + ds.length else m₁.scale := by
      split_ifs at hscale hscale₁ ⊢ <;> omega
    rw [List.cons_append, readDigits, if_neg hroom, digitValue?_of_isDigit hc]
    dsimp only
    rw [happend]
    dsimp only
    rw [ih hds _ hmantissa hscale', List.isEmpty_cons, Bool.true_or, Bool.not_false, Bool.or_true]

/-- The digits are read as the magnitude that they spell. -/
theorem readDigits_unsigned (h : numeral.Spells d) :
    readDigits false false zero numeral.unsigned = .ok d.magnitude := by
  obtain ⟨hwhole, hfraction⟩ := List.forall_mem_append.mp numeral.isDigit
  have hmantissa : d.mantissa =
      Nat.ofDigitChars 10 numeral.fraction (Nat.ofDigitChars 10 numeral.whole 0) := by
    rw [h.mantissa, Numeral.mantissa, Nat.ofDigitChars_append]
  have hlt : Nat.ofDigitChars 10 numeral.whole 0 < mantissaLimit :=
    Nat.lt_of_le_of_lt (le_ofDigitChars numeral.fraction _) (hmantissa ▸ d.magnitude.mantissa_lt)
  obtain ⟨m, hm, hzero⟩ : ∃ m : Magnitude,
      m.mantissa = Nat.ofDigitChars 10 numeral.whole 0 ∧ m.scale = 0 :=
    ⟨.whole _ hlt, rfl, rfl⟩
  have hdigits : (false || !numeral.whole.isEmpty) = true := by
    rw [Bool.false_or, Bool.not_eq_true', List.isEmpty_eq_false_iff]
    exact numeral.whole_ne_nil
  rw [Numeral.unsigned, readDigits_append hwhole false hm hzero, hdigits]
  rw [← hm] at hmantissa
  have hscale := h.scale
  split_ifs with hnil
  · rw [hnil, List.length_nil] at hscale
    rw [hnil, Nat.ofDigitChars_nil] at hmantissa
    exact congrArg Except.ok (Magnitude.ext hmantissa.symm (hzero.trans hscale.symm))
  · have hread : readDigits true true m (numeral.fraction ++ []) = _ :=
      readDigits_append hfraction true hmantissa
        (by rw [if_pos rfl, hzero, Nat.zero_add]; exact hscale) []
    rw [List.append_nil] at hread
    exact hread

theorem ofMagnitude_of_spells (h : numeral.Spells d) :
    Decimal.ofMagnitude numeral.isNegative d.magnitude = d := by
  refine Decimal.ext ?_ rfl
  rw [Decimal.isNegative_ofMagnitude, h.isNegative, ← h.mantissa]

/-- A numeral is read as the number that it spells. -/
theorem readPlain_text (h : numeral.Spells d) : readPlain numeral.text = .ok d := by
  have hread := readDigits_unsigned h
  have hd := ofMagnitude_of_spells h
  rw [Numeral.text]
  split_ifs with hneg
  · rw [hneg] at hd
    rw [readPlain, hread]
    exact congrArg Except.ok hd
  · rw [Bool.not_eq_true] at hneg
    rw [hneg] at hd
    obtain ⟨c, whole, hwhole⟩ := List.exists_cons_of_ne_nil numeral.whole_ne_nil
    have hc : c.isDigit = true := numeral.isDigit c (by rw [hwhole]; exact List.mem_cons_self)
    have hcons : numeral.unsigned =
        c :: (whole ++ if numeral.fraction = [] then [] else '.' :: numeral.fraction) := by
      rw [Numeral.unsigned, hwhole, List.cons_append]
    rw [hcons] at hread ⊢
    rw [readPlain.eq_4, hread]
    · exact congrArg Except.ok hd
    · exact fun hnil => absurd hnil (List.cons_ne_nil _ _)
    · exact fun _ hminus => ne_of_isDigit hc rfl (List.cons.inj hminus).1
    · exact fun _ hplus => ne_of_isDigit hc rfl (List.cons.inj hplus).1

theorem readsExactly_longhand : DecimalLibrary.longhand.ReadsExactly := by
  intro numeral d h
  show (read (String.ofList numeral.text).toList).mapError Fault.message = .ok d
  rw [String.toList_ofList, read_eq_ok_of_readPlain (readPlain_text h)]
  rfl

/-! ### Fraction zeros -/

/-- Fraction zeros are appended to a magnitude. -/
def Padded (q m : Magnitude) : Prop :=
  ∃ zeros, m.mantissa = q.mantissa * powerOfTen zeros ∧ m.scale = q.scale + zeros

/-- Only fraction zeros are dropped. -/
theorem padded_strip (m : Magnitude) : Padded (strip m) m := by
  fun_induction strip m with
  | case1 m h ih =>
    obtain ⟨zeros, hmantissa, hscale⟩ := ih
    dsimp only at hmantissa hscale
    refine ⟨zeros + 1, ?_, ?_⟩
    · rw [powerOfTen, Nat.mul_left_comm, ← hmantissa]
      omega
    · omega
  | case2 m h => exact ⟨0, (Nat.mul_one _).symm, rfl⟩

theorem isLowest_normalize (d : Decimal) : (normalize d).IsLowest := by
  show (strip d.magnitude).scale = 0 ∨ (strip d.magnitude).mantissa % 10 ≠ 0
  fun_induction strip d.magnitude with
  | case1 m h ih => exact ih
  | case2 m h => omega

/-- Numbers of one sign are the same if their magnitudes differ in fraction zeros only. -/
theorem sameNumber_of_padded (isNegative : Bool) (h : Padded q m) :
    (Decimal.ofMagnitude isNegative m).SameNumber (.ofMagnitude isNegative q) := by
  obtain ⟨zeros, hmantissa, hscale⟩ := h
  have hpower : powerOfTen m.scale = powerOfTen q.scale * powerOfTen zeros := by
    rw [hscale, powerOfTen_add]
  show (Decimal.ofMagnitude isNegative m).signedMantissa * powerOfTen q.scale =
    (Decimal.ofMagnitude isNegative q).signedMantissa * powerOfTen m.scale
  rw [Decimal.signedMantissa_ofMagnitude, Decimal.signedMantissa_ofMagnitude, hmantissa, hpower,
    Int.natCast_mul, Int.natCast_mul]
  split_ifs <;> ring

theorem normalizes_longhand : DecimalLibrary.longhand.Normalizes := by
  intro d
  refine ⟨?_, isLowest_normalize d⟩
  have hsame := sameNumber_of_padded d.isNegative (padded_strip d.magnitude)
  rw [d.ofMagnitude_eq] at hsame
  exact hsame.symm

/-! ### Exact quotients -/

theorem roundHalfEven_mul (a : ℕ) {b : ℕ} (hb : 0 < b) : roundHalfEven (a * b) b = a := by
  rw [roundHalfEven, Nat.mul_div_cancel a hb, Nat.mul_mod_left]
  exact if_pos (Or.inl hb)

/-- A search from above ends no lower than where something is found. -/
theorem exists_findSome?_reverse_range {α : Type} {f : ℕ → Option α} {bound i : ℕ} {a : α}
    (hi : i < bound) (h : f i = some a) :
    ∃ j b, i ≤ j ∧ f j = some b ∧ (List.range bound).reverse.findSome? f = some b := by
  induction bound with
  | zero => exact absurd hi (Nat.not_lt_zero i)
  | succ bound ih =>
    rw [List.range_succ, List.reverse_concat, List.findSome?_cons]
    cases hf : f bound with
    | some b => exact ⟨bound, b, Nat.le_of_lt_succ hi, hf, rfl⟩
    | none =>
      refine ih (Nat.lt_of_le_of_ne (Nat.le_of_lt_succ hi) ?_)
      rintro rfl
      rw [hf] at h
      cases h

/-- If the quotient of two magnitudes is a magnitude, then the division gives this magnitude, with
as many fraction zeros as fit. -/
theorem exists_quotient? (hn : n.mantissa ≠ 0)
    (h : m.mantissa * powerOfTen (n.scale + q.scale) =
      q.mantissa * (n.mantissa * powerOfTen m.scale)) :
    ∃ q', quotient? m n = some q' ∧ Padded q q' := by
  have hpos : 0 < n.mantissa * powerOfTen m.scale :=
    Nat.mul_pos (Nat.pos_of_ne_zero hn) (powerOfTen_pos _)
  -- From the scale of the quotient on, nothing has to be rounded.
  have hexact (zeros : ℕ) : quotientAt m n (q.scale + zeros) =
      magnitude? (q.mantissa * powerOfTen zeros) (q.scale + zeros) := by
    rw [quotientAt, ← Nat.add_assoc, powerOfTen_add, ← Nat.mul_assoc, h, Nat.mul_right_comm,
      roundHalfEven_mul _ hpos]
  have hself : quotientAt m n q.scale = some q := by
    refine (hexact 0).trans (magnitude?_eq_some_iff.mpr ⟨?_, rfl⟩)
    rw [powerOfTen, Nat.mul_one]
  obtain ⟨scale, q', hle, hq', hfind⟩ :=
    exists_findSome?_reverse_range (Nat.lt_succ_of_le q.scale_le) hself
  obtain ⟨zeros, rfl⟩ := Nat.exists_eq_add_of_le hle
  rw [hexact, magnitude?_eq_some_iff] at hq'
  exact ⟨q', hfind, zeros, hq'⟩

/-- The sign of a quotient follows from those of the two numbers. -/
theorem ofMagnitude_of_isQuotient {q : Decimal} (he : e.mantissa ≠ 0) (h : q.IsQuotient d e) :
    Decimal.ofMagnitude (d.isNegative != e.isNegative) q.magnitude = q := by
  have habs : (q.mantissa * e.mantissa * powerOfTen d.scale : ℤ) =
      d.mantissa * powerOfTen (q.scale + e.scale) := by
    exact_mod_cast h.mantissa
  have hne : (e.mantissa * powerOfTen d.scale : ℤ) ≠ 0 :=
    mul_ne_zero (Int.natCast_ne_zero.mpr he) (natCast_powerOfTen_ne_zero _)
  have hsquare := Decimal.factor_mul_self e.isNegative
  refine Decimal.ext_signedMantissa ?_ rfl
  apply mul_right_cancel₀ hne
  rw [Decimal.signedMantissa_ofMagnitude, Decimal.ite_neg_eq_factor_mul, Decimal.factor_bne]
  rw [Decimal.IsQuotient, d.signedMantissa_eq_factor_mul, e.signedMantissa_eq_factor_mul] at h
  -- The equation of the quotient times the sign of the divisor, which is its own inverse.
  linear_combination Decimal.factor d.isNegative * Decimal.factor e.isNegative * habs -
    Decimal.factor e.isNegative * h + q.signedMantissa * e.mantissa * powerOfTen d.scale * hsquare

theorem dividesExactly_longhand : DecimalLibrary.longhand.DividesExactly := by
  intro d e q hzero h
  have hne : e.mantissa ≠ 0 := beq_eq_false_iff_ne.mp hzero
  have hmantissa : d.mantissa * powerOfTen (e.scale + q.scale) =
      q.mantissa * (e.mantissa * powerOfTen d.scale) := by
    rw [Nat.add_comm, ← h.mantissa, Nat.mul_assoc]
  obtain ⟨m, hm, hpadded⟩ := exists_quotient? hne hmantissa
  refine ⟨.ofMagnitude (d.isNegative != e.isNegative) m, ?_, ?_⟩
  · show divide? d e = _
    rw [divide?, hm]
    rfl
  · have hsame := sameNumber_of_padded (d.isNegative != e.isNegative) hpadded
    rwa [ofMagnitude_of_isQuotient hne h] at hsame

end ParseTree.Longhand
