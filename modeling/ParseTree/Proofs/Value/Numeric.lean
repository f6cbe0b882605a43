import Mathlib.Data.List.TakeWhile
import ParseTree.Proofs.Value.Longhand

/-!
# Numbers that are written and read again

Whole numbers and decimal numbers are read as what was written. A decimal number is written as a
fraction over a power of ten, and the fraction is read by dividing: the quotient is exact, since the
number itself is one of the numbers that the division can give. Which of the equal numbers it gives
is of no account, since the normal form is taken of it.

## Main results

* `readDecimal_text`: a numeral is read as the number that it spells
* `readFraction_fractionText`: what is read from a fraction that was written
* `toText_bind_toValue_numeric`: numbers are read as what was written
-/

namespace ParseTree

/-- The least number that does not fit a signed word of 128 bits. -/
def wordLimit : ℕ := 0x80000000000000000000000000000000

namespace Converter

variable {library : DecimalLibrary} {d e q : Decimal} {text : String} {num den : List Char}

/-! ### Whole numbers -/

/-- A whole number of 64 bits is read as it is written. -/
theorem readInt64?_toString (n : Int64) : readInt64? (toString n.toInt).toList = some n := by
  have hread : readInt? (toString n.toInt).toList = some n.toInt := by
    rw [Numeral.toList_toString_int, Numeral.readInt?_text]
    congr 1
    simp only [decide_eq_true_iff]
    split_ifs with h
    · omega
    · omega
  rw [readInt64?, hread]
  show (if _ then some (Int64.ofInt n.toInt) else none) = _
  rw [if_pos ⟨n.minValue_le_toInt, n.toInt_le⟩, Int64.ofInt_toInt]

theorem toText_bind_toValue_int (library : DecimalLibrary) (n : Int64) :
    int.toText library (.int n) >>= int.toValue library = .ok (.int n) := by
  have hread := readInt64?_toString n
  -- the empty text is refused before any digit is read, but it has no digits either
  have hempty : ¬ (toString n.toInt).isEmpty = true := by
    intro h
    rw [String.isEmpty_iff.mp h] at hread
    cases hread
  show toValue library int (toString n.toInt) = _
  rw [toValue, if_neg hempty, hread]
  rfl

/-! ### Decimal numbers -/

/-- The text of a numeral is read as the number that it spells. -/
theorem readDecimal_text (hread : library.ReadsExactly) {n : Numeral} (h : n.Spells d) :
    readDecimal library (String.ofList n.text) = .ok d := by
  rw [readDecimal, String.toList_ofList, n.trim_text, hread n d h]
  rfl

theorem readDecimal_libraryText (htext : library.WritesAllDigits) (hread : library.ReadsExactly)
    (d : Decimal) : readDecimal library (library.text d) = .ok d := by
  obtain ⟨n, hspells, hn⟩ := htext d
  rw [hn]
  exact readDecimal_text hread hspells

/-! ### Fractions -/

theorem readFraction_of_plain (h : '/' ∉ text.toList) (hd : readDecimal library text = .ok d) :
    readFraction library text = .ok (library.normalize d) := by
  have hdrop : text.toList.dropWhile (· != '/') = [] := by
    rw [List.dropWhile_eq_nil_iff]
    intro c hc
    exact bne_iff_ne.mpr fun heq => h (heq ▸ hc)
  rw [readFraction, hdrop, hd]
  rfl

theorem readFraction_of_quotient (h : text.toList = num ++ '/' :: den) (hnum : '/' ∉ num)
    (hd : readDecimal library (String.ofList num) = .ok d)
    (he : readDecimal library (String.ofList den) = .ok e) (hzero : e.isZero = false)
    (hq : library.divide? d e = some q) :
    readFraction library text = .ok (library.normalize q) := by
  have hall : ∀ c ∈ num, (c != '/') = true := fun c hc =>
    bne_iff_ne.mpr fun heq => hnum (heq ▸ hc)
  have htake : text.toList.takeWhile (· != '/') = num := by
    rw [h, List.takeWhile_append_of_pos hall, List.takeWhile_cons_of_neg (by decide),
      List.append_nil]
  have hdrop : text.toList.dropWhile (· != '/') = '/' :: den := by
    rw [h, List.dropWhile_append_of_pos hall, List.dropWhile_cons_of_neg (by decide)]
  rw [readFraction, htake, hdrop]
  simp [hd, he, hzero, hq, bind, Except.bind, pure, Except.pure]

theorem readFraction_libraryText (htext : library.WritesAllDigits) (hread : library.ReadsExactly)
    (d : Decimal) : readFraction library (library.text d) = .ok (library.normalize d) := by
  refine readFraction_of_plain ?_ (readDecimal_libraryText htext hread d)
  obtain ⟨n, -, hn⟩ := htext d
  rw [hn, String.toList_ofList]
  exact n.slash_notMem_text

/-- A number over a power of ten is read as the normal form of an equal number. -/
theorem readFraction_overPowerOfTen (hread : library.ReadsExactly)
    (hdivide : library.DividesExactly) (d : Decimal) : ∃ q, q.SameNumber d ∧
      readFraction library (toString d.signedMantissa ++ "/" ++ toString (powerOfTen d.scale)) =
        .ok (library.normalize q) := by
  obtain ⟨q, hq, hsame⟩ := hdivide _ _ _ d.isZero_denominator d.isQuotient_numerator
  refine ⟨q, hsame, readFraction_of_quotient ?_ (Numeral.slash_notMem_text _)
    (readDecimal_text hread d.spells_numerator) (readDecimal_text hread d.spells_denominator)
    d.isZero_denominator hq⟩
  rw [String.toList_append, String.toList_append, d.toList_toString_signedMantissa,
    Numeral.toList_toString_nat, List.append_assoc]
  rfl

/-- The text of a number as a fraction is read as the normal form of the number. -/
theorem readFraction_fractionText (htext : library.WritesAllDigits)
    (hread : library.ReadsExactly) (hdivide : library.DividesExactly)
    (hnormalize : library.Normalizes) (d : Decimal) :
    readFraction library (fractionText library d) = .ok (library.normalize d) := by
  -- the text is that of the normal form, and what is read from it is normalized once more
  have hagain (q : Decimal) (h : q.SameNumber (library.normalize d)) :
      library.normalize q = library.normalize d :=
    hnormalize.eq h (hnormalize d).2
  rw [fractionText]
  split_ifs with hscale
  · rw [readFraction_libraryText htext hread, hagain _ rfl]
  · obtain ⟨q, hsame, hq⟩ := readFraction_overPowerOfTen hread hdivide (library.normalize d)
    rw [hq, hagain q hsame]

/-! ### Numbers as values -/

/-- **Numbers are read as what was written**, whatever the library of decimal arithmetic: whole
numbers always, decimal numbers if the library writes all digits and reads numerals exactly. If it
also divides exactly and its normal form has no fraction zeros, a fraction is read as the normal
form of the number, and the power of ten that it is written over fits a signed word of 128 bits. -/
theorem toText_bind_toValue_numeric (library : DecimalLibrary) :
    (∀ n : Int64, int.toText library (.int n) >>= int.toValue library = .ok (.int n)) ∧
    (library.WritesAllDigits → library.ReadsExactly →
      (∀ d : Decimal,
        decimal.toText library (.decimal d) >>= decimal.toValue library = .ok (.decimal d)) ∧
      (library.DividesExactly → library.Normalizes → ∀ d : Decimal,
        fraction.toText library (.decimal d) >>= fraction.toValue library =
          .ok (.decimal (library.normalize d)) ∧
        (library.normalize d).SameNumber d ∧ (library.normalize d).IsLowest ∧
        powerOfTen (library.normalize d).scale < wordLimit)) := by
  refine ⟨toText_bind_toValue_int library, fun htext hread => ⟨fun d => ?_, ?_⟩⟩
  · show Value.decimal <$> readDecimal library (library.text d) = _
    rw [readDecimal_libraryText htext hread]
    rfl
  · intro hdivide hnormalize d
    refine ⟨?_, (hnormalize d).1, (hnormalize d).2, ?_⟩
    · show Value.decimal <$> readFraction library (fractionText library d) = _
      rw [readFraction_fractionText htext hread hdivide hnormalize]
      rfl
    · exact (library.normalize d).powerOfTen_scale_lt.trans (by decide)

open DecimalLibrary Longhand in
/-- In longhand, minus fifty hundredths are written as minus five over ten and read as minus five
tenths. -/
theorem toText_bind_toValue_longhand :
    longhand.WritesAllDigits ∧ longhand.ReadsExactly ∧ longhand.DividesExactly ∧
      longhand.Normalizes ∧
    fraction.toText longhand (.decimal (.ofMagnitude true ⟨50, 2, by decide, by decide⟩)) =
      .ok "-5/10" ∧
    fraction.toValue longhand "-5/10" =
      .ok (.decimal (.ofMagnitude true ⟨5, 1, by decide, by decide⟩)) := by
  have hwritten : fractionText longhand (.ofMagnitude true ⟨50, 2, by decide, by decide⟩) =
      "-5/10" := by
    cbv
  have hnormal : longhand.normalize (.ofMagnitude true ⟨50, 2, by decide, by decide⟩) =
      .ofMagnitude true ⟨5, 1, by decide, by decide⟩ := by
    cbv
  obtain ⟨-, hfraction⟩ := (toText_bind_toValue_numeric longhand).2 writesAllDigits_longhand
    readsExactly_longhand
  obtain ⟨hread, -⟩ := hfraction dividesExactly_longhand normalizes_longhand
    (.ofMagnitude true ⟨50, 2, by decide, by decide⟩)
  rw [toText, hwritten, hnormal] at hread
  refine ⟨writesAllDigits_longhand, readsExactly_longhand, dividesExactly_longhand,
    normalizes_longhand, ?_, hread⟩
  rw [toText, hwritten]

end Converter

end ParseTree
