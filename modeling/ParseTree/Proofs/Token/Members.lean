import Mathlib.Data.Nat.Init
import Mathlib.Tactic.SplitIfs
import ParseTree.Token.Set

/-!
# The members of a token set

Sets are stored as words, and the operations work on words. What they do to the members is what
their names say.

## Main results

* `mem_insert`, `mem_erase`, `mem_union`: the members of the sets that the operations make
-/

namespace ParseTree.TokenSet

variable {s t : TokenSet} {a k : TokenKind}

/-- A kind is known from where its bit is. -/
theorem eq_iff_wordOf_bitOf : k = a ↔ wordOf a = wordOf k ∧ bitOf a = bitOf k := by
  constructor
  · rintro rfl
    exact ⟨rfl, rfl⟩
  · rintro ⟨hw, hb⟩
    rw [wordOf, wordOf] at hw
    rw [bitOf, bitOf] at hb
    have hcode : k.code.toNat = a.code.toNat := by omega
    cases k
    cases a
    exact congrArg TokenKind.mk (UInt16.toNat_inj.mp hcode)

theorem bitOf_lt (k : TokenKind) : bitOf k < 64 :=
  Nat.mod_lt _ (by decide)

/-- The bit of a word; there is none past the last word. -/
def bit (words : List (BitVec 64)) (i b : ℕ) : Bool :=
  words[i]?.any (·.getLsbD b)

theorem mem_iff_bit : k ∈ s ↔ bit s.words (wordOf k) (bitOf k) = true :=
  Iff.rfl

theorem bit_padded (words : List (BitVec 64)) (n i b : ℕ) :
    bit (padded words n) i b = bit words i b := by
  rw [bit, bit, padded]
  by_cases hi : i < words.length
  · rw [List.getElem?_append_left hi]
  · rw [List.getElem?_append_right (Nat.le_of_not_lt hi), List.getElem?_replicate,
      List.getElem?_eq_none (Nat.le_of_not_lt hi)]
    split_ifs <;> simp

theorem bit_modify (words : List (BitVec 64)) (i j b : ℕ) (f : BitVec 64 → BitVec 64) :
    bit (words.modify j f) i b =
      if j = i then words[i]?.any (fun w => (f w).getLsbD b) else bit words i b := by
  rw [bit, List.getElem?_modify]
  split_ifs
  · exact Option.any_map ..
  · rw [id_map', bit]

/-- Setting a bit, in as many words as that takes, adds this bit. -/
theorem bit_modify_padded (words : List (BitVec 64)) (i j b : ℕ) {a : ℕ} (ha : a < 64) :
    bit ((padded words (j + 1)).modify j (· ||| BitVec.twoPow 64 a)) i b =
      (decide (j = i ∧ a = b) || bit words i b) := by
  rw [bit_modify]
  split_ifs with hw
  · have hlt : i < (padded words (j + 1)).length := by
      rw [padded, List.length_append, List.length_replicate]
      omega
    have hbit := bit_padded words (j + 1) i b
    rw [bit, List.getElem?_eq_getElem hlt, Option.any_some] at hbit
    rw [List.getElem?_eq_getElem hlt, Option.any_some, BitVec.getLsbD_or, hbit,
      BitVec.getLsbD_twoPow]
    simp [hw, ha, Bool.or_comm]
  · rw [bit_padded]
    simp [hw]

theorem mem_insert : k ∈ s.insert a ↔ k = a ∨ k ∈ s := by
  rw [mem_iff_bit, mem_iff_bit, insert, bit_modify_padded _ _ _ _ (bitOf_lt a), Bool.or_eq_true,
    decide_eq_true_iff, eq_iff_wordOf_bitOf]

theorem mem_erase : k ∈ s.erase a ↔ k ≠ a ∧ k ∈ s := by
  rw [mem_iff_bit, mem_iff_bit, erase, bit_modify, ne_eq, eq_iff_wordOf_bitOf]
  split_ifs with hw
  · rw [bit]
    cases s.words[wordOf k]? with
    | none => simp
    | some w =>
      rw [Option.any_some, Option.any_some, BitVec.getLsbD_and, BitVec.getLsbD_not,
        BitVec.getLsbD_twoPow]
      simp [hw, bitOf_lt, and_comm]
  · simp [hw]

theorem mem_union : k ∈ s.union t ↔ k ∈ s ∨ k ∈ t := by
  rw [mem_iff_bit, mem_iff_bit, mem_iff_bit, ← bit_padded s.words t.words.length,
    ← bit_padded t.words s.words.length, union, bit, List.getElem?_zipWith, bit, bit]
  have hlength : (padded s.words t.words.length).length =
      (padded t.words s.words.length).length := by
    simp only [padded, List.length_append, List.length_replicate]
    omega
  by_cases hi : wordOf k < (padded s.words t.words.length).length
  · rw [List.getElem?_eq_getElem hi, List.getElem?_eq_getElem (hlength ▸ hi)]
    simp
  · rw [List.getElem?_eq_none (Nat.le_of_not_lt hi),
      List.getElem?_eq_none (hlength ▸ Nat.le_of_not_lt hi)]
    simp

end ParseTree.TokenSet
