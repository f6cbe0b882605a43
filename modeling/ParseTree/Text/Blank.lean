/-!
# Blank characters

The characters of the Unicode property `White_Space`, and the removal of them from both ends of a
text.

## Main definitions

* `IsBlank c`: the character is blank
* `trim cs`: the characters without the blanks at either end
-/

namespace ParseTree.Text

/-- The character has the Unicode property `White_Space`. -/
def IsBlank (c : Char) : Prop :=
  (0x09 ≤ c.toNat ∧ c.toNat ≤ 0x0D) ∨ c.toNat = 0x20 ∨ c.toNat = 0x85 ∨ c.toNat = 0xA0 ∨
    c.toNat = 0x1680 ∨ (0x2000 ≤ c.toNat ∧ c.toNat ≤ 0x200A) ∨ c.toNat = 0x2028 ∨
    c.toNat = 0x2029 ∨ c.toNat = 0x202F ∨ c.toNat = 0x205F ∨ c.toNat = 0x3000

instance (c : Char) : Decidable (IsBlank c) :=
  inferInstanceAs (Decidable ((_ ∧ _) ∨ _ ∨ _ ∨ _ ∨ _ ∨ (_ ∧ _) ∨ _ ∨ _ ∨ _ ∨ _ ∨ _))

/-- The characters without the blanks at either end. -/
def trim (cs : List Char) : List Char :=
  ((cs.dropWhile (IsBlank ·)).reverse.dropWhile (IsBlank ·)).reverse

end ParseTree.Text
