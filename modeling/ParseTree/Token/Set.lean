import ParseTree.Token.Basic

/-!
# Token sets

Sets of token kinds, stored as a list of 64-bit words. Equality compares the words, so two sets with
the same members may differ if one of them has held a larger member.

## Main definitions

* `TokenSet`: the sets, with `insert`, `erase`, `union` and membership
* `TokenSet.toList`: the members in ascending order
-/

namespace ParseTree

/-- A set of token kinds. -/
structure TokenSet where
  /-- The bits of the members: kind `64 * i + b` is bit `b` of word `i`. -/
  words : List (BitVec 64)
deriving DecidableEq, Repr

namespace TokenSet

instance : EmptyCollection TokenSet := ⟨⟨[]⟩⟩

instance : Inhabited TokenSet := ⟨∅⟩

/-- The word that holds the bit of a kind. -/
def wordOf (k : TokenKind) : Nat :=
  k.code.toNat / 64

/-- The position of the bit of a kind in its word. -/
def bitOf (k : TokenKind) : Nat :=
  k.code.toNat % 64

/-- The words, with zero words appended up to a length. -/
def padded (words : List (BitVec 64)) (length : Nat) : List (BitVec 64) :=
  words ++ List.replicate (length - words.length) 0

/-- The set and one more member. -/
def insert (s : TokenSet) (k : TokenKind) : TokenSet :=
  ⟨(padded s.words (wordOf k + 1)).modify (wordOf k) (· ||| BitVec.twoPow 64 (bitOf k))⟩

/-- The set without a member; its words stay. -/
def erase (s : TokenSet) (k : TokenKind) : TokenSet :=
  ⟨s.words.modify (wordOf k) (· &&& ~~~BitVec.twoPow 64 (bitOf k))⟩

/-- The set has the member. -/
def contains (s : TokenSet) (k : TokenKind) : Bool :=
  (s.words[wordOf k]?).any fun w => w.getLsbD (bitOf k)

instance : Membership TokenKind TokenSet where
  mem s k := s.contains k = true

instance (k : TokenKind) (s : TokenSet) : Decidable (k ∈ s) :=
  inferInstanceAs (Decidable (s.contains k = true))

/-- The members of either set, in as many words as the longer one has. -/
def union (s t : TokenSet) : TokenSet :=
  ⟨List.zipWith (· ||| ·) (padded s.words t.words.length) (padded t.words s.words.length)⟩

/-- The set has no member. -/
def isEmpty (s : TokenSet) : Bool :=
  s.words.all (· == 0)

/-- The set of the listed kinds. -/
def ofList (kinds : List TokenKind) : TokenSet :=
  kinds.foldl insert ∅

/-- The members in ascending order. -/
def toList (s : TokenSet) : List TokenKind :=
  s.words.zipIdx.flatMap fun p =>
    (List.range 64).filterMap fun b =>
      if p.1.getLsbD b then some ⟨UInt16.ofNat (64 * p.2 + b)⟩ else none

/-- The members between braces. -/
def inspect (s : TokenSet) : String :=
  "\x7b" ++ ", ".intercalate (s.toList.map TokenKind.inspect) ++ "\x7d"

theorem mem_iff_contains {k : TokenKind} {s : TokenSet} : k ∈ s ↔ s.contains k = true := Iff.rfl

theorem not_mem_empty (k : TokenKind) : k ∉ (∅ : TokenSet) := by
  simp [mem_iff_contains, contains, EmptyCollection.emptyCollection]

end TokenSet

end ParseTree
