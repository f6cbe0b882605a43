import ParseTree.Text.Bytes

/-!
# Spans

A span is a half-open range of byte offsets into a source text. Zero-width spans stand for
positions.

## Main definitions

* `Span`: the range from `start` to `stop`
* `saturate`: a number that is cut off at 32 bits
* `Span.ofRange?`: a span whose offsets fit 32 bits
* `Span.cover`, `Span.slice?`: the least span over two others, the covered text

## Main results

* `saturate_of_lt`: a number that fits stays as it is
* `Span.ofRange?_eq_ok_iff`: a range is accepted if and only if both offsets fit
-/

namespace ParseTree

/-- A half-open range of byte offsets. -/
@[ext] structure Span where
  /-- The offset of the first byte. -/
  start : Nat
  /-- The offset just past the last byte. -/
  stop : Nat
deriving DecidableEq, Repr

namespace Span

/-- The least offset that a span cannot hold: a one with 32 zero bits. -/
def limit : Nat := 0x100000000

end Span

/-- The number, or the largest one of 32 bits if it is larger. -/
def saturate (n : Nat) : Nat :=
  min n (Span.limit - 1)

theorem saturate_of_lt {n : Nat} (h : n < Span.limit) : saturate n = n :=
  Nat.min_eq_left (Nat.le_sub_one_of_lt h)

theorem saturate_le (n : Nat) : saturate n ≤ n :=
  Nat.min_le_left ..

theorem saturate_lt (n : Nat) : saturate n < Span.limit :=
  Nat.lt_of_le_of_lt (Nat.min_le_right ..) (by decide)

namespace Span

/-- An offset that is too large for a span. -/
structure RangeError where
  /-- The offset that does not fit. -/
  offset : Nat
  /-- The end of the range it comes from. -/
  inputLength : Nat
deriving DecidableEq, Repr

/-- The wording of a range error. -/
def RangeError.message (e : RangeError) : String :=
  s!"offset {e.offset} of {e.inputLength}-byte range exceeds the 4 GiB input limit"

/-- The zero-width span at an offset. -/
def point (offset : Nat) : Span :=
  ⟨offset, offset⟩

/-- The span of a range whose offsets fit; the start is looked at first. -/
def ofRange? (start stop : Nat) : Except RangeError Span :=
  if limit ≤ start then .error ⟨start, stop⟩
  else if limit ≤ stop then .error ⟨stop, stop⟩
  else .ok ⟨start, stop⟩

/-- The number of bytes covered. -/
def length (s : Span) : Nat :=
  s.stop - s.start

/-- The span covers no byte because its ends coincide. -/
def isEmpty (s : Span) : Bool :=
  s.start == s.stop

/-- Membership: the byte at the offset is covered. -/
instance : Membership Nat Span where
  mem s offset := s.start ≤ offset ∧ offset < s.stop

instance (offset : Nat) (s : Span) : Decidable (offset ∈ s) :=
  inferInstanceAs (Decidable (s.start ≤ offset ∧ offset < s.stop))

/-- The least span over two others. -/
def cover (s t : Span) : Span :=
  ⟨min s.start t.start, max s.stop t.stop⟩

/-- The covered part of a text, if the span lies in it on character boundaries. -/
def slice? (s : Span) (text : String) : Option String :=
  Text.slice? text s.start s.stop

/-- Spans are ordered by start, then by end. -/
def order (s t : Span) : Ordering :=
  (compare s.start t.start).then (compare s.stop t.stop)

/-- Both ends with two dots between them. -/
def inspect (s : Span) : String :=
  s!"{s.start}..{s.stop}"

@[simp] theorem mem_iff {offset : Nat} {s : Span} :
    offset ∈ s ↔ s.start ≤ offset ∧ offset < s.stop := Iff.rfl

@[simp] theorem start_point (offset : Nat) : (point offset).start = offset := rfl

@[simp] theorem stop_point (offset : Nat) : (point offset).stop = offset := rfl

@[simp] theorem start_cover (s t : Span) : (s.cover t).start = min s.start t.start := rfl

@[simp] theorem stop_cover (s t : Span) : (s.cover t).stop = max s.stop t.stop := rfl

theorem ofRange?_eq_ok_iff {start stop : Nat} {s : Span} :
    ofRange? start stop = .ok s ↔ s = ⟨start, stop⟩ ∧ start < limit ∧ stop < limit := by
  unfold ofRange?
  split <;> (try split) <;> simp <;> grind

end Span

end ParseTree
