import Mathlib.Algebra.Ring.Nat
import Mathlib.Data.List.Basic
import Mathlib.Tactic.SplitIfs
import ParseTree.Span

/-!
# Cutting a text

A text that is cut at increasing offsets falls into parts that follow each other, so the parts
together are the text again.

## Main definitions

* `Span.Legible`: all of a span can be read

## Main results

* `byteLength_toList`: the bytes of a text are those of its characters
* `splitBytes?_add`: two cuts one after the other
* `Span.Legible.exists_split`: a part continues what was cut off before it
* `Span.utf8ByteSize_slice?_le`, `Span.legible_of_length_le`: how much of a span can be read
-/

namespace ParseTree

namespace Text

variable {cs l m r r' : List Char} {a n : ℕ}

theorem byteLength_toList (s : String) : byteLength s.toList = s.utf8ByteSize := by
  induction s using String.push_induction with
  | empty => rfl
  | push b c ih =>
    rw [String.toList_push, byteLength_append, ih, String.utf8ByteSize_push]
    rfl

theorem utf8ByteSize_join (l : List String) :
    (String.join l).utf8ByteSize = (l.map String.utf8ByteSize).sum := by
  induction l with
  | nil => rfl
  | cons s l ih =>
    rw [String.join_cons, String.utf8ByteSize_append, ih, List.map_cons, List.sum_cons]

/-- A cut is determined by what stands before it. -/
theorem splitBytes?_eq_some_iff :
    splitBytes? cs n = some (l, r) ↔ l ++ r = cs ∧ byteLength l = n := by
  constructor
  · intro h
    exact ⟨append_of_splitBytes?_eq_some h, byteLength_of_splitBytes?_eq_some h⟩
  · rintro ⟨rfl, rfl⟩
    exact splitBytes?_append l r

/-- The rest after a cut is cut once more. -/
theorem splitBytes?_add (h : splitBytes? cs a = some (l, r))
    (h' : splitBytes? r n = some (m, r')) : splitBytes? cs (a + n) = some (l ++ m, r') := by
  obtain ⟨rfl, rfl⟩ := splitBytes?_eq_some_iff.mp h
  obtain ⟨rfl, rfl⟩ := splitBytes?_eq_some_iff.mp h'
  rw [splitBytes?_eq_some_iff, byteLength_append, List.append_assoc]
  exact ⟨rfl, rfl⟩

theorem eq_nil_of_byteLength_eq_zero (h : byteLength l = 0) : l = [] := by
  cases l with
  | nil => rfl
  | cons c cs =>
    have hc := c.utf8Size_pos
    rw [byteLength_cons] at h
    omega

end Text

open Text

theorem Span.start_le_stop_of_slice? {s : Span} {text : String} (h : (s.slice? text).isSome) :
    s.start ≤ s.stop := by
  rw [slice?, Text.slice?] at h
  split_ifs at h with hle
  · exact hle
  · cases h

/-- A part has as many bytes as its span. -/
theorem Span.utf8ByteSize_of_slice? {s : Span} {text part : String}
    (h : s.slice? text = some part) : part.utf8ByteSize = s.length := by
  rw [slice?, Text.slice?] at h
  split_ifs at h
  obtain ⟨⟨_, rest⟩, -, h⟩ := Option.bind_eq_some_iff.mp h
  obtain ⟨⟨m, _⟩, hm, h⟩ := Option.bind_eq_some_iff.mp h
  obtain rfl := Option.some.inj h
  rw [← byteLength_toList, String.toList_ofList]
  exact byteLength_of_splitBytes?_eq_some hm

/-- The span is empty or covers a part of the text; then nothing of it is lost where its text is
read. -/
def Span.Legible (s : Span) (text : String) : Prop :=
  s.start = s.stop ∨ (s.slice? text).isSome

instance (s : Span) (text : String) : Decidable (s.Legible text) :=
  inferInstanceAs (Decidable (_ ∨ _))

/-- A span is read as so many bytes at most, and as fewer if it is not legible. -/
theorem Span.utf8ByteSize_slice?_le (s : Span) (text : String) :
    ((s.slice? text).getD "").utf8ByteSize ≤ s.length := by
  cases h : s.slice? text with
  | none => exact Nat.zero_le _
  | some part => exact Nat.le_of_eq (utf8ByteSize_of_slice? h)

theorem Span.legible_of_length_le {s : Span} {text : String} (hs : s.start ≤ s.stop)
    (h : s.length ≤ ((s.slice? text).getD "").utf8ByteSize) : s.Legible text := by
  cases hslice : s.slice? text with
  | none =>
    rw [hslice] at h
    exact Or.inl (Nat.le_antisymm hs (Nat.sub_eq_zero_iff_le.mp (Nat.le_zero.mp h)))
  | some part => exact Or.inr (by rw [hslice]; rfl)

/-- The part of a span continues what was cut off before the span. -/
theorem Span.Legible.exists_split {s : Span} {text : String} {l r : List Char}
    (hs : s.Legible text) (h : splitBytes? text.toList s.start = some (l, r)) :
    ∃ r', splitBytes? text.toList s.stop =
      some (l ++ ((s.slice? text).getD "").toList, r') := by
  cases hpart : s.slice? text with
  | none =>
    have hempty := hs.resolve_right (by simp [hpart])
    exact ⟨r, by simpa [← hempty] using h⟩
  | some part =>
    rw [slice?, Text.slice?] at hpart
    split_ifs at hpart with hle
    obtain ⟨⟨_, rest⟩, hrest, hpart⟩ := Option.bind_eq_some_iff.mp hpart
    obtain ⟨rfl, rfl⟩ := Prod.mk.inj (Option.some.inj (h.symm.trans hrest))
    obtain ⟨⟨m, r'⟩, hm, hpart⟩ := Option.bind_eq_some_iff.mp hpart
    obtain rfl := Option.some.inj hpart
    have hsplit := splitBytes?_add h hm
    rw [Nat.add_sub_cancel' hle] at hsplit
    exact ⟨r', by rw [hsplit, Option.getD_some, String.toList_ofList]⟩

end ParseTree
