import Mathlib.Data.List.DropRight
import Mathlib.Data.List.GetD
import Mathlib.Data.Prod.Lex
import ParseTree.Issue.Lines
import ParseTree.Proofs.Text.Cut

/-!
# Positions by scanning

A line table looks a position up: it searches the starts of the lines for the last one up to an
offset and counts characters from there on. The outcome is what a scan of the text up to the offset
finds: as many lines as there are newlines, and one more; as many columns as there are characters
since the last newline, and one more. Each character moves the scan on, so different places have
different positions.

## Main definitions

* `LineTable.scan`: the line and column after some characters
* `LineTable.Exact`: the positions of a text are those of the scan

## Main results

* `startsAfter_append`: the lines of a text that is cut in two
* `start_add_byteLength`: where the last line starts
* `position_eq_scan`: a position is what the scan finds
* `scan_lt_scan_append`: the scan moves on
* `exact_of_size_lt`: positions of texts of less than 4 GiB
-/

namespace ParseTree.LineTable

open Text

/-- The line and column after some characters: the newlines and the characters since the last one,
both counted from one. -/
def scan (front : List Char) : ℕ × ℕ :=
  (1 + front.count '\n', 1 + (front.rtakeWhile (· ≠ '\n')).length)

variable {text : String} {l r front : List Char} {c : Char} {o offset start : ℕ}

/-! ### The starts of lines -/

/-- After a part of the text the lines go on where the part ends. -/
theorem startsAfter_append (o : ℕ) (l r : List Char) :
    startsAfter o (l ++ r) = startsAfter o l ++ startsAfter (o + byteLength l) r := by
  induction l generalizing o with
  | nil => rfl
  | cons c l ih =>
    rw [List.cons_append, startsAfter, startsAfter, byteLength_cons, ← Nat.add_assoc]
    split_ifs with hc
    · subst hc
      rw [ih, List.cons_append]
      rfl
    · exact ih _

theorem startsAfter_singleton (o : ℕ) (c : Char) :
    startsAfter o [c] = if c = '\n' then [o + 1] else [] := by
  rw [startsAfter, startsAfter, startsAfter]

theorem length_startsAfter (o : ℕ) (l : List Char) :
    (startsAfter o l).length = l.count '\n' := by
  induction l generalizing o with
  | nil => rfl
  | cons c l ih =>
    rw [startsAfter, List.count_cons]
    split_ifs with hc hbeq hbeq
    · rw [List.length_cons, ih]
    · simp [hc] at hbeq
    · simp [hc] at hbeq
    · exact ih _

/-- Lines start after a newline, so past the start of the text and up to its end. -/
theorem bounds_of_mem_startsAfter (h : start ∈ startsAfter o l) :
    o < start ∧ start ≤ o + byteLength l := by
  induction l using List.reverseRecOn with
  | nil => cases h
  | append_singleton l c ih =>
    rw [startsAfter_append, startsAfter_singleton, List.mem_append] at h
    rw [byteLength_append, byteLength_cons, byteLength_nil]
    have hpos := c.utf8Size_pos
    rcases h with h | h
    · have := ih h
      omega
    · split_ifs at h with hc
      · obtain rfl := List.mem_singleton.mp h
        omega
      · cases h

/-- The last line takes the bytes since the last newline. -/
theorem start_add_byteLength (l : List Char) :
    (startsAfter 0 l).getLastD 0 + byteLength (l.rtakeWhile (· ≠ '\n')) = byteLength l := by
  induction l using List.reverseRecOn with
  | nil => rfl
  | append_singleton l c ih =>
    rw [startsAfter_append, startsAfter_singleton, List.rtakeWhile_concat, byteLength_append]
    by_cases hc : c = '\n'
    · have hsize : '\n'.utf8Size = 1 := rfl
      simp [hc, hsize]
    · simp [hc, ← ih, Nat.add_assoc]

/-! ### Looking up -/

theorem starts_ofText (h : text.toList = l ++ r) :
    (ofText text).starts = (0 :: startsAfter 0 l) ++ startsAfter (byteLength l) r := by
  rw [ofText, h, startsAfter_append, Nat.zero_add, List.cons_append]

/-- The lines that start up to an offset are those that start in the text before it. -/
theorem line_eq (h : text.toList = l ++ r) (hl : byteLength l ≤ offset)
    (hr : r ≠ [] → offset = byteLength l) : (ofText text).line offset = 1 + l.count '\n' := by
  have hbefore : ∀ start ∈ 0 :: startsAfter 0 l, decide (start ≤ offset) = true := by
    intro start hstart
    rw [decide_eq_true_iff]
    rcases List.mem_cons.mp hstart with rfl | hstart
    · exact Nat.zero_le _
    · have hbounds := bounds_of_mem_startsAfter hstart
      omega
  have hafter : (startsAfter (byteLength l) r).takeWhile (· ≤ offset) = [] := by
    cases hstarts : startsAfter (byteLength l) r with
    | nil => rfl
    | cons start _ =>
      have hne : r ≠ [] := by
        rintro rfl
        cases hstarts
      have hbounds := bounds_of_mem_startsAfter (hstarts ▸ List.mem_cons_self)
      rw [List.takeWhile_cons_of_neg]
      rw [hr hne, decide_eq_true_iff]
      omega
  rw [line, starts_ofText h, List.takeWhile_append_of_pos hbefore, hafter, List.append_nil,
    List.length_cons, length_startsAfter]
  omega

/-- The line that starts last in front of a place. -/
theorem getD_starts (h : text.toList = l ++ r) :
    (ofText text).starts.getD (l.count '\n') 0 = (startsAfter 0 l).getLastD 0 := by
  rw [starts_ofText h, ← length_startsAfter 0 l, List.getD_append _ _ _ _ (Nat.lt_succ_self _)]
  cases startsAfter 0 l using List.reverseRecOn with
  | nil => rfl
  | append_singleton starts start =>
    rw [List.getLastD_concat, List.length_append, List.length_singleton, List.getD_cons_succ,
      List.getD_append_right _ _ _ _ (Nat.le_refl _), Nat.sub_self, List.getD_cons_zero]

theorem slice?_append {m : List Char} (h : text.toList = l ++ (m ++ r)) :
    Text.slice? text (byteLength l) (byteLength l + byteLength m) = some (String.ofList m) := by
  rw [Text.slice?, if_pos (Nat.le_add_right _ _), h, splitBytes?_append, Nat.add_sub_cancel_left]
  show ((splitBytes? (m ++ r) (byteLength m)).bind fun p => some (String.ofList p.1)) = _
  rw [splitBytes?_append]
  rfl

/-- A position is what the scan finds in front of it. -/
theorem position_eq_scan (h : text.toList = l ++ r) (hl : byteLength l ≤ offset)
    (hr : r ≠ [] → offset = byteLength l) : (ofText text).position text offset = scan l := by
  obtain ⟨d, m, hd, hm⟩ : ∃ d m, d ++ m = l ∧ m = l.rtakeWhile (· ≠ '\n') :=
    ⟨_, _, List.rdropWhile_append_rtakeWhile, rfl⟩
  have hlength : byteLength l = byteLength d + byteLength m := by
    rw [← hd, byteLength_append]
  have hstart : (startsAfter 0 l).getLastD 0 = byteLength d := by
    have hadd := start_add_byteLength l
    rw [← hm] at hadd
    omega
  have hsize : text.utf8ByteSize = byteLength l + byteLength r := by
    rw [← byteLength_toList, h, byteLength_append]
  have hstop : max (byteLength d) (min offset (max text.utf8ByteSize (byteLength d))) =
      byteLength d + byteLength m := by
    cases r with
    | nil => rw [byteLength_nil] at hsize; omega
    | cons c r => have := hr (List.cons_ne_nil c r); omega
  have hslice : Text.slice? text (byteLength d) (byteLength d + byteLength m) =
      some (String.ofList m) := by
    refine slice?_append (r := r) ?_
    rw [h, ← hd, List.append_assoc]
  unfold position
  simp only [line_eq h hl hr, Nat.add_sub_cancel_left, getD_starts h, hstart, hstop, hslice]
  rw [scan, ← hm, Option.elim_some, String.length_ofList, Nat.add_comm m.length]

/-! ### The scan moves on -/

theorem scan_concat (front : List Char) (c : Char) : scan (front ++ [c]) =
    if c = '\n' then ((scan front).1 + 1, 1) else ((scan front).1, (scan front).2 + 1) := by
  rw [scan, scan, List.count_append, List.rtakeWhile_concat]
  by_cases hc : c = '\n'
  · simp [hc, Nat.add_comm]
  · simp [hc, Nat.add_assoc]

theorem scan_lt_scan_concat (front : List Char) (c : Char) :
    toLex (scan front) < toLex (scan (front ++ [c])) := by
  rw [scan_concat, Prod.Lex.toLex_lt_toLex]
  split_ifs with hc
  · exact Or.inl (Nat.lt_succ_self _)
  · exact Or.inr ⟨rfl, Nat.lt_succ_self _⟩

/-- Every character moves the scan on. -/
theorem scan_lt_scan_append (front : List Char) {m : List Char} (hm : m ≠ []) :
    toLex (scan front) < toLex (scan (front ++ m)) := by
  induction m using List.reverseRecOn with
  | nil => exact absurd rfl hm
  | append_singleton m c ih =>
    rw [← List.append_assoc]
    rcases eq_or_ne m [] with rfl | hne
    · rw [List.append_nil]
      exact scan_lt_scan_concat front c
    · exact (ih hne).trans (scan_lt_scan_concat _ c)

/-! ### The size of the numbers -/

theorem length_le_byteLength (l : List Char) : l.length ≤ byteLength l := by
  induction l with
  | nil => exact Nat.le_refl _
  | cons c l ih =>
    have hpos := c.utf8Size_pos
    rw [List.length_cons, byteLength_cons]
    omega

/-- Lines start in the text or at its end. -/
theorem start_le (h : start ∈ (ofText text).starts) : start ≤ text.utf8ByteSize := by
  rcases List.mem_cons.mp h with rfl | h
  · exact Nat.zero_le _
  · have hbounds := bounds_of_mem_startsAfter h
    rw [byteLength_toList] at hbounds
    omega

/-- There are at most as many lines as bytes, and one more. -/
theorem size_le (text : String) : (ofText text).size ≤ text.utf8ByteSize + 1 := by
  rw [size, ofText, List.length_cons, length_startsAfter, ← byteLength_toList]
  exact Nat.succ_le_succ (List.count_le_length.trans (length_le_byteLength _))

/-- No column is further than the number of bytes, and one more. -/
theorem column_le (text : String) (offset : ℕ) :
    (lineColumn text offset).2 ≤ text.utf8ByteSize + 1 := by
  unfold lineColumn position
  dsimp only
  generalize (ofText text).starts.getD ((ofText text).line offset - 1) 0 = start
  cases hpart : Text.slice? text start
      (max start (min offset (max text.utf8ByteSize start))) with
  | none => exact Nat.succ_le_succ (Nat.zero_le _)
  | some part =>
    have hbytes := Span.utf8ByteSize_of_slice? (s := ⟨start, _⟩) hpart
    have hchars := length_le_byteLength part.toList
    rw [byteLength_toList, String.length_toList, hbytes, Span.length] at hchars
    dsimp only at hchars
    rw [Option.elim_some]
    omega

/-! ### Positions of a text -/

/-- The offset is between characters or at an end of the text. -/
def IsBoundary (text : String) (offset : ℕ) : Prop :=
  ∃ front rest, text.toList = front ++ rest ∧ byteLength front = offset

/-- The positions of a text are those of a direct scan, and their numbers fit 32 bits. -/
structure Exact (text : String) : Prop where
  /-- Lines are counted by newlines, columns by the characters since the last one. -/
  scanned : ∀ front rest, text.toList = front ++ rest →
    lineColumn text (byteLength front) =
      (1 + front.count '\n', 1 + (front.rtakeWhile (· ≠ '\n')).length)
  /-- Past the end of the text there is only the end. -/
  past : ∀ offset, text.utf8ByteSize < offset →
    lineColumn text offset = lineColumn text text.utf8ByteSize
  /-- Further boundaries have greater positions. -/
  ascending : ∀ a b, IsBoundary text a → IsBoundary text b → a < b →
    toLex (lineColumn text a) < toLex (lineColumn text b)
  /-- Different boundaries have different positions. -/
  distinct : ∀ a b, IsBoundary text a → IsBoundary text b →
    lineColumn text a = lineColumn text b → a = b
  /-- The starts of the lines fit 32 bits. -/
  start_lt : ∀ start ∈ (ofText text).starts, start < Span.limit
  /-- The number of lines fits 32 bits. -/
  size_lt : (ofText text).size < Span.limit
  /-- The columns fit 32 bits. -/
  column_lt : ∀ offset, (lineColumn text offset).2 < Span.limit

theorem lineColumn_eq_scan (h : text.toList = l ++ r) : lineColumn text (byteLength l) = scan l :=
  position_eq_scan h (Nat.le_refl _) fun _ => rfl

theorem lineColumn_eq_scan_of_le (h : text.utf8ByteSize ≤ offset) :
    lineColumn text offset = scan text.toList :=
  position_eq_scan (List.append_nil _).symm (byteLength_toList text ▸ h) fun hne => absurd rfl hne

/-- Of two boundaries the further one has more characters in front. -/
theorem lineColumn_lt_of_lt {a b : ℕ} (ha : IsBoundary text a) (hb : IsBoundary text b)
    (hlt : a < b) : toLex (lineColumn text a) < toLex (lineColumn text b) := by
  obtain ⟨front, rest, h, rfl⟩ := ha
  obtain ⟨front', rest', h', rfl⟩ := hb
  rw [lineColumn_eq_scan h, lineColumn_eq_scan h']
  rcases List.append_eq_append_iff.mp (h.symm.trans h') with ⟨m, rfl, -⟩ | ⟨m, rfl, -⟩
  · refine scan_lt_scan_append front ?_
    rintro rfl
    rw [List.append_nil] at hlt
    exact Nat.lt_irrefl _ hlt
  · rw [byteLength_append] at hlt
    omega

/-- **Positions are those of a direct scan**, in every text whose offsets and columns fit 32
bits. -/
theorem exact_of_size_lt (text : String) (h : text.utf8ByteSize < Span.limit - 1) :
    Exact text where
  scanned _ _ := lineColumn_eq_scan
  past offset hlt := by
    rw [lineColumn_eq_scan_of_le hlt.le, lineColumn_eq_scan_of_le (Nat.le_refl _)]
  ascending _ _ := lineColumn_lt_of_lt
  distinct a b ha hb heq := by
    rcases Nat.lt_trichotomy a b with hlt | heq' | hlt
    · exact absurd (congrArg toLex heq) (lineColumn_lt_of_lt ha hb hlt).ne
    · exact heq'
    · exact absurd (congrArg toLex heq) (lineColumn_lt_of_lt hb ha hlt).ne'
  start_lt start hstart := by
    have := start_le hstart
    omega
  size_lt := by
    have := size_le text
    omega
  column_lt offset := by
    have := column_le text offset
    omega

/-- Characters of several bytes, an empty line and a newline at the end. -/
theorem exact_of_lines :
    "né\n\n\r😀 x\n".utf8ByteSize < Span.limit - 1 ∧ Exact "né\n\n\r😀 x\n" :=
  ⟨by decide, exact_of_size_lt _ (by decide)⟩

end ParseTree.LineTable
