/-!
# Byte offsets into text

Positions in a source text are offsets into its UTF-8 form. A text is cut at two offsets only if
both fall on character boundaries.

## Main definitions

* `byteLength cs`: the number of bytes of a list of characters
* `splitBytes? cs n`: the characters before and after byte `n`
* `slice? s start stop`: the part of a text between two byte offsets

## Main results

* `append_of_splitBytes?_eq_some`, `byteLength_of_splitBytes?_eq_some`: a split loses nothing and
  its left part has the requested length
* `splitBytes?_append`: every boundary can be split at
-/

namespace ParseTree.Text

/-- The number of bytes of the UTF-8 form. -/
def byteLength : List Char → Nat
  | [] => 0
  | c :: cs => c.utf8Size + byteLength cs

/-- The characters before and from byte `n` on, or `none` if byte `n` is inside a character or past
the end. -/
def splitBytes? : List Char → Nat → Option (List Char × List Char)
  | cs, 0 => some ([], cs)
  | [], _ + 1 => none
  | c :: cs, n + 1 =>
    if c.utf8Size ≤ n + 1 then
      (splitBytes? cs (n + 1 - c.utf8Size)).map fun p => (c :: p.1, p.2)
    else none

/-- The characters from byte `start` up to byte `stop`; `none` unless the range is in order and both
ends are character boundaries of the text. -/
def slice? (s : String) (start stop : Nat) : Option String :=
  if start ≤ stop then do
    let (_, rest) ← splitBytes? s.toList start
    let (part, _) ← splitBytes? rest (stop - start)
    return String.ofList part
  else none

@[simp] theorem byteLength_nil : byteLength [] = 0 := rfl

@[simp] theorem byteLength_cons (c : Char) (cs : List Char) :
    byteLength (c :: cs) = c.utf8Size + byteLength cs := rfl

@[simp] theorem byteLength_append (l r : List Char) :
    byteLength (l ++ r) = byteLength l + byteLength r := by
  induction l with
  | nil => simp
  | cons c l ih => simp [ih, Nat.add_assoc]

@[simp] theorem splitBytes?_zero (cs : List Char) : splitBytes? cs 0 = some ([], cs) := by
  cases cs <;> rfl

theorem append_of_splitBytes?_eq_some {cs l r : List Char} {n : Nat}
    (h : splitBytes? cs n = some (l, r)) : l ++ r = cs := by
  fun_induction splitBytes? cs n generalizing l r with
  | case1 => simp_all
  | case2 => simp at h
  | case3 c cs n _ ih =>
    obtain ⟨p, hp, h⟩ := Option.map_eq_some_iff.1 h
    obtain ⟨rfl, rfl⟩ := Prod.mk.inj h
    simp [ih hp]
  | case4 => simp at h

theorem byteLength_of_splitBytes?_eq_some {cs l r : List Char} {n : Nat}
    (h : splitBytes? cs n = some (l, r)) : byteLength l = n := by
  fun_induction splitBytes? cs n generalizing l r with
  | case1 => simp_all
  | case2 => simp at h
  | case3 c cs n hc ih =>
    obtain ⟨p, hp, h⟩ := Option.map_eq_some_iff.1 h
    obtain ⟨rfl, rfl⟩ := Prod.mk.inj h
    simp [ih hp]; omega
  | case4 => simp at h

theorem splitBytes?_append (l r : List Char) :
    splitBytes? (l ++ r) (byteLength l) = some (l, r) := by
  induction l with
  | nil => simp
  | cons c l ih =>
    have hc : 0 < c.utf8Size := c.utf8Size_pos
    obtain ⟨n, hn⟩ : ∃ n, c.utf8Size + byteLength l = n + 1 :=
      ⟨_, (Nat.succ_pred_eq_of_pos (by omega)).symm⟩
    have hle : c.utf8Size ≤ n + 1 := by omega
    have hsub : n + 1 - c.utf8Size = byteLength l := by omega
    simp [hn, splitBytes?, hle, hsub, ih]

end ParseTree.Text
