import Mathlib.Data.Nat.Digits.Defs
import ParseTree.Proofs.Text.Cut
import ParseTree.Value.Converter

/-!
# The grammar of string literals

Between its quotes a literal consists of units: a plain character, an escaped character, or the code
point of a character in four hexadecimal digits. The texts of this form are the ones that are read,
each has it in one way only, and what is read is what the units mean. A literal that is written for
a text has the form and means the text.

## Main definitions

* `StringLiteral.IsHexDigit`, `StringLiteral.number`: hexadecimal digits, the number they denote
* `StringLiteral.LiteralUnit`: the units, with what each looks like and what it means
* `StringLiteral.IsLiteral`: the text has the form of a literal

## Main results

* `unescape_eq_ok_iff`: a body is read unit by unit
* `flatMap_text_injective`: a body consists of units in one way
* `toValue_string_iff`: the literals, and nothing else, are read as what their units mean
* `toValue_toText_string`: every text has a literal that is read as the text
-/

namespace ParseTree

/-- A mapped computation that succeeds does so before. -/
theorem exists_of_map_eq_ok {ε α β : Type} {f : α → β} {x : Except ε α} {b : β}
    (h : f <$> x = .ok b) : ∃ a, x = .ok a ∧ f a = b := by
  cases x with
  | error e => cases h
  | ok a => exact ⟨a, rfl, Except.ok.inj h⟩

namespace StringLiteral

/-! ## Hexadecimal digits -/

/-- The hexadecimal digits in the order of their values. -/
def hexDigits : List Char :=
  ['0', '1', '2', '3', '4', '5', '6', '7', '8', '9', 'a', 'b', 'c', 'd', 'e', 'f']

/-- The character is a hexadecimal digit in lower or upper case. -/
def IsHexDigit (c : Char) : Prop :=
  c.toLower ∈ hexDigits

instance (c : Char) : Decidable (IsHexDigit c) :=
  inferInstanceAs (Decidable (c.toLower ∈ hexDigits))

/-- The value of a hexadecimal digit. -/
def hexValue (c : Char) : ℕ :=
  hexDigits.idxOf c.toLower

/-- The number that hexadecimal digits denote; the first one counts most. -/
def number (digits : List Char) : ℕ :=
  Nat.ofDigits 16 (digits.map hexValue).reverse

/-- Beyond the alphabet of the digits there are none. -/
theorem not_isHexDigit_of_le {c : Char} (hc : 128 ≤ c.toNat) : ¬ IsHexDigit c := by
  have hdigits : ∀ d ∈ hexDigits, d.toNat < 128 := by simp [hexDigits]
  have hlower : c.toLower = c := by
    refine dif_neg fun h => ?_
    have hle : c.toNat ≤ 90 := UInt32.le_iff_toNat_le.mp h.2
    omega
  rw [IsHexDigit, hlower]
  intro h
  exact absurd (hdigits c h) (Nat.not_lt.mpr hc)

theorem hexValue?_of_le {c : Char} (hc : 128 ≤ c.toNat) : hexValue? c = none := by
  have hgt {d : Char} (hd : d.toNat < 128) : ¬ c ≤ d := by
    intro h
    have hle : c.toNat ≤ d.toNat := UInt32.le_iff_toNat_le.mp (Char.le_def.mp h)
    omega
  rw [hexValue?, if_neg fun h => hgt (by decide) h.2, if_neg fun h => hgt (by decide) h.2,
    if_neg fun h => hgt (by decide) h.2]

theorem hexValue?_eq (c : Char) :
    hexValue? c = if IsHexDigit c then some (hexValue c) else none := by
  rcases Nat.lt_or_ge c.toNat 128 with hc | hc
  · have hall : ∀ n < 128, hexValue? (Char.ofNat n) =
        if IsHexDigit (Char.ofNat n) then some (hexValue (Char.ofNat n)) else none := by
      decide
    have h := hall c.toNat hc
    rwa [Char.ofNat_toNat] at h
  · rw [hexValue?_of_le hc, if_neg (not_isHexDigit_of_le hc)]

theorem mapM_hexValue?_eq_some_iff {digits : List Char} {values : List ℕ} :
    digits.mapM hexValue? = some values ↔
      (∀ c ∈ digits, IsHexDigit c) ∧ values = digits.map hexValue := by
  induction digits generalizing values with
  | nil => simp [eq_comm]
  | cons c digits ih =>
    rw [List.mapM_cons, hexValue?_eq]
    by_cases hc : IsHexDigit c
    · simp only [if_pos hc, bind, Option.bind_some, Option.bind_eq_some_iff, ih,
        List.forall_mem_cons]
      simp [hc, eq_comm]
    · simp [hc]

theorem foldl_eq_ofDigits (values : List ℕ) :
    values.foldl (16 * · + ·) 0 = Nat.ofDigits 16 values.reverse := by
  rw [Nat.ofDigits_eq_foldr, List.foldr_reverse]
  simp only [Nat.cast_id, add_comm]

/-- Four digits denote a character if their number is not that of a surrogate. -/
theorem codePoint?_eq_some_iff {digits : List Char} {d : Char} :
    codePoint? digits = some d ↔ (digits.length = 4 ∧ (∀ c ∈ digits, IsHexDigit c) ∧
      (number digits).isValidChar) ∧ d = Char.ofNat (number digits) := by
  simp only [codePoint?, bind, Option.bind_eq_some_iff, mapM_hexValue?_eq_some_iff]
  constructor
  · rintro ⟨_, ⟨hhex, rfl⟩, h⟩
    rw [List.length_map, foldl_eq_ofDigits] at h
    split_ifs at h with hlen
    rw [scalar?] at h
    split_ifs at h with hvalid
    exact ⟨⟨hlen, hhex, hvalid⟩, (Option.some.inj h).symm⟩
  · rintro ⟨⟨hlen, hhex, hvalid⟩, rfl⟩
    refine ⟨_, ⟨hhex, rfl⟩, ?_⟩
    rw [List.length_map, if_pos hlen, foldl_eq_ofDigits]
    exact if_pos hvalid

/-! ## Units -/

/-- What an escaped character other than `u` means, where it does not mean itself. -/
def controls : List (Char × Char) :=
  [('n', Char.ofNat 0x0A), ('r', Char.ofNat 0x0D), ('t', Char.ofNat 0x09), ('b', Char.ofNat 0x08),
    ('f', Char.ofNat 0x0C)]

/-- Hexadecimal digits of the code point of a character. -/
structure CodePoint where
  /-- The digits. -/
  digits : List Char
  /-- There are four. -/
  length : digits.length = 4
  /-- They are hexadecimal. -/
  hex : ∀ c ∈ digits, IsHexDigit c
  /-- Their number is that of a character, so it is not that of a surrogate. -/
  scalar : (number digits).isValidChar

/-- A unit of the body of a literal. -/
inductive LiteralUnit where
  /-- A character as it is. -/
  | plain (c : Char) (ne : c ≠ '\\')
  /-- A character after a backslash. -/
  | escaped (c : Char) (ne : c ≠ 'u')
  /-- A code point after a backslash and a `u`. -/
  | codePoint (p : CodePoint)

namespace LiteralUnit

/-- The unit as a literal spells it. -/
def text : LiteralUnit → List Char
  | plain c _ => [c]
  | escaped c _ => ['\\', c]
  | codePoint p => '\\' :: 'u' :: p.digits

/-- The character that the unit means. -/
def meaning : LiteralUnit → Char
  | plain c _ => c
  | escaped c _ => (controls.lookup c).getD c
  | codePoint p => Char.ofNat (number p.digits)

end LiteralUnit

variable {cs ds xs ys : List Char} {u u' : LiteralUnit}

theorem escapeMeaning_eq (c : Char) : escapeMeaning c = (controls.lookup c).getD c := by
  unfold escapeMeaning
  split
  any_goals rfl
  next hn hr ht hb hf =>
    simp [controls, List.lookup_cons, beq_eq_false_iff_ne.mpr hn, beq_eq_false_iff_ne.mpr hr,
      beq_eq_false_iff_ne.mpr ht, beq_eq_false_iff_ne.mpr hb, beq_eq_false_iff_ne.mpr hf]

/-- A unit is read first, whatever follows. -/
theorem unescape_text_append (u : LiteralUnit) (cs : List Char) :
    unescape (u.text ++ cs) = (u.meaning :: ·) <$> unescape cs := by
  cases u with
  | plain c ne => exact unescape_of_ne ne cs
  | escaped c ne =>
    rw [LiteralUnit.meaning, ← escapeMeaning_eq]
    exact unescape_escaped ne cs
  | codePoint p =>
    have hp := codePoint?_eq_some_iff.mpr ⟨⟨p.length, p.hex, p.scalar⟩, rfl⟩
    exact unescape_codePoint hp p.length cs

theorem unescape_flatMap_text (us : List LiteralUnit) :
    unescape (us.flatMap LiteralUnit.text) = .ok (us.map LiteralUnit.meaning) := by
  induction us with
  | nil => exact unescape_nil
  | cons u us ih =>
    rw [List.flatMap_cons, unescape_text_append, ih]
    rfl

/-- What is read consists of units. -/
theorem exists_units_of_unescape (h : unescape cs = .ok ds) :
    ∃ us : List LiteralUnit, cs = us.flatMap LiteralUnit.text := by
  fun_induction unescape cs generalizing ds with
  | case1 => exact ⟨[], rfl⟩
  | case2 => cases h
  | case3 rest d hd ih =>
    obtain ⟨ds, hds, -⟩ := exists_of_map_eq_ok h
    obtain ⟨us, hus⟩ := ih hds
    obtain ⟨⟨hlen, hhex, hscalar⟩, -⟩ := codePoint?_eq_some_iff.mp hd
    refine ⟨.codePoint ⟨_, hlen, hhex, hscalar⟩ :: us, ?_⟩
    rw [List.flatMap_cons, ← hus]
    simp [LiteralUnit.text]
  | case4 => cases h
  | case5 e rest he ih =>
    obtain ⟨ds, hds, -⟩ := exists_of_map_eq_ok h
    obtain ⟨us, rfl⟩ := ih hds
    exact ⟨.escaped e he :: us, rfl⟩
  | case6 c cs hc ih =>
    obtain ⟨ds, hds, -⟩ := exists_of_map_eq_ok h
    obtain ⟨us, rfl⟩ := ih hds
    exact ⟨.plain c hc :: us, rfl⟩

/-- A body is read unit by unit. -/
theorem unescape_eq_ok_iff : unescape cs = .ok ds ↔
    ∃ us : List LiteralUnit, cs = us.flatMap LiteralUnit.text ∧ ds = us.map LiteralUnit.meaning := by
  constructor
  · intro h
    obtain ⟨us, rfl⟩ := exists_units_of_unescape h
    rw [unescape_flatMap_text] at h
    exact ⟨us, rfl, (Except.ok.inj h).symm⟩
  · rintro ⟨us, rfl, rfl⟩
    exact unescape_flatMap_text us

/-! ## One way to read -/

theorem text_append_inj (h : u.text ++ xs = u'.text ++ ys) : u = u' ∧ xs = ys := by
  cases u with
  | plain c ne =>
    cases u' with
    | plain c' ne' =>
      obtain ⟨rfl, rfl⟩ := List.cons.inj h
      exact ⟨rfl, rfl⟩
    | escaped | codePoint => exact absurd (List.cons.inj h).1 ne
  | escaped c ne =>
    cases u' with
    | plain c' ne' => exact absurd (List.cons.inj h).1.symm ne'
    | escaped c' ne' =>
      obtain ⟨rfl, rfl⟩ := List.cons.inj (List.cons.inj h).2
      exact ⟨rfl, rfl⟩
    | codePoint => exact absurd (List.cons.inj (List.cons.inj h).2).1 ne
  | codePoint p =>
    cases u' with
    | plain c' ne' => exact absurd (List.cons.inj h).1.symm ne'
    | escaped c' ne' => exact absurd (List.cons.inj (List.cons.inj h).2).1.symm ne'
    | codePoint p' =>
      obtain ⟨digits, length, hex, scalar⟩ := p
      obtain ⟨digits', length', hex', scalar'⟩ := p'
      obtain ⟨rfl, rfl⟩ :=
        List.append_inj (List.cons.inj (List.cons.inj h).2).2 (length.trans length'.symm)
      exact ⟨rfl, rfl⟩

theorem text_ne_nil (u : LiteralUnit) : u.text ≠ [] := by
  cases u <;> exact List.cons_ne_nil _ _

/-- A body consists of units in one way. -/
theorem flatMap_text_injective :
    Function.Injective fun us : List LiteralUnit => us.flatMap LiteralUnit.text := by
  intro us
  induction us with
  | nil =>
    rintro (- | ⟨u', us'⟩) h
    · rfl
    · exact absurd (List.append_eq_nil_iff.mp h.symm).1 (text_ne_nil u')
  | cons u us ih =>
    rintro (- | ⟨u', us'⟩) h
    · exact absurd (List.append_eq_nil_iff.mp h).1 (text_ne_nil u)
    · obtain ⟨rfl, htail⟩ := text_append_inj h
      rw [ih htail]

/-! ## Literals -/

/-- The text starts and ends with the same quote, single or double, and consists of units in
between. -/
structure IsLiteral (t : String) (quote : Char) (us : List LiteralUnit) : Prop where
  /-- There is room for two quotes. -/
  two_le : 2 ≤ t.utf8ByteSize
  /-- The quote is single or double. -/
  isQuote : quote = '"' ∨ quote = '\''
  /-- It comes first. -/
  first : t.toList.head? = some quote
  /-- It comes last. -/
  last : t.toList.getLast? = some quote
  /-- The units are in between. -/
  body : t.toList.tail.dropLast = us.flatMap LiteralUnit.text

variable {t : String} {quote : Char} {us : List LiteralUnit}

theorem isLiteral_iff : IsLiteral t quote us ↔ (quote = '"' ∨ quote = '\'') ∧
    t.toList = quote :: (us.flatMap LiteralUnit.text ++ [quote]) := by
  constructor
  · intro h
    obtain ⟨rest, hrest⟩ := List.head?_eq_some_iff.mp h.first
    have htwo := h.two_le
    have hlast := h.last
    have hbody := h.body
    rw [← Text.byteLength_toList, hrest, Text.byteLength_cons] at htwo
    rw [hrest] at hlast hbody
    refine ⟨h.isQuote, ?_⟩
    cases rest with
    | nil =>
      have hsize : quote.utf8Size = 1 := by
        rcases h.isQuote with rfl | rfl <;> rfl
      rw [hsize, Text.byteLength_nil] at htwo
      omega
    | cons c rest =>
      rw [List.getLast?_cons_cons] at hlast
      obtain ⟨body, hb⟩ := List.getLast?_eq_some_iff.mp hlast
      rw [hb, List.tail_cons, List.dropLast_concat] at hbody
      rw [hrest, hb, hbody]
  · rintro ⟨hquote, ht⟩
    refine ⟨?_, hquote, ?_, ?_, ?_⟩
    · have hpos := quote.utf8Size_pos
      rw [← Text.byteLength_toList, ht, Text.byteLength_cons, Text.byteLength_append,
        Text.byteLength_cons]
      omega
    · rw [ht, List.head?_cons]
    · rw [ht, ← List.cons_append, List.getLast?_concat]
    · rw [ht, List.tail_cons, List.dropLast_concat]

theorem decode_eq_ok_iff : decode cs = .ok ds ↔ ∃ quote, ∃ us : List LiteralUnit,
    ((quote = '"' ∨ quote = '\'') ∧ cs = quote :: (us.flatMap LiteralUnit.text ++ [quote])) ∧
      ds = us.map LiteralUnit.meaning := by
  constructor
  · intro h
    unfold decode at h
    split at h
    · cases h
    · next quote rest =>
      split_ifs at h with hquote hlast
      obtain ⟨body, rfl⟩ := List.getLast?_eq_some_iff.mp hlast
      rw [List.dropLast_concat] at h
      obtain ⟨us, rfl, rfl⟩ := unescape_eq_ok_iff.mp h
      exact ⟨quote, us, ⟨hquote, rfl⟩, rfl⟩
  · rintro ⟨quote, us, ⟨hquote, rfl⟩, rfl⟩
    unfold decode
    dsimp only
    rw [if_pos hquote, if_pos List.getLast?_concat, List.dropLast_concat]
    exact unescape_flatMap_text us

theorem toValue_string_eq_ok_iff {library : DecimalLibrary} {v : Value} :
    Converter.string.toValue library t = .ok v ↔
      ∃ quote us, IsLiteral t quote us ∧
        v = .text (String.ofList (us.map LiteralUnit.meaning)) := by
  simp only [isLiteral_iff]
  constructor
  · intro h
    rw [Converter.toValue] at h
    cases hd : decode t.toList with
    | error e =>
      rw [hd] at h
      cases h
    | ok ds =>
      rw [hd] at h
      obtain ⟨quote, us, hus, rfl⟩ := decode_eq_ok_iff.mp hd
      exact ⟨quote, us, hus, (Except.ok.inj h).symm⟩
  · rintro ⟨quote, us, hus, rfl⟩
    rw [Converter.toValue, decode_eq_ok_iff.mpr ⟨quote, us, hus, rfl⟩]
    rfl

theorem IsLiteral.unique {quote' : Char} {us' : List LiteralUnit} (h : IsLiteral t quote us)
    (h' : IsLiteral t quote' us') : quote' = quote ∧ us' = us :=
  ⟨Option.some.inj (h'.first.symm.trans h.first),
    flatMap_text_injective (h'.body.symm.trans h.body)⟩

/-- A text is read as a string literal if and only if it has the form of one. It has the form in one
way only, and what is read is what the units mean, one character after the other. -/
theorem toValue_string_iff (library : DecimalLibrary) (t : String) :
    ((∃ v, Converter.string.toValue library t = .ok v) ↔ ∃ quote us, IsLiteral t quote us) ∧
    ∀ quote us, IsLiteral t quote us →
      Converter.string.toValue library t =
        .ok (.text (String.ofList (us.map LiteralUnit.meaning))) ∧
      ∀ quote' us', IsLiteral t quote' us' → quote' = quote ∧ us' = us := by
  refine ⟨⟨?_, ?_⟩, ?_⟩
  · rintro ⟨v, hv⟩
    obtain ⟨quote, us, h, -⟩ := toValue_string_eq_ok_iff.mp hv
    exact ⟨quote, us, h⟩
  · rintro ⟨quote, us, h⟩
    exact ⟨_, toValue_string_eq_ok_iff.mpr ⟨quote, us, h, rfl⟩⟩
  · intro quote us h
    exact ⟨toValue_string_eq_ok_iff.mpr ⟨quote, us, h, rfl⟩, fun _ _ h' => h.unique h'⟩

/-! ## Writing -/

/-- A character is written as a unit that means it. -/
theorem exists_unit_of_escape (c : Char) : ∃ u : LiteralUnit, u.text = escape c ∧ u.meaning = c := by
  unfold escape
  split
  · exact ⟨.escaped 'n' (by decide), rfl, rfl⟩
  · exact ⟨.escaped 'r' (by decide), rfl, rfl⟩
  · exact ⟨.escaped 't' (by decide), rfl, rfl⟩
  · exact ⟨.escaped '"' (by decide), rfl, rfl⟩
  · exact ⟨.escaped '\\' (by decide), rfl, rfl⟩
  · next hbackslash => exact ⟨.plain c hbackslash, rfl, rfl⟩

theorem exists_units_of_flatMap_escape (cs : List Char) : ∃ us : List LiteralUnit,
    us.flatMap LiteralUnit.text = cs.flatMap escape ∧ us.map LiteralUnit.meaning = cs := by
  induction cs with
  | nil => exact ⟨[], rfl, rfl⟩
  | cons c cs ih =>
    obtain ⟨u, htext, hmeaning⟩ := exists_unit_of_escape c
    obtain ⟨us, htexts, hmeanings⟩ := ih
    refine ⟨u :: us, ?_, ?_⟩
    · rw [List.flatMap_cons, List.flatMap_cons, htext, htexts]
    · rw [List.map_cons, hmeaning, hmeanings]

/-- Every text has a literal, and the literal is read as the text. -/
theorem toValue_toText_string (library : DecimalLibrary) (s : String) : ∃ literal,
    Converter.string.toText library (.text s) = .ok literal ∧
      Converter.string.toValue library literal = .ok (.text s) := by
  refine ⟨_, rfl, ?_⟩
  obtain ⟨us, htext, hmeaning⟩ := exists_units_of_flatMap_escape s.toList
  refine toValue_string_eq_ok_iff.mpr ⟨'"', us, isLiteral_iff.mpr ⟨Or.inl rfl, ?_⟩, ?_⟩
  · rw [String.toList_ofList, encode, htext, List.cons_append]
  · rw [hmeaning, String.ofList_toList]

end StringLiteral

end ParseTree
