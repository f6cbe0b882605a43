/-!
# String literals

A string literal is a text between two equal quotes, single or double. A backslash escapes the
character after it, or four hexadecimal digits after a `u`.

## Main definitions

* `LiteralFault`: why a text is no literal
* `StringLiteral.unescape`, `StringLiteral.decode`: the text of a literal body, of a literal
* `StringLiteral.encode`: a double-quoted literal for a text

## Main results

* `unescape_of_ne`, `unescape_escaped`, `unescape_codePoint`: a plain character, an escape and a
  code point are each read as one unit
-/

namespace ParseTree

/-- Why a text is no string literal. -/
inductive LiteralFault where
  /-- It does not start with a quote. -/
  | unquoted
  /-- It does not end with the quote it starts with. -/
  | unterminated
  /-- The characters after a `u` are not four digits of a code point. -/
  | badCodePoint (digits : List Char)
  /-- A backslash is the last character. -/
  | danglingEscape
deriving DecidableEq, Repr

/-- The wording of a fault. -/
def LiteralFault.message : LiteralFault → String
  | unquoted => "String literal is not quoted."
  | unterminated => "String literal is not terminated."
  | badCodePoint digits => "Illegal unicode escape '\\u" ++ String.ofList digits ++ "'."
  | danglingEscape => "String literal ends with an escape character."

namespace StringLiteral

/-- The value of a hexadecimal digit. -/
def hexValue? (c : Char) : Option Nat :=
  if '0' ≤ c ∧ c ≤ '9' then some (c.toNat - '0'.toNat)
  else if 'a' ≤ c ∧ c ≤ 'f' then some (c.toNat - 'a'.toNat + 10)
  else if 'A' ≤ c ∧ c ≤ 'F' then some (c.toNat - 'A'.toNat + 10)
  else none

/-- The character with a code point, which is not a surrogate. -/
def scalar? (n : Nat) : Option Char :=
  if n.isValidChar then some (Char.ofNat n) else none

/-- The character that four hexadecimal digits denote. -/
def codePoint? (digits : List Char) : Option Char := do
  let values ← digits.mapM hexValue?
  if values.length = 4 then scalar? (values.foldl (16 * · + ·) 0) else none

/-- What an escaped character other than `u` denotes: a control character or itself. -/
def escapeMeaning (c : Char) : Char :=
  match c with
  | 'n' => '\n'
  | 'r' => '\r'
  | 't' => '\t'
  | 'b' => '\x08'
  | 'f' => '\x0c'
  | c => c

/-- The text that the body of a literal denotes. -/
def unescape : List Char → Except LiteralFault (List Char)
  | [] => .ok []
  | c :: cs =>
    if c = '\\' then
      match cs with
      | [] => .error .danglingEscape
      | e :: rest =>
        if e = 'u' then
          match codePoint? (rest.take 4) with
          | some d => (d :: ·) <$> unescape (rest.drop 4)
          | none => .error (.badCodePoint (rest.take 4))
        else (escapeMeaning e :: ·) <$> unescape rest
    else (c :: ·) <$> unescape cs
termination_by cs => cs.length
decreasing_by all_goals (simp only [List.length_cons, List.length_drop]; omega)

/-- The text that a literal denotes. -/
def decode (cs : List Char) : Except LiteralFault (List Char) :=
  match cs with
  | [] => .error .unquoted
  | quote :: rest =>
    if quote = '"' ∨ quote = '\'' then
      if rest.getLast? = some quote then unescape rest.dropLast else .error .unterminated
    else .error .unquoted

/-- A character in a double-quoted literal. -/
def escape (c : Char) : List Char :=
  match c with
  | '\n' => ['\\', 'n']
  | '\r' => ['\\', 'r']
  | '\t' => ['\\', 't']
  | '"' => ['\\', '"']
  | '\\' => ['\\', '\\']
  | c => [c]

/-- A double-quoted literal for a text. -/
def encode (cs : List Char) : List Char :=
  '"' :: cs.flatMap escape ++ ['"']

@[simp] theorem unescape_nil : unescape [] = .ok [] := by
  simp [unescape]

theorem unescape_of_ne {c : Char} (h : c ≠ '\\') (cs : List Char) :
    unescape (c :: cs) = (c :: ·) <$> unescape cs := by
  rw [unescape.eq_def]; simp [h]

theorem unescape_escaped {e : Char} (h : e ≠ 'u') (cs : List Char) :
    unescape ('\\' :: e :: cs) = (escapeMeaning e :: ·) <$> unescape cs := by
  rw [unescape]; simp [h]

theorem unescape_codePoint {digits : List Char} {d : Char} (h : codePoint? digits = some d)
    (hl : digits.length = 4) (cs : List Char) :
    unescape ('\\' :: 'u' :: (digits ++ cs)) = (d :: ·) <$> unescape cs := by
  rw [unescape]
  simp [← hl, h]

end StringLiteral

end ParseTree
