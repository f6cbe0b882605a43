import ParseTree.Text.Printable

/-!
# Inspection notation

How values are written in inspection output: quoted strings with escapes, options, lists and
records.

## Main definitions

* `quoted s`: the string between double quotes, with quotes, backslashes and unprintable characters
  escaped
* `inspectOption`, `inspectList`, `inspectRecord`: options, lists and records of written values

## Main results

* `escape_eq_of_isPrintable`: a printable character other than the quote and the backslash is
  written as itself
-/

namespace ParseTree.Text

/-- The lower-case hexadecimal digits of a number, without leading zeros. -/
def hexDigits (n : Nat) : String :=
  String.ofList (Nat.toDigits 16 n)

/-- A character inside a quoted string. -/
def escape (c : Char) : String :=
  match c with
  | '\x00' => "\\0"
  | '\t' => "\\t"
  | '\n' => "\\n"
  | '\r' => "\\r"
  | '"' => "\\\""
  | '\\' => "\\\\"
  | c => if IsPrintable c then String.singleton c else "\\u\x7b" ++ hexDigits c.toNat ++ "\x7d"

/-- The string between double quotes. -/
def quoted (s : String) : String :=
  "\"" ++ String.join (s.toList.map escape) ++ "\""

/-- An optional value, given the writing of the value. -/
def inspectOption {α : Type} (inspect : α → String) : Option α → String
  | none => "None"
  | some a => "Some(" ++ inspect a ++ ")"

/-- Written values between square brackets, separated by commas. -/
def inspectList (items : List String) : String :=
  "[" ++ ", ".intercalate items ++ "]"

/-- A record: its name and its fields with their written values. -/
def inspectRecord (name : String) (fields : List (String × String)) : String :=
  name ++ " \x7b " ++ ", ".intercalate (fields.map fun f => f.1 ++ ": " ++ f.2) ++ " \x7d"

theorem escape_eq_of_isPrintable {c : Char} (h : IsPrintable c) (hq : c ≠ '"') (hb : c ≠ '\\') :
    escape c = String.singleton c := by
  have control {d : Char} (hd : d.toNat ≤ 0x1F) : c ≠ d := fun e =>
    h (0x0, 0x1F) (by simp [unprintableRanges, unprintableLatinRanges]) (by subst e; simpa using hd)
  have h₀ : c ≠ '\x00' := control (by decide)
  have h₁ : c ≠ '\t' := control (by decide)
  have h₂ : c ≠ '\n' := control (by decide)
  have h₃ : c ≠ '\r' := control (by decide)
  unfold escape
  split <;> simp_all

end ParseTree.Text
