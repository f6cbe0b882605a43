/-!
# Issue codes

Every kind of problem that a parse can report has a code of a letter and four digits. The first
digit tells the phase that found the problem.

## Main definitions

* `IssueCode`: the codes, with their text and description
* `IssueCode.ofText?`: the code that a text denotes

## Main results

* `ofText?_text`: the text of a code denotes the code
-/

namespace ParseTree

/-- A kind of problem. -/
inductive IssueCode where
  /-- A character sequence that is no token. -/
  | invalidToken
  /-- A token other than the expected one. -/
  | mismatchedInput
  /-- A token before the expected one. -/
  | extraneousInput
  /-- An expected token that is absent. -/
  | missingToken
  /-- A decision without a fitting alternative. -/
  | noAlternative
  /-- An unordered group left without all its mandatory members. -/
  | incompleteGroup
  /-- A loop that has to match at least once and did not. -/
  | requiredElement
  /-- A semantic predicate that does not hold. -/
  | failedPredicate
  /-- A text that denotes no value. -/
  | valueConversion
deriving DecidableEq, Repr

namespace IssueCode

/-- All codes in ascending order. -/
def all : List IssueCode :=
  [invalidToken, mismatchedInput, extraneousInput, missingToken, noAlternative, incompleteGroup,
   requiredElement, failedPredicate, valueConversion]

/-- The code as text. -/
def text : IssueCode → String
  | invalidToken => "E0001"
  | mismatchedInput => "E1001"
  | extraneousInput => "E1002"
  | missingToken => "E1003"
  | noAlternative => "E1004"
  | incompleteGroup => "E1005"
  | requiredElement => "E1006"
  | failedPredicate => "E1007"
  | valueConversion => "E2001"

/-- A short description. -/
def description : IssueCode → String
  | invalidToken => "invalid token"
  | mismatchedInput => "mismatched input"
  | extraneousInput => "extraneous input"
  | missingToken => "missing token"
  | noAlternative => "no viable alternative"
  | incompleteGroup => "incomplete unordered group"
  | requiredElement => "required element missing"
  | failedPredicate => "failed predicate"
  | valueConversion => "value conversion failed"

/-- What finds a problem. -/
inductive Phase where
  /-- Reading tokens. -/
  | lexical
  /-- Recognizing rules. -/
  | syntactic
  /-- Building semantic elements. -/
  | semantic
deriving DecidableEq, Repr

/-- The phase that finds problems with the code. -/
def phase : IssueCode → Phase
  | invalidToken => .lexical
  | valueConversion => .semantic
  | _ => .syntactic

/-- The code that a text denotes. -/
def ofText? (s : String) : Option IssueCode :=
  all.find? (·.text == s)

theorem ofText?_text (c : IssueCode) : ofText? c.text = some c := by
  cases c <;> decide

end IssueCode

end ParseTree
