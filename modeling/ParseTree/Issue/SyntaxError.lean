import ParseTree.Issue.Code

/-!
# Syntax errors

The error message that a node of a tree carries. A node has at most one; further messages are
appended to it.

## Main definitions

* `SyntaxError`: a message with an optional issue code
* `SyntaxError.merge`: one error for two messages; the first code counts
-/

namespace ParseTree

/-- A message about the syntax of a part of the input. -/
structure SyntaxError where
  /-- The message. -/
  message : String
  /-- The kind of problem. -/
  code : Option IssueCode
deriving DecidableEq, Repr

namespace SyntaxError

/-- One error for both messages, with the first code that is present. -/
def merge (e f : SyntaxError) : SyntaxError :=
  ⟨e.message ++ "; " ++ f.message, e.code.or f.code⟩

/-- The message after its code. -/
def text (e : SyntaxError) : String :=
  match e.code with
  | some code => "[" ++ code.text ++ "] " ++ e.message
  | none => e.message

/-- The error of a node that gets one more message. -/
def mergeInto (slot : Option SyntaxError) (e : SyntaxError) : Option SyntaxError :=
  some (slot.elim e (·.merge e))

end SyntaxError

end ParseTree
