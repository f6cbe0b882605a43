import ParseTree.Grammar.Basic
import ParseTree.Model.Factory
import ParseTree.Tree.Check

/-!
# Recognition errors and parse errors

A recognition error says which token did not fit and why. Most of them are recovered from and end up
in the tree; a parse error ends the parse.

## Main definitions

* `RecognitionFault`, `RecognitionError`: why and where recognition failed
* `ParseError`: why a parse ended without a tree
-/

namespace ParseTree

/-- Why a token does not fit. -/
inductive RecognitionFault where
  /-- Another kind of token was expected. -/
  | mismatched (expecting : TokenKind)
  /-- The token is extra: the next one is of the expected kind. -/
  | unwanted (expecting : TokenKind)
  /-- The expected token is absent, and a placeholder stands for it. -/
  | missing (expecting : TokenKind) (inserted : Token)
  /-- No alternative of a decision fits. -/
  | noAlternative (decision : Nat)
  /-- A loop that has to match at least once did not. -/
  | earlyExit (decision : Nat)
  /-- A predicate does not hold, maybe that of leaving an unordered group. -/
  | failedPredicate (rule predicate : String) (group : Option ElementId)
deriving DecidableEq, Repr

/-- The wording of a fault. -/
def RecognitionFault.message : RecognitionFault → String
  | mismatched expecting => "mismatched token, expecting " ++ expecting.inspect
  | unwanted expecting => "unwanted token, expecting " ++ expecting.inspect
  | missing expecting _ => "missing token " ++ expecting.inspect
  | noAlternative decision => s!"no viable alternative (decision {decision})"
  | earlyExit decision => s!"loop matched nothing (decision {decision})"
  | failedPredicate rule predicate _ =>
    "rule " ++ rule ++ " failed predicate \x7b" ++ predicate ++ "\x7d?"

/-- The kind of token that was expected, if it was one. -/
def RecognitionFault.expecting? : RecognitionFault → Option TokenKind
  | mismatched expecting | unwanted expecting | missing expecting _ => some expecting
  | _ => none

/-- A recognition failure. -/
structure RecognitionError where
  /-- Why the token does not fit. -/
  fault : RecognitionFault
  /-- The token; synthetic at the end of the input. -/
  token : Token
  /-- The position of the cursor. -/
  index : Nat
deriving DecidableEq, Repr

/-- The fault and the offset of the token. -/
def RecognitionError.message (e : RecognitionError) : String :=
  e.fault.message ++ s!" at offset {e.token.span.start}"

/-- A failure that ends a parse. -/
inductive ParseError where
  /-- A recognition error that nothing recovered from. -/
  | recognition (error : RecognitionError)
  /-- No rule has the name. -/
  | unknownRule (name : String)
  /-- Two rules have the same entry name. -/
  | duplicateRule (name : String)
  /-- The semantic factory gave up. -/
  | internal (error : ConversionError)
  /-- A node is bound to another element already. -/
  | reassignment (node : NodeId)
  /-- The finished tree is malformed. -/
  | invariant (violation : Violation)
deriving DecidableEq, Repr

/-- The wording of a parse error. -/
def ParseError.message : ParseError → String
  | recognition error => error.message
  | unknownRule name => "unknown entry rule `" ++ name ++ "`"
  | duplicateRule name => "entry rule `" ++ name ++ "` is already registered"
  | internal error => "internal error during value conversion: " ++ error.message
  | reassignment node => "reassignment of semantic element on node " ++ node.inspect
  | invariant violation => "syntax tree is malformed: " ++ violation.message

end ParseTree
