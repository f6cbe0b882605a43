import ParseTree.Script.Basic

/-!
# Traces

A run of a program leaves a trace: an entry for every finished step, every decided condition and
both ends of every call.

## Main definitions

* `Outcome`: what a step came to
* `TraceEntry`: an entry of a trace
-/

namespace ParseTree

/-- What a step came to. -/
inductive Outcome where
  /-- Nothing to tell. -/
  | done
  /-- A register that the step needs is empty. -/
  | unset
  /-- The kind of a token. -/
  | kind (k : TokenKind)
  /-- A token. -/
  | token (t : Token)
  /-- A text. -/
  | text (s : String)
  /-- An element, or none from a call that produced none. -/
  | element (id : Option SemanticId)
  /-- A recognition error that was kept. -/
  | failure (e : RecognitionError)
  /-- Attempted steps succeeded or not; the last visible token before the cursor. -/
  | attempted (succeeded : Bool) (last : Token)
deriving DecidableEq

/-- An entry of a trace. -/
inductive TraceEntry where
  /-- A script was called. -/
  | started (script : Nat)
  /-- A script ended with its element or failed. -/
  | ended (result : Except ParseError (Option SemanticId))
  /-- A condition was decided. -/
  | decided (value : Bool)
  /-- A step was finished or failed. -/
  | finished (step : Step) (result : Except ParseError Outcome)

end ParseTree
