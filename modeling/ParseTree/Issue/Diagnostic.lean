import ParseTree.Issue.Code
import ParseTree.Span

/-!
# Diagnostics

A diagnostic is one reportable problem: its code, a message, labelled spans and notes.

## Main definitions

* `Diagnostic`: the problem
* `Diagnostic.ofSyntaxError`: the diagnostic of a message attached to a span
* `Diagnostic.text`: the diagnostic with raw byte ranges, one line a label and note
-/

namespace ParseTree

/-- How serious a problem is. -/
inductive Severity where
  /-- The input is wrong. -/
  | error
  /-- The input is doubtful. -/
  | warning
deriving DecidableEq, Repr

/-- The word for a severity. -/
def Severity.text : Severity → String
  | error => "error"
  | warning => "warning"

/-- A span with an explanation. -/
structure Label where
  /-- The labelled span. -/
  span : Span
  /-- The explanation. -/
  message : String
  /-- The span is where the problem is, and not related context. -/
  isPrimary : Bool
deriving DecidableEq, Repr

/-- A reportable problem. -/
structure Diagnostic where
  /-- The kind of problem. -/
  code : IssueCode
  /-- How serious it is. -/
  severity : Severity
  /-- What is wrong. -/
  message : String
  /-- The labelled spans in order. -/
  labels : List Label
  /-- Further remarks in order. -/
  notes : List String
deriving DecidableEq, Repr

namespace Diagnostic

/-- The error for a message attached to a span, labelled with the description of its code. -/
def ofSyntaxError (code : IssueCode) (message : String) (span : Span) : Diagnostic :=
  ⟨code, .error, message, [⟨span, code.description, true⟩], []⟩

/-- The diagnostic with one more label. -/
def addLabel (d : Diagnostic) (label : Label) : Diagnostic :=
  { d with labels := d.labels ++ [label] }

/-- The diagnostic with one more note. -/
def addNote (d : Diagnostic) (note : String) : Diagnostic :=
  { d with notes := d.notes ++ [note] }

/-- The span of the first primary label. -/
def primarySpan? (d : Diagnostic) : Option Span :=
  (d.labels.find? (·.isPrimary)).map (·.span)

/-- The head line, then a line for every label and every note. -/
def text (d : Diagnostic) : String :=
  d.severity.text ++ "[" ++ d.code.text ++ "]: " ++ d.message ++
    String.join (d.labels.map labelLine) ++ String.join (d.notes.map ("\n  note: " ++ ·))
where
  /-- The line of a label. -/
  labelLine (l : Label) : String :=
    "\n  " ++ (if l.isPrimary then "at" else "see") ++ " " ++ l.span.inspect ++ ": " ++ l.message

end Diagnostic

end ParseTree
