import ParseTree.Issue.Diagnostic
import ParseTree.Issue.Lines

/-!
# Diagnostics on a terminal

Each diagnostic is a block of lines: a head with severity, code and message, then a line for every
label and note. Labels are placed by line and column when the source is known, by byte range
otherwise. Colors are optional.

## Main definitions

* `ColorMode`: when colors are used
* `Terminal`: colors and source of a rendering
* `Terminal.render`, `Terminal.renderAll`, `summary`: blocks and the closing line
-/

namespace ParseTree

/-- When colors are used. -/
inductive ColorMode where
  /-- On interactive terminals. -/
  | auto
  /-- Always. -/
  | always
  /-- Never. -/
  | never
deriving DecidableEq, Repr

/-- Colors are used, given whether the output is an interactive terminal. -/
def ColorMode.enabled (mode : ColorMode) (interactive : Bool) : Bool :=
  match mode with
  | auto => interactive
  | always => true
  | never => false

/-- A way to highlight text. -/
inductive Highlight where
  /-- Bold red. -/
  | red
  /-- Bold yellow. -/
  | yellow
  /-- Bold cyan. -/
  | cyan
  /-- Bold blue. -/
  | blue
  /-- Bold. -/
  | bold
deriving DecidableEq, Repr

/-- The escape sequence that switches a highlight on. -/
def Highlight.escape : Highlight → String
  | red => "\x1b[1;31m"
  | yellow => "\x1b[1;33m"
  | cyan => "\x1b[1;36m"
  | blue => "\x1b[1;34m"
  | bold => "\x1b[1m"

/-- A source text under the name it is reported by. -/
structure NamedSource where
  /-- The name. -/
  name : String
  /-- The text. -/
  text : String
deriving DecidableEq, Repr

/-- How diagnostics are rendered. -/
structure Terminal where
  /-- Highlights are written. -/
  colors : Bool
  /-- The text that spans refer to. -/
  source : Option NamedSource
deriving DecidableEq, Repr

namespace Terminal

/-- A text with a highlight, if colors are on. -/
def paint (t : Terminal) (highlight : Highlight) (text : String) : String :=
  if t.colors then highlight.escape ++ text ++ "\x1b[0m" else text

/-- The place of a span: name, line and column of its start, or its byte range. -/
def place (t : Terminal) (span : Span) : String :=
  match t.source with
  | some source =>
    let p := lineColumn source.text span.start
    s!"{source.name}:{p.1}:{p.2}"
  | none => span.inspect

/-- The highlight of a severity. -/
def severityHighlight : Severity → Highlight
  | .error => .red
  | .warning => .yellow

/-- The line of a label. -/
def labelLine (t : Terminal) (severity : Severity) (l : Label) : String :=
  "  " ++ (if l.isPrimary then "-->" else "   ") ++ " " ++ t.place l.span ++ ": " ++
    t.paint (if l.isPrimary then severityHighlight severity else .blue) l.message ++ "\n"

/-- The line of a note. -/
def noteLine (t : Terminal) (note : String) : String :=
  "  = " ++ t.paint .cyan "note" ++ ": " ++ note ++ "\n"

/-- The block of a diagnostic. -/
def render (t : Terminal) (d : Diagnostic) : String :=
  t.paint (severityHighlight d.severity) d.severity.text ++
    t.paint .bold ("[" ++ d.code.text ++ "]") ++ ": " ++ d.message ++ "\n" ++
    String.join (d.labels.map (t.labelLine d.severity)) ++
    String.join (d.notes.map t.noteLine)

/-- The blocks of diagnostics, one after the other. -/
def renderAll (t : Terminal) (ds : List Diagnostic) : String :=
  String.join (ds.map t.render)

end Terminal

/-- A count with its noun, nothing for zero. -/
def counted (count : Nat) (noun : String) : Option String :=
  match count with
  | 0 => none
  | 1 => some ("1 " ++ noun)
  | n => some (s!"{n} " ++ noun ++ "s")

/-- The closing line about the numbers of errors and warnings; empty if there are none. -/
def summary (errors warnings : Nat) : String :=
  match [counted errors "error", counted warnings "warning"].filterMap id with
  | [] => ""
  | parts => ", ".intercalate parts ++ " emitted\n"

end ParseTree
