import ParseTree.Grammar.Walk
import ParseTree.Recognition.Config
import ParseTree.Recognition.Error
import ParseTree.Token.Stream

/-!
# Error messages

Before a failure becomes a syntax error, a provider puts it into words. It sees the failure together
with the state in which it occurred.

## Main definitions

* `ErrorContext`, `GroupContext`, `ValueContext`: a recognition error, an unordered group that is
  left too early, a refused value, each with its surroundings
* `MessageProvider`: the wording of each
* `MessageProvider.standard`: short messages with issue codes
* `MessageProvider.detailed`: everything the contexts know, without issue codes
-/

namespace ParseTree

/-- A recognition error and the state it occurred in. -/
structure ErrorContext where
  /-- The error. -/
  error : RecognitionError
  /-- The open composite. -/
  node : NodeView
  /-- The settings. -/
  config : Config
  /-- The tokens. -/
  stream : TokenStream

/-- The text between quotes, with line breaks and tabs escaped. -/
def displayed (text : String) : String :=
  "'" ++ String.join (text.toList.map displayedChar) ++ "'"
where
  /-- A character of a displayed text. -/
  displayedChar (c : Char) : String :=
    match c with
    | '\n' => "\\n"
    | '\r' => "\\r"
    | '\t' => "\\t"
    | c => String.singleton c

namespace ErrorContext

/-- A token as messages show it. -/
def display (c : ErrorContext) (t : Token) : String :=
  displayed
    (if t.kind = .endOfInput then "<EOF>"
     else if t.isSynthetic then "<missing " ++ c.config.tokenName t.kind ++ ">"
     else c.stream.textOf t)

/-- The message in default words. -/
def defaultMessage (c : ErrorContext) : String :=
  let found := c.display c.error.token
  match c.error.fault with
  | .unwanted expecting =>
    "extraneous input " ++ found ++ " expecting " ++ c.config.tokenName expecting
  | .missing expecting _ => "missing " ++ c.config.tokenName expecting ++ " at " ++ found
  | .mismatched expecting =>
    "mismatched input " ++ found ++ " expecting " ++ c.config.tokenName expecting
  | .noAlternative _ => "no viable alternative at input " ++ found
  | .earlyExit _ => "required (...)+ loop did not match anything at input " ++ found
  | .failedPredicate rule predicate _ =>
    "rule " ++ rule ++ " failed predicate: \x7b" ++ predicate ++ "\x7d?"

/-- The issue code of the error. -/
def code (c : ErrorContext) : IssueCode :=
  match c.error.fault with
  | .mismatched _ => .mismatchedInput
  | .unwanted _ => .extraneousInput
  | .missing _ _ => .missingToken
  | .noAlternative _ => .noAlternative
  | .earlyExit _ => .requiredElement
  | .failedPredicate .. => .failedPredicate

end ErrorContext

/-- An unordered group that is left too early. -/
structure GroupContext where
  /-- The error and its surroundings. -/
  parser : ErrorContext
  /-- The group. -/
  group : ElementId
  /-- The members that must occur and could still be selected. -/
  missing : List ElementId
  /-- The grammar. -/
  grammar : Grammar

/-- The message in default words, which names the missing members. -/
def GroupContext.defaultMessage (c : GroupContext) : String :=
  if c.missing.isEmpty then c.parser.defaultMessage
  else
    "unordered group " ++ c.grammar.describeD c.group ++ " is incomplete, missing " ++
      ", ".intercalate (c.missing.map c.grammar.describeD)

/-- A value that a factory refused. -/
structure ValueContext where
  /-- The refusal. -/
  error : ConversionError
  /-- The open composite. -/
  node : NodeView

/-- The message of the refusal, or a general one if it is empty. -/
def ValueContext.defaultMessage (c : ValueContext) : String :=
  if c.error.message.isEmpty then "value conversion failed" else c.error.message

/-- A way to put failures into words. -/
structure MessageProvider where
  /-- The syntax error for a recognition error. -/
  parser : ErrorContext → SyntaxError
  /-- The syntax error for an unordered group that is left too early. -/
  group : GroupContext → SyntaxError
  /-- The syntax error for a refused value. -/
  value : ValueContext → SyntaxError

namespace MessageProvider

/-- The default messages with their issue codes. -/
def standard : MessageProvider where
  parser c := ⟨c.defaultMessage, some c.code⟩
  group c := ⟨c.defaultMessage, some .incompleteGroup⟩
  value c := ⟨c.defaultMessage, some .valueConversion⟩

/-- The semantic element of a view as a number. -/
def contextText (v : NodeView) : String :=
  v.enclosingElement?.elim "none" fun e => toString e.index

/-- All that is known of a recognition error. -/
def detailedParser (c : ErrorContext) : String :=
  let expecting := c.error.fault.expecting?.elim "none" c.config.tokenName
  let inserted := match c.error.fault with
    | .missing _ t => c.display t
    | _ => "none"
  "parser[" ++ c.error.message ++ s!"] index={c.error.index} expecting={expecting}" ++
    s!" node={c.node.id.index} span=" ++ c.node.span.inspect ++ " context=" ++
    contextText c.node ++ " found=" ++ c.display c.error.token ++
    s!" inserted={inserted} default=" ++ c.defaultMessage

/-- All that is known of an unordered group that is left too early. -/
def detailedGroup (c : GroupContext) : String :=
  let missing := ", ".intercalate (c.missing.map fun m => toString m.index)
  s!"group[{c.group.index}] grammar={c.grammar.name} missing=[{missing}] parser=" ++
    c.parser.defaultMessage ++ " default=" ++ c.defaultMessage

/-- All that is known of a refused value. -/
def detailedValue (c : ValueContext) : String :=
  "value[" ++ c.error.message ++ s!"] node={c.node.id.index} context=" ++ contextText c.node ++
    " default=" ++ c.defaultMessage

/-- All that the contexts know, without issue codes. -/
def detailed : MessageProvider where
  parser c := ⟨detailedParser c, none⟩
  group c := ⟨detailedGroup c, none⟩
  value c := ⟨detailedValue c, none⟩

end MessageProvider

end ParseTree
