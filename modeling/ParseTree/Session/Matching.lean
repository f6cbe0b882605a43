import ParseTree.Session.Leaves

/-!
# Matching tokens and recovering from errors

A token that does not match is first tried as an extra one, then the expected token as a missing
one. If neither explains the input, the match fails; a rule that catches the failure skips tokens
until one follows that some rule in progress can go on with.

## Main definitions

* `contextFollow`, `resyncSet`: what may follow the current rule, where recovery stops
* `Session.matchToken`: a token is matched
* `Session.report`, `Session.recover`, `Session.catchError`: the stages of recovery
* `Session.groupFailure`: the failure of leaving an unordered group
-/

namespace ParseTree

/-- The kinds that may follow the current rule. Follow sets are united from the innermost on as long
as each allows its rule to end; if all of them do, the input may end. -/
def contextFollow : List TokenSet → TokenSet
  | follow => go ∅ follow
where
  /-- Goes outwards with the kinds found so far. -/
  go (found : TokenSet) : List TokenSet → TokenSet
    | [] => (found.erase .endOfRule).insert .endOfInput
    | set :: outer =>
      if .endOfRule ∈ set then go (found.union set) outer
      else (found.union set).erase .endOfRule

/-- The kinds at which recovery stops: those in any of the follow sets. -/
def resyncSet (follow : List TokenSet) : TokenSet :=
  (follow.foldr (fun set (found : TokenSet) => found.union set) ∅).erase .endOfRule

namespace Session

variable {σ γ : Type}

/-- A rule is called whose call is followed by a token of a set. -/
def pushFollow (s : Session σ γ) (set : TokenSet) : Session σ γ :=
  { s with follow := set :: s.follow }

/-- The rule called last returns. -/
def popFollow (s : Session σ γ) : Session σ γ :=
  { s with follow := s.follow.tail }

/-- The current token, which is not recorded as lookahead. -/
def currentToken (env : Setting σ γ) (s : Session σ γ) : Token :=
  s.cursor.current env.stream

/-- The surroundings of an error. -/
def errorContext (env : Setting σ γ) (s : Session σ γ) (e : RecognitionError) : ErrorContext :=
  ⟨e, s.view env s.current, env.config, env.stream⟩

/-- The members of a group that must occur and can still be selected. -/
def missingMembers (env : Setting σ γ) (s : Session σ γ) (group : ElementId) : List ElementId :=
  ((env.grammar.members group).zipIdx.filter fun m =>
    !env.grammar.isOptional m.1 && env.groups.canSelect group m.2 s.groups).map (·.1)

/-- The syntax error for a recognition error in the present state. -/
def syntaxError (env : Setting σ γ) (s : Session σ γ) (e : RecognitionError) : SyntaxError :=
  let context := s.errorContext env e
  match e.fault with
  | .failedPredicate _ _ (some group) =>
    env.messages.group ⟨context, group, s.missingMembers env group, env.grammar⟩
  | _ => env.messages.parser context

/-- The session in which an error waits for the next visible leaf, unless another one does. -/
def postpone (env : Setting σ γ) (s : Session σ γ) (e : RecognitionError) : Session σ γ :=
  { s with pending := s.pending.or (some (s.syntaxError env e)) }

/-- Reports an error. Only the first error since the last successful match counts. -/
def report (env : Setting σ γ) (s : Session σ γ) (e : RecognitionError) : Session σ γ :=
  if s.isRecovering then s else { s.postpone env e with isRecovering := true }

/-- Past the current token. -/
def advance (env : Setting σ γ) (s : Session σ γ) : Session σ γ :=
  { s with cursor := s.cursor.advance env.stream }

/-- The current token may follow a token that is missing. -/
def mayFollow (env : Setting σ γ) (s : Session σ γ) (follow : TokenSet) : Bool :=
  let follow :=
    if .endOfRule ∈ follow then
      let united := follow.union (contextFollow s.follow)
      if s.follow.isEmpty then united else united.erase .endOfRule
    else follow
  follow.contains (s.currentToken env).kind || follow.contains .endOfRule

/-- Matches the current token, given as recorded, or explains why it does not match. -/
def matchCurrent (env : Setting σ γ) (s : Session σ γ) (token : Token) (expected : TokenKind)
    (follow : TokenSet) : Except RecognitionError Token × Session σ γ :=
  if token.kind = expected then
    (.ok token, { s.advance env with isRecovering := false })
  else if (s.cursor.peek env.stream 2).kind = expected then
    let s' := (s.advance env).report env ⟨.unwanted expected, token, s.cursor.position⟩
    (.ok (s'.currentToken env), s'.advance env)
  else if s.mayFollow env follow then
    let inserted := Token.placeholder expected token.span.start
    (.ok inserted, s.report env ⟨.missing expected inserted, token, s.cursor.position⟩)
  else (.error ⟨.mismatched expected, token, s.cursor.position⟩, s)

/-- Matches the current token against a kind, recovering from one extra or one missing token. A
missing token is replaced by a placeholder. The match itself leaves no recorded lookahead. -/
def matchToken (env : Setting σ γ) (s : Session σ γ) (expected : TokenKind) (follow : TokenSet) :
    Except RecognitionError Token × Session σ γ :=
  let (token, cursor) := s.cursor.lookAt env.stream 1
  let (result, s') := matchCurrent env { s with cursor } token expected follow
  if s.cursor.recorded.length < s'.cursor.recorded.length then
    (result, { s' with cursor := s'.cursor.forgetLast })
  else (result, s')

/-- Skips tokens until the input ends or the current token is in a set; at most `n` tokens. -/
def skipUntil (env : Setting σ γ) (set : TokenSet) : Nat → Cursor → Cursor
  | 0, c => c
  | n + 1, c =>
    let kind := (c.current env.stream).kind
    if kind = .endOfInput ∨ kind ∈ set then c else skipUntil env set n (c.advance env.stream)

/-- Skips tokens until a rule in progress can go on. Where the recovery before started at the same
place, one token is skipped in any case. -/
def recover (env : Setting σ γ) (s : Session σ γ) (e : RecognitionError) : Session σ γ :=
  let s := s.postpone env e
  let s := if s.lastErrorIndex = some s.cursor.position then s.advance env else s
  { s with
    lastErrorIndex := some s.cursor.position
    cursor := skipUntil env (resyncSet s.follow) (env.stream.size + 1) s.cursor }

/-- Recovers from an error and makes leaves for the skipped tokens. -/
def resume (env : Setting σ γ) (s : Session σ γ) (e : RecognitionError) : Session σ γ :=
  (s.recover env e).appendSkipped env

/-- Deals with the failure of a rule: recovers from recognition errors and makes leaves for the
skipped tokens; other errors are passed on. -/
def catchError (env : Setting σ γ) (s : Session σ γ) (e : ParseError) :
    Except ParseError Unit × Session σ γ :=
  match e with
  | .recognition e => (.ok (), s.resume env e)
  | e => (.error e, s)

/-- A recognition error at the current token. -/
def errorHere (env : Setting σ γ) (s : Session σ γ) (fault : RecognitionFault) :
    RecognitionError :=
  ⟨fault, s.currentToken env, s.cursor.position⟩

/-- The failure of leaving an unordered group of a rule. It is reported at once, while the group is
still active, so that the message can name the missing members. -/
def groupFailure (env : Setting σ γ) (s : Session σ γ) (rule group : ElementId) :
    Except WalkFault (RecognitionError × Session σ γ) := do
  let _ ← env.grammar.visit rule
  let description ← env.grammar.describe group
  let e := s.errorHere env (.failedPredicate ((env.grammar.ruleName? rule).getD "")
    ("canLeave(" ++ description ++ ")") (some group))
  return (e, s.report env e)

end Session

end ParseTree
