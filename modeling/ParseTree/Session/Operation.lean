import ParseTree.Session.Building
import ParseTree.Session.Matching

/-!
# Operations of a session

Rule procedures see a session only through its operations: an operation gives an answer and changes
the state. Many of them change the state and have nothing to answer.

## Main definitions

* `Command`: the operations without an answer
* `Operation`: all operations, with `Operation.Answer`, the type of the answer
* `Session.step`: the answer to an operation and the session afterwards

## Implementation notes

Operations that describe a grammar element fail on an identifier that no element has.
-/

namespace ParseTree

/-- An operation that only changes the session. -/
inductive Command where
  /-- A rule starts. -/
  | enterRule
  /-- A rule ends. -/
  | leaveRule
  /-- Opens a composite below the open one. -/
  | newComposite (element : ElementId)
  /-- Closes the composite of a called rule. -/
  | afterRuleCall
  /-- A rule is called whose call is followed by a token of a set. -/
  | pushFollow (set : TokenSet)
  /-- The rule called last returns. -/
  | popFollow
  /-- Makes the leaf of a matched token. -/
  | newLeaf (token : Token) (element : ElementId)
  /-- Makes leaves for the tokens up to the last visible one before the cursor. -/
  | appendSkipped
  /-- Makes leaves for the tokens after the last visible one before the cursor. -/
  | appendTrailing
  /-- Makes leaves for all tokens that have none. -/
  | appendAll
  /-- Reports an error. -/
  | report (error : RecognitionError)
  /-- Skips tokens until a rule in progress can go on. -/
  | recover (error : RecognitionError)
  /-- A new activation of an unordered group starts. -/
  | enterGroup (group : ElementId)
  /-- The innermost activation of an unordered group ends. -/
  | leaveGroup (group : ElementId)
  /-- A member of an unordered group is selected. -/
  | selectMember (group : ElementId) (member : Nat)
  /-- The selected member of an unordered group was recognized. -/
  | returnFromMember (group : ElementId)
deriving DecidableEq

/-- An operation of a session. -/
inductive Operation where
  /-- Changes the session. -/
  | command (c : Command)
  /-- The token some steps away; tokens ahead are recorded as lookahead. -/
  | lookAt (steps : Int)
  /-- The text of a token. -/
  | textOf (token : Token)
  /-- The text of the visible leaves of the open composite. -/
  | currentText
  /-- Matches the current token, recovering from one extra or one missing token. -/
  | matchToken (expected : TokenKind) (follow : TokenSet)
  /-- A recognition error at the current token. -/
  | errorHere (fault : RecognitionFault)
  /-- The failure of leaving an unordered group of a rule. -/
  | groupFailure (rule group : ElementId)
  /-- Deals with the failure of a rule. -/
  | catchError (error : ParseError)
  /-- The member of an unordered group is still available. -/
  | canSelect (group : ElementId) (member : Nat)
  /-- Nothing that has to occur in an unordered group is missing. -/
  | canLeave (group : ElementId)
  /-- Creates an element of a rule. -/
  | create (site : BindingSite) (rule : ElementId)
  /-- Runs an action, which may take up an element. -/
  | createWrapper (action : ElementId) (value : Option SemanticId)
  /-- A feature gets a value. -/
  | assign (source : ValueSource) (mode : AssignMode) (a : Assignment)
deriving DecidableEq

/-- What an operation answers. -/
def Operation.Answer : Operation → Type
  | command _ => Unit
  | lookAt _ => Token
  | textOf _ | currentText => String
  | matchToken _ _ => Except RecognitionError Token
  | errorHere _ | groupFailure _ _ => RecognitionError
  | catchError _ => Except ParseError Unit
  | canSelect _ _ | canLeave _ => Bool
  | create _ _ | createWrapper _ _ => Except ParseError SemanticId
  | assign _ _ _ => Except ParseError Unit

namespace Session

variable {σ γ : Type}

/-- The session after a command. -/
def perform (env : Setting σ γ) (s : Session σ γ) :
    Command → Except WalkFault (Session σ γ)
  | .enterRule => .ok s.enterRule
  | .leaveRule => .ok s.leaveRule
  | .newComposite element => .ok (s.newComposite env element)
  | .afterRuleCall => .ok (s.afterRuleCall env)
  | .pushFollow set => .ok (s.pushFollow set)
  | .popFollow => .ok s.popFollow
  | .newLeaf token element => s.newLeaf env token element
  | .appendSkipped => .ok (s.appendSkipped env)
  | .appendTrailing => .ok (s.appendTrailing env)
  | .appendAll => .ok (s.appendAll env)
  | .report e => .ok (s.report env e)
  | .recover e => .ok (s.recover env e)
  | .enterGroup group => .ok { s with groups := env.groups.enter group s.groups }
  | .leaveGroup group => .ok { s with groups := env.groups.leave group s.groups }
  | .selectMember group member =>
    .ok { s with groups := env.groups.select group member s.groups }
  | .returnFromMember group => .ok { s with groups := env.groups.returnFrom group s.groups }

/-- The answer to an operation and the session afterwards. -/
def step (env : Setting σ γ) (s : Session σ γ) :
    (op : Operation) → Except WalkFault (op.Answer × Session σ γ)
  | .command c => return ((), ← s.perform env c)
  | .lookAt steps =>
    let (token, cursor) := s.cursor.lookAt env.stream steps
    .ok (token, { s with cursor })
  | .textOf token => .ok (env.stream.textOf token, s)
  | .currentText => .ok (s.currentText env, s)
  | .matchToken expected follow => .ok (s.matchToken env expected follow)
  | .errorHere fault => .ok (s.errorHere env fault, s)
  | .groupFailure rule group => s.groupFailure env rule group
  | .catchError e => .ok (s.catchError env e)
  | .canSelect group member => .ok (env.groups.canSelect group member s.groups, s)
  | .canLeave group => .ok (env.groups.canLeave group s.groups, s)
  | .create site rule => s.create env site rule
  | .createWrapper action value => s.createWrapper env action value
  | .assign source mode a => .ok (s.assign env source mode a)

end Session

end ParseTree
