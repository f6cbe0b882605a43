import ParseTree.Script.Trace
import ParseTree.Session.Parse

/-!
# Running scripts

A script runs as a procedure of a session. Each call has registers of its own, empty at first; its
result is the element in the register `cur`. A failing step ends its script, unless it lies within
an attempt.

## Main definitions

* `Registers`, `RunState`: what a run keeps
* `Abort`: why a run has no result at all
* `Run`: the computations of a run
* `Program.execute`: the steps of a script
* `Program.parse`: a parse of the whole input by a program, with its trace

## Main results

* `parse_ruleProcedure`: a parse by a program is one by the procedure of its script

## Implementation notes

A program may loop for ever, so runs are given a limit on the length of each chain of steps and
calls.
-/

namespace ParseTree

/-- The registers of a call. -/
structure Registers where
  /-- The tokens, the newest first. -/
  tokens : List (String × Token)
  /-- The elements by register; a cleared register holds none. -/
  elements : List (String × Option SemanticId)
  /-- The errors, the newest first. -/
  errors : List (String × RecognitionError)

/-- No register holds anything. -/
def Registers.empty : Registers :=
  ⟨[], [], []⟩

/-- The element in a register. -/
def Registers.element? (r : Registers) (name : String) : Option SemanticId :=
  (r.elements.lookup name).join

/-- What a run keeps. -/
structure RunState where
  /-- The registers of the present call. -/
  registers : Registers
  /-- The trace so far. -/
  trace : Array TraceEntry

/-- Why a run has no result at all. -/
inductive Abort where
  /-- An operation was given an identifier that no grammar element has. -/
  | walk (fault : WalkFault)
  /-- No script has the number. -/
  | unknownScript (index : Nat)
  /-- The limit was reached. -/
  | limit
deriving DecidableEq

/-- Why the steps of a script end early. -/
inductive Stop where
  /-- A step failed. -/
  | raised (e : ParseError)
  /-- The run ends without a result. -/
  | aborted (a : Abort)

/-- The computations of a run. -/
abbrev Run :=
  ExceptT Stop (StateT RunState Procedure)

namespace Run

/-- The answer to an operation. -/
def ask (op : Operation) : Run op.Answer :=
  ExceptT.lift (StateT.lift (Procedure.ask op))

/-- Catches the failure of a rule. -/
def catchRule {α : Type} (result : Except ParseError α) : Run (Except ParseError (Option α)) :=
  ExceptT.lift (StateT.lift (Procedure.catchRule result))

/-- Runs a command. -/
def command (c : Command) : Run Unit :=
  ask (.command c)

/-- Fails with an error. -/
def raise {α : Type} (e : ParseError) : Run α :=
  throw (.raised e)

/-- The value, or the failure it stands for. -/
def ofExcept {α : Type} : Except ParseError α → Run α
  | .ok a => pure a
  | .error e => raise e

/-- Runs a computation and gives back how it ended; an aborted run stays aborted. -/
def protect {α : Type} (m : Run α) : Run (Except ParseError α) :=
  ExceptT.mk do
    match ← m.run with
    | .ok a => return .ok (.ok a)
    | .error (.raised e) => return .ok (.error e)
    | .error (.aborted a) => return .error (.aborted a)

/-- Adds an entry to the trace. -/
def note (entry : TraceEntry) : Run Unit :=
  modify fun s => { s with trace := s.trace.push entry }

/-- Changes the registers. -/
def modifyRegisters (f : Registers → Registers) : Run Unit :=
  modify fun s => { s with registers := f s.registers }

/-- Keeps a token in a register. -/
def keepToken (name : String) (t : Token) : Run Unit :=
  modifyRegisters fun r => { r with tokens := (name, t) :: r.tokens }

/-- Keeps an element in a register, or clears the register. -/
def keepElement (name : String) (id : Option SemanticId) : Run Unit :=
  modifyRegisters fun r => { r with elements := (name, id) :: r.elements }

/-- Keeps an error in a register. -/
def keepError (name : String) (e : RecognitionError) : Run Unit :=
  modifyRegisters fun r => { r with errors := (name, e) :: r.errors }

/-- The token of a source, unless it is an empty register. -/
def token? : TokenArgument → Run (Option Token)
  | .register name => return (← get).registers.tokens.lookup name
  | .token t => return some t

/-- The element of a source, unless it is an empty register. -/
def element? : ElementArgument → Run (Option SemanticId)
  | .register name => return (← get).registers.element? name
  | .element id => return some id

/-- The error in a register, unless it is empty. -/
def error? (name : String) : Run (Option RecognitionError) :=
  return (← get).registers.errors.lookup name

/-- The value of an operand, unless it needs an empty register. -/
def value? : Operand → Run (Option RawValue)
  | .textOf source => do
    match ← token? source with
    | some t => return some (.text (← ask (.textOf t)))
    | none => return none
  | .element source => return (← element? source).map .element
  | .bool value => return some (.bool value)
  | .text value => return some (.text value)
  | .currentText => return some (.text (← ask .currentText))

/-- The last visible token before the cursor. -/
def lastToken : Run Token :=
  ask (.lookAt (-1))

mutual

/-- Decides a condition, from left to right and no further than necessary. -/
def decide : Condition → Run Bool
  | .lookahead steps kinds => do
    let t : Token ← ask (.lookAt steps)
    return kinds.contains t.kind
  | .canSelect group member => ask (.canSelect group member)
  | .canLeave group => ask (.canLeave group)
  | .has source => return (← element? source).isSome
  | .not c => return !(← decide c)
  | .all cs => decideAll cs
  | .any cs => decideAny cs

/-- Decides whether all conditions hold. -/
def decideAll : List Condition → Run Bool
  | [] => return true
  | c :: cs => do
    if ← decide c then decideAll cs else return false

/-- Decides whether one of the conditions holds. -/
def decideAny : List Condition → Run Bool
  | [] => return false
  | c :: cs => do
    if ← decide c then return true else decideAny cs

end

/-- Decides a condition and notes the decision. -/
def decideNoting (c : Condition) : Run Bool := do
  let value ← decide c
  note (.decided value)
  return value

/-- Runs a body as long as a condition holds, up to a number of rounds. -/
def repeatWhile (c : Condition) (body : Run Unit) : Nat → Run Unit
  | 0 => throw (.aborted .limit)
  | n + 1 => do
    if ← decideNoting c then
      body
      repeatWhile c body n

/-- Creates an element and keeps it. -/
def createInto (op : Operation) (answer : op.Answer → Except ParseError SemanticId)
    (into : String) : Run Outcome := do
  let id ← ofExcept (answer (← ask op))
  keepElement into (some id)
  return .element (some id)

/-- Matches the current token and keeps it, or fails. -/
def matchInto (expected : TokenKind) (follow : TokenSet) (into : String) :
    Run (Except RecognitionError Token) := do
  let result : Except RecognitionError Token ← ask (.matchToken expected follow)
  if let .ok t := result then keepToken into t
  return result

end Run

namespace Program

open Run

/-- Calls a script with registers of its own. -/
def callScript (p : Program) (execute : List Step → Run Unit) (index : Nat) :
    Run (Option SemanticId) := do
  match p.scripts[index]? with
  | none => throw (.aborted (.unknownScript index))
  | some script =>
    note (.started index)
    let saved := (← get).registers
    modifyRegisters fun _ => .empty
    let result ← protect (execute script.body)
    let produced := (← get).registers.element? "cur"
    modifyRegisters fun _ => saved
    note (.ended (result.map fun _ => produced))
    ofExcept (result.map fun _ => produced)

/-- Runs a step; the steps inside it are run by `execute`, and loops go on for at most `limit`
rounds. -/
def perform (p : Program) (limit : Nat) (execute : List Step → Run Unit) : Step → Run Outcome
  | .command c => do
    command c
    return .done
  | .kindAt steps => do
    let t : Token ← ask (.lookAt steps)
    return .kind t.kind
  | .tokenAt steps into => do
    let t : Token ← ask (.lookAt steps)
    if let some name := into then keepToken name t
    return .token t
  | .currentText => return .text (← ask .currentText)
  | .matchToken expected follow into => do
    match ← matchInto expected follow into with
    | .ok t => return .token t
    | .error e => raise (.recognition e)
  | .tryMatch expected follow into failure => do
    match ← matchInto expected follow into with
    | .ok t => return .token t
    | .error e =>
      keepError failure e
      return .failure e
  | .newLeaf source element => do
    match ← token? source with
    | none => return .unset
    | some t =>
      command (.newLeaf t element)
      return .done
  | .create site rule into => createInto (.create site rule) id into
  | .ensure site rule into => do
    match ← element? (.register into) with
    | some id => return .element (some id)
    | none => createInto (.create site rule) id into
  | .createWrapper action into => createInto (.createWrapper action none) id into
  | .createWrapperWith _ action value into => do
    match ← element? value with
    | none => return .unset
    | some element => createInto (.createWrapper action (some element)) id into
  | .assign source mode element feature value rule => do
    match ← element? element, ← value? value with
    | some element, some value =>
      let result : Except ParseError Unit ←
        ask (.assign source mode ⟨element, feature, value, rule⟩)
      ofExcept result
      return .done
    | _, _ => return .unset
  | .call index into => do
    let produced ← p.callScript execute index
    if let some name := into then keepElement name produced
    return .element produced
  | .attempt body => do
    let result ← protect (execute body)
    let caught ← ofExcept (← catchRule result)
    return .attempted caught.isSome (← lastToken)
  | .ensuring body cleanup => do
    let result ← protect (execute body)
    execute cleanup
    ofExcept result
    return .done
  | .branch c yes no => do
    if ← decideNoting c then execute yes else execute no
    return .done
  | .loop c body => do
    repeatWhile c (execute body) limit
    return .done
  | .errorHere fault into => do
    let e : RecognitionError ← ask (.errorHere fault)
    keepError into e
    return .failure e
  | .groupFailure rule group into => do
    let e : RecognitionError ← ask (.groupFailure rule group)
    keepError into e
    return .failure e
  | .report failure => do
    match ← error? failure with
    | none => return .unset
    | some e =>
      command (.report e)
      return .done
  | .recover failure => do
    match ← error? failure with
    | none => return .unset
    | some e =>
      command (.recover e)
      return .token (← lastToken)
  | .raise failure => do
    match ← error? failure with
    | none => return .unset
    | some e => raise (.recognition e)

/-- Runs steps in order and notes how each one ends; no chain of steps is longer than the limit. -/
def execute (p : Program) : Nat → List Step → Run Unit
  | _, [] => pure ()
  | 0, _ :: _ => throw (.aborted .limit)
  | limit + 1, step :: rest => do
    let result ← protect (p.perform (limit + 1) (p.execute limit) step)
    note (.finished step result)
    let _ ← ofExcept result
    p.execute limit rest

/-- The procedure of a script, which gives the final state of the run besides its result. -/
def procedure (p : Program) (limit index : Nat) :
    Procedure (Except Stop (Option SemanticId) × RunState) :=
  (p.callScript (p.execute limit) index : Run (Option SemanticId)) ⟨.empty, #[]⟩

/-- How a script ended as the outcome of a rule; an aborted run counts as one without an element. -/
def ruleOutcome : Except Stop (Option SemanticId) → Except ParseError (Option SemanticId)
  | .ok element => .ok element
  | .error (.raised e) => .error e
  | .error (.aborted _) => .ok none

/-- The script as the procedure of a rule, without its trace. -/
def ruleProcedure (p : Program) (limit index : Nat) : RuleProcedure :=
  (p.procedure limit index).bind fun r => .pure (ruleOutcome r.1)

/-- What a parse by a program comes to. -/
structure Report (σ γ : Type) where
  /-- The trace of the run. -/
  trace : Array TraceEntry
  /-- The parse or the failure. -/
  result : Except ParseError Parse
  /-- The session at the end. -/
  session : Session σ γ

variable {σ γ : Type}

/-- A parse of the whole input by a script, for a grammar element. -/
def parse (p : Program) (env : Setting σ γ) (s : Session σ γ) (limit : Nat) (rule : ElementId)
    (index : Nat) : Except Abort (Report σ γ) := do
  let ((outcome, state), s) ←
    ((p.procedure limit index).run env (s.openEntry env rule)).mapError .walk
  let outcome ← match outcome with
    | .ok element => pure (.ok element)
    | .error (.raised e) => pure (.error e)
    | .error (.aborted a) => throw a
  let (result, s) := s.complete env outcome
  return ⟨state.trace, result, s⟩

theorem parse_ruleProcedure {p : Program} {env : Setting σ γ} {s : Session σ γ} {limit : Nat}
    {rule : ElementId} {index : Nat} {r : Report σ γ} (h : p.parse env s limit rule index = .ok r) :
    s.parse env rule (p.ruleProcedure limit index) = .ok (r.result, r.session) := by
  unfold parse at h
  cases hr : (p.procedure limit index).run env (s.openEntry env rule) with
  | error fault => rw [hr] at h; cases h
  | ok ended =>
    obtain ⟨⟨outcome, state⟩, s'⟩ := ended
    rw [hr] at h
    have hrun : (p.ruleProcedure limit index).run env (s.openEntry env rule) =
        .ok (ruleOutcome outcome, s') := by
      rw [ruleProcedure, Procedure.run_bind, hr]
      rfl
    rw [Session.parse_eq hrun]
    cases outcome with
    | ok element => cases h; rfl
    | error stop =>
      cases stop with
      | raised e => cases h; rfl
      | aborted a => cases h

/-- A parse of the whole input from an entry point. -/
def parseFrom (p : Program) (env : Setting σ γ) (s : Session σ γ) (limit : Nat)
    (table : RuleTable Nat) (entry : EntryPoint) : Except Abort (Report σ γ) :=
  match entry.resolve table with
  | .error e => .ok ⟨#[], .error e, s⟩
  | .ok (rule, index) => p.parse env s limit rule index

end Program

end ParseTree
