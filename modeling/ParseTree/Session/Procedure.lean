import ParseTree.Session.Operation

/-!
# Procedures

A procedure is a computation that works on a session through its operations only. It is a tree: an
operation at each node, a branch for every answer, a result at each leaf.

## Main definitions

* `Procedure`: the computations with results of a type
* `Procedure.run`: the result of a procedure and the session afterwards
* `Procedure.catchRule`: catches the failure of a rule
* `RuleProcedure`: the procedures of rules

## Main results

* `run_bind`: a procedure that continues another starts where that one ends
-/

namespace ParseTree

/-- A computation on sessions. -/
inductive Procedure (α : Type) : Type where
  /-- Ends with a result. -/
  | pure (result : α)
  /-- Calls an operation and goes on with its answer. -/
  | call (op : Operation) (next : op.Answer → Procedure α)

namespace Procedure

variable {α β σ γ : Type}

/-- Goes on after a procedure with its result. -/
def bind : Procedure α → (α → Procedure β) → Procedure β
  | pure a, f => f a
  | call op next, f => call op fun answer => (next answer).bind f

instance : Monad Procedure where
  pure := .pure
  bind := .bind

theorem bind_pure (p : Procedure α) : p.bind pure = p := by
  induction p with
  | pure => rfl
  | call op next ih => exact congrArg (call op) (funext ih)

theorem bind_assoc {δ : Type} (p : Procedure α) (f : α → Procedure β) (g : β → Procedure δ) :
    (p.bind f).bind g = p.bind fun a => (f a).bind g := by
  induction p with
  | pure => rfl
  | call op next ih => exact congrArg (call op) (funext ih)

instance : LawfulMonad Procedure :=
  .mk' Procedure bind_pure (fun _ _ => rfl) bind_assoc

/-- The answer to an operation. -/
def ask (op : Operation) : Procedure op.Answer :=
  call op .pure

/-- Catches the failure of a rule. After a recognition error that was dealt with there is no result;
other errors are passed on. -/
def catchRule : Except ParseError α → Procedure (Except ParseError (Option α))
  | .ok value => pure (.ok (some value))
  | .error e => call (.catchError e) fun answer : Except ParseError Unit =>
    pure (answer.map fun _ => none)

/-- The result of a procedure and the session afterwards. -/
def run (env : Setting σ γ) :
    Procedure α → Session σ γ → Except WalkFault (α × Session σ γ)
  | pure a, s => .ok (a, s)
  | call op next, s =>
    match s.step env op with
    | .ok (answer, s) => (next answer).run env s
    | .error fault => .error fault

@[simp] theorem run_pure (env : Setting σ γ) (a : α) (s : Session σ γ) :
    (pure a).run env s = .ok (a, s) := rfl

theorem run_bind (env : Setting σ γ) (p : Procedure α) (f : α → Procedure β) (s : Session σ γ) :
    (p.bind f).run env s = (p.run env s).bind fun r => (f r.1).run env r.2 := by
  induction p generalizing s with
  | pure a => rfl
  | call op next ih =>
    simp only [bind, run]
    split
    · exact ih _ _
    · rfl

end Procedure

/-- A procedure of a rule: it ends with the element that the rule produced, if any, or fails. -/
abbrev RuleProcedure :=
  Procedure (Except ParseError (Option SemanticId))

end ParseTree
