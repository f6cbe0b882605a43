import ParseTree.Model.Basic
import ParseTree.Proofs.Session.Change

/-!
# What recognition looks at

With the standard messages, recognition does not look at what was built: not at the tree, nor at
what refers to it. So it goes on in the same way if all of that is replaced.

## Main definitions

* `Setting.modelled`, `Setting.compressing`: a setting with the standard messages and a model, with
  or without merges
* `Session.graft`: a session with what another one has built

## Main results

* `matchToken_graft`, `recover_graft`, `groupFailure_graft`: recognition with a replaced tree
* `step_compressing`: only the end of a rule call depends on whether composites are merged
-/

namespace ParseTree

variable {σ γ : Type}

/-- The setting with the standard messages and the model as factory. -/
def Setting.modelled (env : Setting Model γ) : Setting Model γ :=
  { env with messages := .standard, factory := Model.factory }

/-- The setting in which composites are merged or not. -/
def Setting.compressing (env : Setting σ γ) (on : Bool) : Setting σ γ :=
  { env with config := { env.config with compressNodes := on } }

namespace Session

/-- The session with what another one has built. -/
def graft (u s : Session σ γ) : Session σ γ :=
  { u with
    tree := s.tree
    attribution := s.attribution
    lastNode := s.lastNode
    primary := s.primary }

section Graft

variable (env : Setting Model γ) (u s : Session Model γ) (e : RecognitionError)

theorem syntaxError_graft :
    (u.graft s).syntaxError env.modelled e = u.syntaxError env.modelled e := by
  unfold syntaxError
  dsimp only
  split <;> rfl

theorem postpone_graft :
    (u.graft s).postpone env.modelled e = (u.postpone env.modelled e).graft s := by
  rw [postpone, syntaxError_graft]
  rfl

theorem report_graft : (u.graft s).report env.modelled e = (u.report env.modelled e).graft s := by
  rw [report, report, postpone_graft, show (u.graft s).isRecovering = u.isRecovering from rfl]
  split_ifs <;> rfl

theorem matchCurrent_graft (token : Token) (expected : TokenKind) (follow : TokenSet) :
    (u.graft s).matchCurrent env.modelled token expected follow =
      ((u.matchCurrent env.modelled token expected follow).1,
        (u.matchCurrent env.modelled token expected follow).2.graft s) := by
  have hmay : (u.graft s).mayFollow env.modelled follow = u.mayFollow env.modelled follow := rfl
  have hpeek : (u.graft s).cursor = u.cursor := rfl
  have hadvance : (u.graft s).advance env.modelled = (u.advance env.modelled).graft s := rfl
  rw [matchCurrent, matchCurrent, hmay, hpeek, hadvance]
  dsimp only
  split_ifs
  · rfl
  · rw [report_graft]
    rfl
  · rw [report_graft]
  · rfl

theorem matchToken_graft (expected : TokenKind) (follow : TokenSet) :
    (u.graft s).matchToken env.modelled expected follow =
      ((u.matchToken env.modelled expected follow).1,
        (u.matchToken env.modelled expected follow).2.graft s) := by
  rw [matchToken_eq, matchToken_eq]
  exact matchCurrent_graft ..

theorem recover_graft :
    (u.graft s).recover env.modelled e = (u.recover env.modelled e).graft s := by
  rw [recover, recover, postpone_graft]
  rw [show ∀ r : Session Model γ, (r.graft s).cursor = r.cursor from fun _ => rfl,
    show ∀ r : Session Model γ, (r.graft s).lastErrorIndex = r.lastErrorIndex from fun _ => rfl]
  split_ifs <;> rfl

theorem groupFailure_graft (rule group : ElementId) :
    (u.graft s).groupFailure env.modelled rule group =
      (u.groupFailure env.modelled rule group).map fun r => (r.1, r.2.graft s) := by
  have herror (fault : RecognitionFault) :
      (u.graft s).errorHere env.modelled fault = u.errorHere env.modelled fault := rfl
  rw [groupFailure, groupFailure]
  cases env.modelled.grammar.visit rule with
  | error fault => rfl
  | ok _ =>
    cases env.modelled.grammar.describe group with
    | error fault => rfl
    | ok description =>
      simp only [herror]
      exact congrArg (fun r => Except.ok (_, r)) (report_graft env u s _)

/-- Skipping goes by the tokens only. -/
theorem skipUntil_compressing (on : Bool) (set : TokenSet) (n : ℕ) (c : Cursor) :
    skipUntil (env.compressing on) set n c = skipUntil env set n c := by
  induction n generalizing c with
  | zero => rfl
  | succ n ih =>
    rw [skipUntil, skipUntil, ih]
    rfl

theorem syntaxError_compressing (on : Bool) :
    s.syntaxError (env.compressing on).modelled e = s.syntaxError env.modelled e := by
  unfold syntaxError
  dsimp only
  split <;> rfl

theorem recover_compressing (on : Bool) :
    s.recover (env.compressing on).modelled e = s.recover env.modelled e := by
  have hpostpone : s.postpone (env.compressing on).modelled e = s.postpone env.modelled e := by
    rw [postpone, syntaxError_compressing]
    rfl
  have henv : (env.compressing on).modelled = env.modelled.compressing on := rfl
  rw [recover, recover, hpostpone]
  simp only [henv, skipUntil_compressing]
  rfl

end Graft

/-- Only the end of a rule call depends on whether composites are merged. -/
theorem step_compressing (env : Setting Model γ) (s : Session Model γ) (on : Bool) {op : Operation}
    (hop : op ≠ .command .afterRuleCall) :
    s.step (env.compressing on).modelled op = s.step env.modelled op := by
  cases op with
  | command c =>
    cases c with
    | afterRuleCall => exact absurd rfl hop
    | recover e => exact congrArg (fun t => Except.ok ((), t)) (recover_compressing env s e on)
    | _ => rfl
  | catchError e =>
    cases e with
    | recognition e =>
      exact congrArg (fun t => Except.ok (Except.ok (), t.appendSkipped env.modelled))
        (recover_compressing env s e on)
    | _ => rfl
  | _ => rfl

end Session

end ParseTree
