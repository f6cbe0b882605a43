import ParseTree.Proofs.Session.Move

/-!
# Recorded lookahead

Whatever is looked at, the recorded tokens are those of the stream.

## Main results

* `records_of_reaches`: so they are in every reachable session
-/

namespace ParseTree

open Session

variable {σ γ : Type} {env : Setting σ γ} {s s' s₀ : Session σ γ}

theorem recorded_skipUntil (env : Setting σ γ) (set : TokenSet) (n : ℕ) (c : Cursor) :
    (skipUntil env set n c).recorded = c.recorded := by
  induction n generalizing c with
  | zero => rfl
  | succ n ih =>
    rw [skipUntil]
    split_ifs
    · rfl
    · rw [ih, Cursor.recorded_advance]

theorem recorded_recover (env : Setting σ γ) (s : Session σ γ) (e : RecognitionError) :
    (s.recover env e).cursor.recorded = s.cursor.recorded := by
  rw [recover]
  dsimp only
  rw [recorded_skipUntil]
  split_ifs
  · exact Cursor.recorded_advance ..
  · rfl

theorem recorded_matchToken (env : Setting σ γ) (s : Session σ γ) (expected : TokenKind)
    (follow : TokenSet) :
    (s.matchToken env expected follow).2.cursor.recorded = s.cursor.recorded := by
  rw [matchToken_eq]
  exact recorded_matchCurrent ..

theorem recorded_appendAll (env : Setting σ γ) (s : Session σ γ) :
    (s.appendAll env).cursor.recorded = s.cursor.recorded := by
  have hrest := congrArg Cursor.recorded ((leafClosed_still env).appendRest s s.nextToken).cursor
  obtain ⟨_, _, h⟩ := exists_appendAll env s
  rw [h]
  exact hrest

theorem records_perform {c : Command} (hs : s.cursor.Records env.stream)
    (h : s.perform env c = .ok s') : s'.cursor.Records env.stream := by
  cases c with
  | newLeaf t element =>
    rw [((leafClosed_still env).newLeaf h).cursor]
    exact hs
  | appendAll =>
    obtain rfl := Except.ok.inj h
    rwa [Cursor.Records, recorded_appendAll]
  | report e =>
    obtain rfl := Except.ok.inj h
    rwa [cursor_report]
  | recover e =>
    obtain rfl := Except.ok.inj h
    rwa [Cursor.Records, recorded_recover]
  | appendSkipped =>
    obtain rfl := Except.ok.inj h
    rwa [((leafClosed_still env).appendSkipped s).cursor]
  | appendTrailing =>
    obtain rfl := Except.ok.inj h
    rwa [((leafClosed_still env).appendTrailing s).cursor]
  | afterRuleCall =>
    obtain rfl := Except.ok.inj h
    rwa [(still_afterRuleCall env s).cursor]
  | enterRule | leaveRule =>
    obtain rfl := Except.ok.inj h
    exact fun t ht => absurd ht List.not_mem_nil
  | _ =>
    obtain rfl := Except.ok.inj h
    exact hs

theorem records_of_step {op : Operation} {answer : op.Answer} (hs : s.cursor.Records env.stream)
    (h : s.step env op = .ok (answer, s')) : s'.cursor.Records env.stream := by
  cases op with
  | command c => exact records_perform hs (perform_of_step h)
  | lookAt steps =>
    obtain ⟨-, rfl⟩ := Prod.mk.inj (Except.ok.inj h)
    exact hs.lookAt steps
  | matchToken expected follow =>
    have hr := recorded_matchToken env s expected follow
    rw [Except.ok.inj h] at hr
    rwa [Cursor.Records, hr]
  | groupFailure rule group =>
    obtain ⟨_, -, rfl, rfl⟩ := exists_report_of_groupFailure h
    rwa [cursor_report]
  | catchError e =>
    cases e with
    | recognition e =>
      obtain ⟨-, rfl⟩ := Prod.mk.inj (Except.ok.inj h)
      rw [resume, ((leafClosed_still env).appendSkipped ..).cursor, Cursor.Records,
        recorded_recover]
      exact hs
    | _ =>
      obtain ⟨-, rfl⟩ := Prod.mk.inj (Except.ok.inj h)
      exact hs
  | create site rule =>
    rw [(still_create h).cursor]
    exact hs
  | createWrapper action value =>
    rw [(still_createWrapper h).cursor]
    exact hs
  | assign source mode a =>
    have hst := still_assignAt env s mode a (s.sourceNode source)
    rw [assignAt_of_step h] at hst
    rw [hst.cursor]
    exact hs
  | textOf | currentText | errorHere | canSelect | canLeave =>
    obtain ⟨-, rfl⟩ := Prod.mk.inj (Except.ok.inj h)
    exact hs

theorem records_of_reaches {ts : List (Transition σ γ)} (h₀ : s₀.cursor.Records env.stream)
    (h : Reaches env s₀ ts s) : s.cursor.Records env.stream := by
  induction h with
  | start => exact h₀
  | step _ hs ih => exact records_of_step ih hs

end ParseTree
