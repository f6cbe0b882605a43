import ParseTree.Proofs.Token.Contract
import ParseTree.Session.Matching

/-!
# What matches and recoveries change

A match looks at the current token, which records it as lookahead, and takes the record back in the
end. What happens in between does not depend on what is recorded, so a match is the same as one that
knows the current token without looking at it.

Reports, matches and recoveries move the cursor and note errors. They leave all else as it is.

## Main definitions

* `Session.recording`: the session with other recorded lookahead

## Main results

* `matchCurrent_recording`: what is recorded makes no difference to a match
* `matchToken_eq`: a match is one of the current token
* `exists_report`, `exists_matchToken`, `exists_recover`: the fields that are changed
-/

namespace ParseTree.Session

variable {σ γ : Type} {env : Setting σ γ} {s : Session σ γ}

theorem exists_report (env : Setting σ γ) (s : Session σ γ) (e : RecognitionError) :
    ∃ pending isRecovering, s.report env e = { s with pending, isRecovering } := by
  rw [report]
  split_ifs
  · exact ⟨_, _, rfl⟩
  · exact ⟨_, _, rfl⟩

theorem exists_matchCurrent (env : Setting σ γ) (s : Session σ γ) (token : Token)
    (expected : TokenKind) (follow : TokenSet) : ∃ cursor pending isRecovering,
      (s.matchCurrent env token expected follow).2 = { s with cursor, pending, isRecovering } := by
  rw [matchCurrent]
  split_ifs
  · exact ⟨_, _, _, rfl⟩
  · obtain ⟨_, _, h⟩ := exists_report env (s.advance env)
      ⟨.unwanted expected, token, s.cursor.position⟩
    dsimp only
    rw [h]
    exact ⟨_, _, _, rfl⟩
  · obtain ⟨_, _, h⟩ := exists_report env s ⟨.missing expected
      (.placeholder expected token.span.start), token, s.cursor.position⟩
    exact ⟨_, _, _, h⟩
  · exact ⟨_, _, _, rfl⟩

theorem exists_recover (env : Setting σ γ) (s : Session σ γ) (e : RecognitionError) :
    ∃ cursor pending lastErrorIndex,
      s.recover env e = { s with cursor, pending, lastErrorIndex } := by
  rw [recover]
  split_ifs
  · exact ⟨_, _, _, rfl⟩
  · exact ⟨_, _, _, rfl⟩

theorem cursor_report (env : Setting σ γ) (s : Session σ γ) (e : RecognitionError) :
    (s.report env e).cursor = s.cursor := by
  obtain ⟨_, _, h⟩ := exists_report env s e
  rw [h]

theorem currentToken_report_advance (e : RecognitionError) :
    ((s.advance env).report env e).currentToken env = s.cursor.peek env.stream 2 := by
  rw [currentToken, cursor_report]
  exact Cursor.current_advance ..

/-- The session with other tokens recorded as lookahead. -/
def recording (s : Session σ γ) (recorded : List Token) : Session σ γ :=
  { s with cursor := { s.cursor with recorded } }

theorem advance_recording (env : Setting σ γ) (s : Session σ γ) (recorded : List Token) :
    (s.recording recorded).advance env = (s.advance env).recording recorded := by
  rw [Session.advance, Cursor.advance, Session.advance, Cursor.advance]
  show { s with cursor := _ } = { s with cursor := _ }
  rw [recording]
  split_ifs <;> rfl

theorem report_recording (env : Setting σ γ) (s : Session σ γ) (recorded : List Token)
    (e : RecognitionError) :
    (s.recording recorded).report env e = (s.report env e).recording recorded := by
  rw [report, report, recording]
  split_ifs <;> rfl

/-- What is recorded makes no difference to a match. -/
theorem matchCurrent_recording (env : Setting σ γ) (s : Session σ γ) (recorded : List Token)
    (t : Token) (expected : TokenKind) (follow : TokenSet) :
    (s.recording recorded).matchCurrent env t expected follow =
      ((s.matchCurrent env t expected follow).1,
        (s.matchCurrent env t expected follow).2.recording recorded) := by
  have hnext : (s.recording recorded).cursor.peek env.stream 2 = s.cursor.peek env.stream 2 := rfl
  have hfollow : (s.recording recorded).mayFollow env follow = s.mayFollow env follow := rfl
  rw [matchCurrent, matchCurrent, advance_recording, hnext, hfollow]
  split_ifs
  · rfl
  · dsimp only
    rw [report_recording, advance_recording]
    rfl
  · dsimp only
    rw [report_recording]
    rfl
  · rfl

theorem recorded_matchCurrent (env : Setting σ γ) (s : Session σ γ) (t : Token)
    (expected : TokenKind) (follow : TokenSet) :
    (s.matchCurrent env t expected follow).2.cursor.recorded = s.cursor.recorded := by
  rw [matchCurrent]
  split_ifs
  · exact Cursor.recorded_advance ..
  · dsimp only
    rw [Session.advance, Cursor.recorded_advance, cursor_report]
    exact Cursor.recorded_advance ..
  · dsimp only
    rw [cursor_report]
  · rfl

/-- A match is one of the current token, and records nothing. -/
theorem matchToken_eq (env : Setting σ γ) (s : Session σ γ) (expected : TokenKind)
    (follow : TokenSet) :
    s.matchToken env expected follow =
      s.matchCurrent env (s.currentToken env) expected follow := by
  have hr := recorded_matchCurrent env s (s.currentToken env) expected follow
  have hlook : s.cursor.lookAt env.stream 1 =
      (s.currentToken env, s.cursor.record (s.currentToken env)) := rfl
  rw [matchToken, hlook, Cursor.record]
  dsimp only
  split_ifs with hskip hlonger hlonger
  · exact absurd hlonger (hr ▸ Nat.lt_irrefl _)
  · rfl
  all_goals
    have hm := matchCurrent_recording env s (s.cursor.recorded ++ [s.currentToken env])
      (s.currentToken env) expected follow
    rw [recording] at hm
    rw [hm] at hlonger ⊢
  · generalize s.matchCurrent env (s.currentToken env) expected follow = r at hr ⊢
    obtain ⟨answer, ⟨⟨position, recorded⟩, _⟩⟩ := r
    obtain rfl : recorded = s.cursor.recorded := hr
    simp [recording, Cursor.forgetLast]
  · exact absurd (by simp [recording]) hlonger

theorem exists_matchToken (env : Setting σ γ) (s : Session σ γ) (expected : TokenKind)
    (follow : TokenSet) : ∃ cursor pending isRecovering,
      (s.matchToken env expected follow).2 = { s with cursor, pending, isRecovering } := by
  rw [matchToken_eq]
  exact exists_matchCurrent ..

end ParseTree.Session
