import ParseTree.Proofs.Session.Clean

/-!
# How the cursor moves

An operation matches a token, reports an error or leaves the cursor where it is. A match comes to
one of four things: the current token is as expected, it is passed over, the expected token is made
up, or there is no match.

## Main definitions

* `Repair`: how recognition goes on in spite of an error
* `Transition.repair?`, `Transition.matched?`: the repair that an operation makes, the token of the
  stream that it matches
* `Match`, `Move`: what a match comes to, what an operation does to the cursor

## Main results

* `match_matchToken`: every match comes to one of these things
* `move_of_step`: every operation moves the cursor in one of these ways
* `rests_of_reaches`: the cursor is on a visible token or at the end
-/

namespace ParseTree

open Session

variable {σ γ : Type}

/-- How recognition goes on in spite of an error. -/
inductive Repair where
  /-- A token is passed over. -/
  | deletion
  /-- A missing token is replaced by a placeholder. -/
  | insertion
  /-- Tokens are skipped until a rule in progress can go on. -/
  | recovery
deriving DecidableEq, Repr

/-- The repair that a match makes. -/
def Session.matchRepair? (env : Setting σ γ) (s : Session σ γ) (expected : TokenKind)
    (follow : TokenSet) : Option Repair :=
  if (s.currentToken env).kind = expected then none
  else if (s.cursor.peek env.stream 2).kind = expected then some .deletion
  else if s.mayFollow env follow then some .insertion
  else none

/-- The repair that an operation makes. -/
def Operation.repair? (env : Setting σ γ) (s : Session σ γ) : Operation → Option Repair
  | .matchToken expected follow => s.matchRepair? env expected follow
  | .command (.recover _) | .catchError (.recognition _) => some .recovery
  | _ => none

/-- The token of the stream that an operation matches; placeholders and the end of the input are
none. -/
def Operation.matched? : (op : Operation) → op.Answer → Option Token
  | .matchToken _ _, result => result.toOption.filter fun t => !t.isSynthetic
  | _, _ => none

/-- The repair that was made. -/
def Transition.repair? (env : Setting σ γ) (tr : Transition σ γ) : Option Repair :=
  tr.op.repair? env tr.before

/-- The token of the stream that was matched. -/
def Transition.matched? (tr : Transition σ γ) : Option Token :=
  tr.op.matched? tr.answer

theorem matched?_matchToken (expected : TokenKind) (follow : TokenSet) (t : Token) :
    (Operation.matchToken expected follow).matched? (.ok t) =
      if t.isSynthetic then none else some t := by
  show (some t).filter (fun t => !t.isSynthetic) = _
  by_cases ht : t.isSynthetic
  · rw [if_pos ht, Option.filter_some_neg (by simp [ht])]
  · rw [if_neg ht, Option.filter_some_pos (by simp [ht])]

/-! ## Matches -/

/-- What a match comes to. -/
inductive Match (env : Setting σ γ) (s s' : Session σ γ) (expected : TokenKind) :
    Option Repair → Except RecognitionError Token → Prop
  /-- The current token matches. -/
  | current (kind : (s.currentToken env).kind = expected)
    (position : s'.cursor.position = (s.cursor.advance env.stream).position)
    (isRecovering : s'.isRecovering = false) :
    Match env s s' expected none (.ok (s.currentToken env))
  /-- The token after the current one matches, which is passed over. -/
  | deleted (position : s'.cursor.position =
      ((s.cursor.advance env.stream).advance env.stream).position)
    (error : s.isRecovering = false → s'.pending.isSome) :
    Match env s s' expected (some .deletion) (.ok (s.cursor.peek env.stream 2))
  /-- The expected token is missing, and a placeholder stands for it. -/
  | inserted (position : s'.cursor.position = s.cursor.position)
    (error : s.isRecovering = false → s'.pending.isSome) :
    Match env s s' expected (some .insertion)
      (.ok (.placeholder expected (s.currentToken env).span.start))
  /-- There is no match. -/
  | failed (position : s'.cursor.position = s.cursor.position)
    (isRecovering : s'.isRecovering = s.isRecovering) (e : RecognitionError) :
    Match env s s' expected none (.error e)

section Match

variable {env : Setting σ γ} {s s' : Session σ γ} {expected : TokenKind} {follow : TokenSet}

/-- The first error since the last match waits for a leaf. -/
theorem isSome_pending_report (e : RecognitionError) (h : s.isRecovering = false) :
    (s.report env e).pending.isSome := by
  rw [report, h]
  cases hp : s.pending <;> simp [postpone, hp]

theorem match_matchCurrent (env : Setting σ γ) (s : Session σ γ) (expected : TokenKind)
    (follow : TokenSet) :
    Match env s (s.matchCurrent env (s.currentToken env) expected follow).2 expected
      (s.matchRepair? env expected follow)
      (s.matchCurrent env (s.currentToken env) expected follow).1 := by
  rw [matchCurrent, matchRepair?]
  split_ifs with hcurrent hnext hfollow
  · exact .current hcurrent rfl rfl
  · dsimp only
    rw [currentToken_report_advance]
    refine .deleted ?_ fun h => isSome_pending_report (s := s.advance env) _ h
    rw [Session.advance, cursor_report]
    rfl
  · refine .inserted ?_ (isSome_pending_report _)
    rw [cursor_report]
  · exact .failed rfl rfl _

/-- A token is matched, or an error is reported or answered. -/
theorem match_matchToken (env : Setting σ γ) (s : Session σ γ) (expected : TokenKind)
    (follow : TokenSet) :
    Match env s (s.matchToken env expected follow).2 expected (s.matchRepair? env expected follow)
      (s.matchToken env expected follow).1 := by
  rw [matchToken_eq]
  exact match_matchCurrent ..

end Match

/-! ## Moves -/

/-- The cursor, what follows and the groups were left alone, and no error was reported. -/
structure Still (s s' : Session σ γ) : Prop where
  /-- The cursor is the same. -/
  cursor : s'.cursor = s.cursor
  /-- The same rules are being recognized. -/
  follow : s'.follow = s.follow
  /-- An error was reported before or not. -/
  isRecovering : s'.isRecovering = s.isRecovering
  /-- The last recovery is the same. -/
  lastErrorIndex : s'.lastErrorIndex = s.lastErrorIndex
  /-- The group helper is in the same state. -/
  groups : s'.groups = s.groups

/-- What an operation does to the cursor. -/
inductive Move (env : Setting σ γ) (s s' : Session σ γ) : (op : Operation) → op.Answer → Prop
  /-- The cursor stays where it is. -/
  | still {op : Operation} {answer : op.Answer}
    (position : s'.cursor.position = s.cursor.position)
    (isRecovering : s'.isRecovering = s.isRecovering) (repair : op.repair? env s = none)
    (matched : op.matched? answer = none) : Move env s s' op answer
  /-- A token is matched or not. -/
  | matched {expected : TokenKind} {follow : TokenSet} {answer : Except RecognitionError Token}
    (h : Match env s s' expected (s.matchRepair? env expected follow) answer) :
    Move env s s' (.matchToken expected follow) answer
  /-- An error was reported. -/
  | alarmed {op : Operation} {answer : op.Answer}
    (rests : s.cursor.Rests env.stream → s'.cursor.Rests env.stream)
    (error : s.isRecovering = false → ¬ Clean s') : Move env s s' op answer

section Move

variable {env : Setting σ γ} {s s' s'' : Session σ γ}

theorem Still.refl (s : Session σ γ) : Still s s :=
  ⟨rfl, rfl, rfl, rfl, rfl⟩

theorem Still.trans (h : Still s s') (h' : Still s' s'') : Still s s'' :=
  ⟨h'.cursor.trans h.cursor, h'.follow.trans h.follow, h'.isRecovering.trans h.isRecovering,
    h'.lastErrorIndex.trans h.lastErrorIndex, h'.groups.trans h.groups⟩

theorem Still.move {op : Operation} {answer : op.Answer} (h : Still s s')
    (hr : op.repair? env s = none) (hm : op.matched? answer = none) : Move env s s' op answer :=
  .still (congrArg Cursor.position h.cursor) h.isRecovering hr hm

theorem leafClosed_still (env : Setting σ γ) : LeafClosed env Still :=
  ⟨Still.refl, Still.trans, fun _ _ _ _ _ => ⟨rfl, rfl, rfl, rfl, rfl⟩,
    fun _ _ _ => ⟨rfl, rfl, rfl, rfl, rfl⟩⟩

theorem still_afterRuleCall (env : Setting σ γ) (s : Session σ γ) :
    Still s (s.afterRuleCall env) := by
  cases hp : s.tree.parent? s.current with
  | none =>
    rw [afterRuleCall_of_parent?_eq_none hp]
    exact .refl s
  | some p =>
    rw [afterRuleCall_eq hp]
    cases s.absorbed? env <;> exact ⟨rfl, rfl, rfl, rfl, rfl⟩

theorem still_associate (s : Session σ γ) (node : NodeId) (element : SemanticId) :
    Still s (s.associate node element).2 := by
  rw [associate]
  split <;> exact ⟨rfl, rfl, rfl, rfl, rfl⟩

theorem still_assignAt (env : Setting σ γ) (s : Session σ γ) (mode : AssignMode) (a : Assignment)
    (node : NodeId) : Still s (s.assignAt env mode a node).2 := by
  unfold assignAt
  dsimp only
  split
  · exact ⟨rfl, rfl, rfl, rfl, rfl⟩
  · rw [refuse]
    split_ifs <;> exact ⟨rfl, rfl, rfl, rfl, rfl⟩

theorem still_assignAction (env : Setting σ γ) (s : Session σ γ) (element : SemanticId)
    (assigned : Option (String × AssignOp)) (value : Option SemanticId) :
    Still s (s.assignAction env element assigned value).2 := by
  unfold assignAction
  split
  · exact still_assignAt ..
  · exact .refl s

theorem still_make (env : Setting σ γ) (s : Session σ γ) (classifier : String) :
    Still s (s.make env classifier).2 :=
  ⟨rfl, rfl, rfl, rfl, rfl⟩

theorem still_create {site : BindingSite} {rule : ElementId} {answer : Except ParseError SemanticId}
    (h : s.create env site rule = .ok (answer, s')) : Still s s' := by
  rcases create_cases h with rfl | ⟨classifier, rfl | ⟨element, rfl⟩⟩
  · exact .refl _
  · exact still_make env s classifier
  · exact (still_make env s classifier).trans (still_associate ..)

theorem still_createWrapper {action : ElementId} {value : Option SemanticId}
    {answer : Except ParseError SemanticId}
    (h : s.createWrapper env action value = .ok (answer, s')) : Still s s' := by
  rcases createWrapper_cases h with
    rfl | ⟨classifier, rfl | ⟨element, assigned, t, ht, hs'⟩⟩
  · exact .refl _
  · exact still_make env s classifier
  · have ha : Still s t := ht ▸ (still_make env s classifier).trans (still_assignAction ..)
    rcases hs' with rfl | rfl
    · exact ha
    · have hw : Still t (t.wrapCurrent action) := ⟨rfl, rfl, rfl, rfl, rfl⟩
      exact (ha.trans hw).trans (still_associate ..)

theorem rests_skipUntil {set : TokenSet} {n : ℕ} {c : Cursor} (h : c.Rests env.stream) :
    (skipUntil env set n c).Rests env.stream := by
  induction n generalizing c with
  | zero => exact h
  | succ n ih =>
    rw [skipUntil]
    split_ifs
    · exact h
    · exact ih h.advance

theorem rests_recover {e : RecognitionError} (h : s.cursor.Rests env.stream) :
    (s.recover env e).cursor.Rests env.stream := by
  rw [recover]
  apply rests_skipUntil
  split_ifs
  · exact h.advance
  · exact h

theorem rests_catchError (e : ParseError) (h : s.cursor.Rests env.stream) :
    (s.catchError env e).2.cursor.Rests env.stream := by
  cases e with
  | recognition e =>
    have hs := (leafClosed_still env).appendSkipped (s.recover env e)
    exact (rests_recover h).of_position (congrArg Cursor.position hs.cursor)
  | _ => exact h

/-- A recovery does not go back. -/
theorem position_le_position_skipUntil (env : Setting σ γ) (set : TokenSet) (n : ℕ) (c : Cursor) :
    c.position ≤ (skipUntil env set n c).position := by
  induction n generalizing c with
  | zero => exact le_rfl
  | succ n ih =>
    rw [skipUntil]
    split_ifs
    · exact le_rfl
    · exact (c.position_le_position_advance env.stream).trans (ih _)

theorem position_le_position_recover (env : Setting σ γ) (s : Session σ γ) (e : RecognitionError) :
    s.cursor.position ≤ (s.recover env e).cursor.position := by
  rw [recover]
  refine le_trans ?_ (position_le_position_skipUntil ..)
  split_ifs
  · exact s.cursor.position_le_position_advance env.stream
  · exact le_rfl

theorem not_clean_of_pending (h : s.pending.isSome) : ¬ Clean s := by
  intro hc
  rw [hc.pending] at h
  cases h

theorem not_clean_recover (env : Setting σ γ) (s : Session σ γ) (e : RecognitionError) :
    ¬ Clean (s.recover env e) := by
  have h : (s.postpone env e).pending.isSome := by
    cases hp : s.pending <;> simp [postpone, hp]
  apply not_clean_of_pending
  rw [recover]
  dsimp only
  split_ifs <;> exact h

/-- Reports move nothing. -/
theorem move_report (env : Setting σ γ) (s : Session σ γ) (e : RecognitionError) {op : Operation}
    {answer : op.Answer} : Move env s (s.report env e) op answer := by
  refine .alarmed (fun h => h.of_position ?_) fun h => not_clean_of_pending ?_
  · rw [cursor_report]
  · exact isSome_pending_report e h

theorem move_perform {c : Command} (hc : c ≠ .appendAll) (h : s.perform env c = .ok s') :
    Move env s s' (.command c) () := by
  cases c with
  | newLeaf t element => exact ((leafClosed_still env).newLeaf h).move rfl rfl
  | appendAll => exact absurd rfl hc
  | report e =>
    obtain rfl := Except.ok.inj h
    exact move_report env s e
  | recover e =>
    obtain rfl := Except.ok.inj h
    exact .alarmed rests_recover fun _ => not_clean_recover env s e
  | appendSkipped =>
    obtain rfl := Except.ok.inj h
    exact ((leafClosed_still env).appendSkipped s).move rfl rfl
  | appendTrailing =>
    obtain rfl := Except.ok.inj h
    exact ((leafClosed_still env).appendTrailing s).move rfl rfl
  | afterRuleCall =>
    obtain rfl := Except.ok.inj h
    exact (still_afterRuleCall env s).move rfl rfl
  | _ =>
    obtain rfl := Except.ok.inj h
    exact .still rfl rfl rfl rfl

/-- The tokens that a recovery skips get their leaves at once, one of which may take up the
error. -/
theorem move_catchError {d : ℕ} (hr : Rooted s d) (e : ParseError) :
    Move env s (s.catchError env e).2 (.catchError e) (s.catchError env e).1 := by
  cases e with
  | recognition e =>
    refine .alarmed (rests_catchError (.recognition e)) ?_
    · intro _ hclean
      obtain ⟨ts, hg, -⟩ := growth_appendSkipped env (s.recover env e)
      exact not_clean_recover env s e
        (hg.clean (hr.similar (steady_recover env s e).toSimilar) hclean)
  | _ => exact .still rfl rfl rfl rfl

/-- Other operations need no room for their alarm, but for the last one of a parse. -/
theorem move_of_step_of_ne {op : Operation} {answer : op.Answer}
    (hop : op ≠ .command .appendAll) (hcatch : ∀ e, op ≠ .catchError e)
    (h : s.step env op = .ok (answer, s')) : Move env s s' op answer := by
  cases op with
  | command c => exact move_perform (fun hc => hop (congrArg _ hc)) (perform_of_step h)
  | lookAt steps =>
    obtain ⟨-, rfl⟩ := Prod.mk.inj (Except.ok.inj h)
    exact .still (Cursor.position_lookAt ..) rfl rfl rfl
  | matchToken expected follow =>
    have hm := match_matchToken env s expected follow
    rw [Except.ok.inj h] at hm
    exact .matched hm
  | groupFailure rule group =>
    obtain ⟨_, -, -, rfl⟩ := exists_report_of_groupFailure h
    exact move_report ..
  | catchError e => exact absurd rfl (hcatch e)
  | create site rule => exact (still_create h).move rfl rfl
  | createWrapper action value => exact (still_createWrapper h).move rfl rfl
  | assign source mode a =>
    have hs := still_assignAt env s mode a (s.sourceNode source)
    rw [assignAt_of_step h] at hs
    exact hs.move rfl rfl
  | textOf | currentText | errorHere | canSelect | canLeave =>
    obtain ⟨-, rfl⟩ := Prod.mk.inj (Except.ok.inj h)
    exact .still rfl rfl rfl rfl

/-- Every operation but the last one of a parse leaves the cursor alone, matches or alarms. -/
theorem move_of_step {d : ℕ} {op : Operation} {answer : op.Answer} (hr : Rooted s d)
    (hop : op ≠ .command .appendAll) (h : s.step env op = .ok (answer, s')) :
    Move env s s' op answer := by
  cases op with
  | catchError e =>
    have hm : Move env s (s.catchError env e).2 (.catchError e) (s.catchError env e).1 :=
      move_catchError hr e
    rwa [Except.ok.inj h] at hm
  | _ => exact move_of_step_of_ne hop nofun h

theorem Match.rests {expected : TokenKind} {repair : Option Repair}
    {answer : Except RecognitionError Token} (h : Match env s s' expected repair answer)
    (hs : s.cursor.Rests env.stream) : s'.cursor.Rests env.stream := by
  cases h with
  | current _ position _ => exact hs.advance.of_position position
  | deleted position _ => exact hs.advance.advance.of_position position
  | inserted position _ => exact hs.of_position position
  | failed position _ => exact hs.of_position position

theorem Move.rests {op : Operation} {answer : op.Answer} (h : Move env s s' op answer)
    (hs : s.cursor.Rests env.stream) : s'.cursor.Rests env.stream := by
  cases h with
  | still position => exact hs.of_position position
  | matched h => exact h.rests hs
  | alarmed rests => exact rests hs

theorem position_appendAll (env : Setting σ γ) (s : Session σ γ) :
    (s.appendAll env).cursor.position = env.stream.size := by
  obtain ⟨_, _, h⟩ := exists_appendAll env s
  rw [h]
  rfl

/-- The cursor never comes to rest on a hidden token. -/
theorem rests_of_step {op : Operation} {answer : op.Answer} (h : s.cursor.Rests env.stream)
    (hs : s.step env op = .ok (answer, s')) : s'.cursor.Rests env.stream := by
  by_cases hop : op = .command .appendAll
  · subst hop
    obtain rfl : s.appendAll env = s' := (Prod.mk.inj (Except.ok.inj hs)).2
    exact Cursor.rests_of_position_eq_size (position_appendAll env s)
  · cases op with
    | catchError e =>
      have hrests := rests_catchError e h
      rwa [catchError_of_step hs] at hrests
    | _ => exact (move_of_step_of_ne hop nofun hs).rests h

theorem rests_of_reaches {s₀ : Session σ γ} {ts : List (Transition σ γ)}
    (h₀ : s₀.cursor.Rests env.stream) (h : Reaches env s₀ ts s) : s.cursor.Rests env.stream := by
  induction h with
  | start => exact h₀
  | step _ hs ih => exact rests_of_step ih hs

end Move

end ParseTree
