import Mathlib.Algebra.Order.BigOperators.Group.Finset
import ParseTree.Proofs.Session.Move

/-!
# Recovery makes progress

The cursor never goes back. A recovery that starts where the one before it had started passes over
one token in any case, so no more than two recoveries start at a token of the stream, whatever
happens in between. The search for a token to go on with ends, at the latest with the input.

## Main definitions

* `Operation.recovers`: the operation skips tokens until a rule in progress can go on
* `Skips`: the search for a token of a set, without a bound on its steps
* `Session.spent`: how many recoveries may have started at a position

## Main results

* `skips_skipUntil`: the search ends before its bound
* `Advances.spent`: a recovery at a position spends one of the two that are possible there
* `recoveries_of_reaches`: what this means for a run
-/

namespace ParseTree

open Session

variable {σ γ : Type}

/-- The operation skips tokens until a rule in progress can go on. -/
def Operation.recovers : Operation → Bool
  | .command (.recover _) | .catchError (.recognition _) => true
  | _ => false

/-- The operation is a recovery that starts at a position. -/
def Transition.recoversAt (tr : Transition σ γ) (i : ℕ) : Bool :=
  tr.op.recovers && tr.before.cursor.position == i

/-- Where the search of a recovery starts: past the current token if the recovery before started its
search there. -/
def Session.searchStart (env : Setting σ γ) (s : Session σ γ) : Cursor :=
  if s.lastErrorIndex = some s.cursor.position then s.cursor.advance env.stream else s.cursor

/-- The search for a token may stop at the cursor. -/
def Session.StopsAt (env : Setting σ γ) (set : TokenSet) (c : Cursor) : Prop :=
  (c.current env.stream).kind = .endOfInput ∨ (c.current env.stream).kind ∈ set

/-- The search for a token of a set, without a bound on its steps. -/
inductive Skips (env : Setting σ γ) (set : TokenSet) : Cursor → Cursor → Prop
  /-- The search stops. -/
  | stop {c : Cursor} (h : StopsAt env set c) : Skips env set c c
  /-- One more token is passed over. -/
  | skip {c c' : Cursor} (h : ¬ StopsAt env set c) (hs : Skips env set (c.advance env.stream) c') :
    Skips env set c c'

/-- How many recoveries may have started at a position: none before the cursor gets there, one if
the last one started its search there, two once the cursor has gone on. -/
def Session.spent (s : Session σ γ) (i : ℕ) : ℕ :=
  if i < s.cursor.position then 2
  else if s.cursor.position = i ∧ s.lastErrorIndex = some i then 1
  else 0

section Skips

variable {env : Setting σ γ} {set : TokenSet} {c c' : Cursor} {n : ℕ}

theorem Skips.stopsAt (h : Skips env set c c') : StopsAt env set c' := by
  induction h with
  | stop h => exact h
  | skip _ _ ih => exact ih

/-- At the end of the stream the search stops. -/
theorem stopsAt_of_size_le (h : env.stream.size ≤ c.position) : StopsAt env set c := by
  rw [StopsAt, Cursor.current_eq, TokenStream.token?_eq_none_iff.mpr h]
  exact Or.inl rfl

theorem position_lt_position_advance {ts : TokenStream} (h : c.position < ts.size) :
    c.position < (c.advance ts).position := by
  rw [Cursor.advance, if_neg (Nat.not_le_of_lt h)]
  exact TokenStream.le_nextVisible h

/-- The search ends before its bound, since every step takes the cursor on. -/
theorem skips_skipUntil (h : env.stream.size < c.position + n) :
    Skips env set c (skipUntil env set n c) := by
  induction n generalizing c with
  | zero => exact .stop (stopsAt_of_size_le h.le)
  | succ n ih =>
    rw [skipUntil]
    split_ifs with hstop
    · exact .stop hstop
    · have hlt : c.position < env.stream.size := by
        by_contra hle
        exact hstop (stopsAt_of_size_le (Nat.le_of_not_lt hle))
      have hadvance := position_lt_position_advance hlt
      exact .skip hstop (ih (by omega))

end Skips

/-! ## Steps -/

/-- An operation takes the cursor on or leaves it. Only a recovery changes where the last one
started its search. -/
structure Advances (env : Setting σ γ) (s s' : Session σ γ) (op : Operation) : Prop where
  /-- The cursor does not go back. -/
  position_le : s.cursor.position ≤ s'.cursor.position
  /-- It does not pass the end of the stream. -/
  bound : s'.cursor.position ≤ env.stream.size
  /-- Without a recovery, the last one remains the same. -/
  lastErrorIndex : op.recovers = false → s'.lastErrorIndex = s.lastErrorIndex
  /-- A recovery searches for a token that some rule in progress can go on with. -/
  search : op.recovers → s'.lastErrorIndex = some (s.searchStart env).position ∧
    Skips env (resyncSet s.follow) (s.searchStart env) s'.cursor

section Step

variable {env : Setting σ γ} {s s' : Session σ γ} {op : Operation}

theorem position_le_size_advance {ts : TokenStream} {c : Cursor} (h : c.position ≤ ts.size) :
    (c.advance ts).position ≤ ts.size := by
  rw [Cursor.advance]
  split_ifs
  · exact h
  · exact TokenStream.nextVisible_le_size ..

theorem Skips.position_le {set : TokenSet} {c c' : Cursor} (h : Skips env set c c') :
    c.position ≤ c'.position := by
  induction h with
  | stop _ => exact le_rfl
  | skip _ _ ih => exact (Cursor.position_le_position_advance ..).trans ih

theorem Skips.bound {set : TokenSet} {c c' : Cursor} (h : Skips env set c c')
    (hc : c.position ≤ env.stream.size) : c'.position ≤ env.stream.size := by
  induction h with
  | stop _ => exact hc
  | skip _ _ ih => exact ih (position_le_size_advance hc)

theorem position_le_searchStart (env : Setting σ γ) (s : Session σ γ) :
    s.cursor.position ≤ (s.searchStart env).position := by
  rw [searchStart]
  split_ifs
  · exact Cursor.position_le_position_advance ..
  · exact le_rfl

/-- A recovery searches from where it has to start. -/
theorem skips_recover (env : Setting σ γ) (s : Session σ γ) (e : RecognitionError) :
    (s.recover env e).lastErrorIndex = some (s.searchStart env).position ∧
      Skips env (resyncSet s.follow) (s.searchStart env) (s.recover env e).cursor := by
  have hstart : (s.recover env e).lastErrorIndex = some (s.searchStart env).position ∧
      (s.recover env e).cursor =
        skipUntil env (resyncSet s.follow) (env.stream.size + 1) (s.searchStart env) := by
    rw [recover, searchStart, show (s.postpone env e).lastErrorIndex = s.lastErrorIndex from rfl,
      show (s.postpone env e).cursor = s.cursor from rfl]
    split_ifs <;> exact ⟨rfl, rfl⟩
  rw [hstart.2]
  exact ⟨hstart.1, skips_skipUntil (by omega)⟩

theorem Advances.of_recovery (hop : op.recovers) (hb : s.cursor.position ≤ env.stream.size)
    (hlast : s'.lastErrorIndex = some (s.searchStart env).position)
    (hs : Skips env (resyncSet s.follow) (s.searchStart env) s'.cursor) : Advances env s s' op where
  position_le := (position_le_searchStart env s).trans hs.position_le
  bound := by
    refine hs.bound ?_
    rw [searchStart]
    split_ifs
    · exact position_le_size_advance hb
    · exact hb
  lastErrorIndex h := by
    rw [hop] at h
    cases h
  search _ := ⟨hlast, hs⟩

theorem Advances.of_eq (hop : op.recovers = false) (hb : s.cursor.position ≤ env.stream.size)
    (hp : s'.cursor.position = s.cursor.position) (hl : s'.lastErrorIndex = s.lastErrorIndex) :
    Advances env s s' op where
  position_le := hp.ge
  bound := hp.le.trans hb
  lastErrorIndex _ := hl
  search h := by
    rw [hop] at h
    cases h

theorem Still.advances (h : Still s s') (hop : op.recovers = false)
    (hb : s.cursor.position ≤ env.stream.size) : Advances env s s' op :=
  .of_eq hop hb (congrArg Cursor.position h.cursor) h.lastErrorIndex

theorem lastErrorIndex_report (env : Setting σ γ) (s : Session σ γ) (e : RecognitionError) :
    (s.report env e).lastErrorIndex = s.lastErrorIndex := by
  obtain ⟨_, _, h⟩ := exists_report env s e
  rw [h]

theorem lastErrorIndex_matchToken (env : Setting σ γ) (s : Session σ γ) (expected : TokenKind)
    (follow : TokenSet) :
    (s.matchToken env expected follow).2.lastErrorIndex = s.lastErrorIndex := by
  obtain ⟨_, _, _, h⟩ := exists_matchToken env s expected follow
  rw [h]

theorem advances_matchToken (hb : s.cursor.position ≤ env.stream.size) (expected : TokenKind)
    (follow : TokenSet) :
    Advances env s (s.matchToken env expected follow).2 (.matchToken expected follow) := by
  have hle := s.cursor.position_le_position_advance env.stream
  have hbound := position_le_size_advance hb
  have hm := match_matchToken env s expected follow
  generalize s.matchRepair? env expected follow = repair at hm
  generalize (s.matchToken env expected follow).1 = answer at hm
  refine ⟨?_, ?_, fun _ => lastErrorIndex_matchToken .., fun h => by cases h⟩
  · cases hm with
    | current _ position _ => exact hle.trans position.ge
    | deleted position _ =>
      exact (hle.trans (Cursor.position_le_position_advance ..)).trans position.ge
    | inserted position _ => exact position.ge
    | failed position _ _ => exact position.ge
  · cases hm with
    | current _ position _ => exact position.le.trans hbound
    | deleted position _ => exact position.le.trans (position_le_size_advance hbound)
    | inserted position _ => exact position.le.trans hb
    | failed position _ _ => exact position.le.trans hb

theorem advances_appendAll (env : Setting σ γ) (hb : s.cursor.position ≤ env.stream.size) :
    Advances env s (s.appendAll env) (.command .appendAll) := by
  have hlast :
      (s.appendAll env).lastErrorIndex = (s.appendRest env s.nextToken).lastErrorIndex := by
    obtain ⟨_, _, h⟩ := exists_appendAll env s
    rw [h]
  have hposition := position_appendAll env s
  exact ⟨hb.trans hposition.ge, hposition.le,
    fun _ => hlast.trans ((leafClosed_still env).appendRest ..).lastErrorIndex, fun h => by cases h⟩

theorem advances_perform {c : Command} (hb : s.cursor.position ≤ env.stream.size)
    (h : s.perform env c = .ok s') : Advances env s s' (.command c) := by
  cases c with
  | newLeaf t element => exact ((leafClosed_still env).newLeaf h).advances rfl hb
  | appendSkipped =>
    obtain rfl := Except.ok.inj h
    exact ((leafClosed_still env).appendSkipped s).advances rfl hb
  | appendTrailing =>
    obtain rfl := Except.ok.inj h
    exact ((leafClosed_still env).appendTrailing s).advances rfl hb
  | appendAll =>
    obtain rfl := Except.ok.inj h
    exact advances_appendAll env hb
  | afterRuleCall =>
    obtain rfl := Except.ok.inj h
    exact (still_afterRuleCall env s).advances rfl hb
  | report e =>
    obtain rfl := Except.ok.inj h
    exact .of_eq rfl hb (congrArg _ (cursor_report ..)) (lastErrorIndex_report ..)
  | recover e =>
    obtain rfl := Except.ok.inj h
    have hs := skips_recover env s e
    exact .of_recovery rfl hb hs.1 hs.2
  | _ =>
    obtain rfl := Except.ok.inj h
    exact .of_eq rfl hb rfl rfl

theorem advances_catchError (hb : s.cursor.position ≤ env.stream.size) (e : ParseError) :
    Advances env s (s.catchError env e).2 (.catchError e) := by
  cases e with
  | recognition e =>
    have hs := skips_recover env s e
    have ha := (leafClosed_still env).appendSkipped (s.recover env e)
    refine .of_recovery rfl hb (ha.lastErrorIndex.trans hs.1) ?_
    show Skips env _ _ ((s.recover env e).appendSkipped env).cursor
    rw [ha.cursor]
    exact hs.2
  | _ => exact .of_eq rfl hb rfl rfl

theorem advances_of_step {answer : op.Answer} (hb : s.cursor.position ≤ env.stream.size)
    (h : s.step env op = .ok (answer, s')) : Advances env s s' op := by
  cases op with
  | command c => exact advances_perform hb (perform_of_step h)
  | lookAt steps =>
    obtain ⟨-, rfl⟩ := Prod.mk.inj (Except.ok.inj h)
    exact .of_eq rfl hb (Cursor.position_lookAt ..) rfl
  | matchToken expected follow =>
    have hm : Advances env s (s.matchToken env expected follow).2 (.matchToken expected follow) :=
      advances_matchToken hb expected follow
    rwa [Except.ok.inj h] at hm
  | groupFailure rule group =>
    obtain ⟨_, -, -, rfl⟩ := exists_report_of_groupFailure h
    exact .of_eq rfl hb (congrArg _ (cursor_report ..)) (lastErrorIndex_report ..)
  | catchError e =>
    have ha : Advances env s (s.catchError env e).2 (.catchError e) := advances_catchError hb e
    rwa [catchError_of_step h] at ha
  | create site rule => exact (still_create h).advances rfl hb
  | createWrapper action value => exact (still_createWrapper h).advances rfl hb
  | assign source mode a =>
    have hs := still_assignAt env s mode a (s.sourceNode source)
    rw [assignAt_of_step h] at hs
    exact hs.advances rfl hb
  | textOf | currentText | errorHere | canSelect | canLeave =>
    obtain ⟨-, rfl⟩ := Prod.mk.inj (Except.ok.inj h)
    exact .of_eq rfl hb rfl rfl

/-- A recovery at a position spends one of the two that are possible there; nothing that was spent
is given back. -/
theorem Advances.spent (h : Advances env s s' op) {i : ℕ} (hi : i < env.stream.size) :
    s.spent i + (op.recovers && s.cursor.position == i).toNat ≤ s'.spent i := by
  have hle := h.position_le
  cases hop : op.recovers with
  | false =>
    have hlast := h.lastErrorIndex hop
    simp only [Session.spent, Bool.false_and, Bool.toNat_false, hlast]
    grind
  | true =>
    obtain ⟨hlast, hs⟩ := h.search hop
    have hstart := position_le_searchStart env s
    have hsearch := hs.position_le
    -- Where the last search had started here, this one starts further on.
    have hforced (hp : s.cursor.position = i) (hlast : s.lastErrorIndex = some i) :
        i < (s.searchStart env).position := by
      rw [searchStart, if_pos (hp ▸ hlast), ← hp]
      exact position_lt_position_advance (hp ▸ hi)
    have hfree (hp : s.cursor.position = i) (hlast : s.lastErrorIndex ≠ some i) :
        (s.searchStart env).position = i := by
      rw [searchStart, if_neg (hp ▸ hlast), hp]
    simp only [Session.spent, Bool.true_and, hlast]
    by_cases hp : s.cursor.position = i
    · simp only [hp, beq_self_eq_true, Bool.toNat_true]
      by_cases hl : s.lastErrorIndex = some i
      · have := hforced hp hl
        grind
      · have := hfree hp hl
        grind
    · grind

end Step

/-! ## Runs -/

section Reaches

variable {env : Setting σ γ} {s s₀ : Session σ γ} {ts : List (Transition σ γ)}

theorem position_le_size_of_reaches (h₀ : s₀.cursor.position ≤ env.stream.size)
    (h : Reaches env s₀ ts s) : s.cursor.position ≤ env.stream.size := by
  induction h with
  | start => exact h₀
  | step _ hs ih => exact (advances_of_step ih hs).bound

/-- Every operation of a run takes the cursor on or leaves it. -/
theorem advances_of_mem (h₀ : s₀.cursor.position ≤ env.stream.size) (h : Reaches env s₀ ts s)
    {tr : Transition σ γ} (ht : tr ∈ ts) : Advances env tr.before tr.after tr.op := by
  induction h with
  | start => exact absurd ht List.not_mem_nil
  | step hrun hs ih =>
    rcases List.mem_append.mp ht with ht | ht
    · exact ih ht
    · rw [List.mem_singleton.mp ht]
      exact advances_of_step (position_le_size_of_reaches h₀ hrun) hs

/-- Where the last recovery started its search is what the last of them recorded. -/
theorem lastErrorIndex_of_reaches (h₀ : s₀.cursor.position ≤ env.stream.size)
    (hlast : s₀.lastErrorIndex = none) (h : Reaches env s₀ ts s) :
    s.lastErrorIndex = (ts.filter (·.op.recovers)).getLast?.bind (·.after.lastErrorIndex) := by
  induction h with
  | start => exact hlast
  | @step ts s s' op answer hrun hs ih =>
    have ha := advances_of_step (position_le_size_of_reaches h₀ hrun) hs
    rw [List.filter_append]
    cases hop : op.recovers with
    | false =>
      rw [List.filter_singleton, hop, cond_false, List.append_nil, ha.lastErrorIndex hop, ih]
    | true =>
      rw [List.filter_singleton, hop, cond_true, List.getLast?_concat]
      rfl

/-- The positions along a run, the last one included, are in order. -/
theorem sorted_positions (h₀ : s₀.cursor.position ≤ env.stream.size) (h : Reaches env s₀ ts s) :
    (ts.map (·.before.cursor.position) ++ [s.cursor.position]).Pairwise (· ≤ ·) := by
  induction h with
  | start => exact List.pairwise_singleton ..
  | @step ts s s' op answer hrun hs ih =>
    have hle := (advances_of_step (position_le_size_of_reaches h₀ hrun) hs).position_le
    rw [List.map_append, List.map_singleton]
    refine List.pairwise_append.mpr ⟨ih, List.pairwise_singleton .., ?_⟩
    intro i hi j hj
    rw [List.mem_singleton.mp hj]
    rcases List.mem_append.mp hi with hi | hi
    · exact ((List.pairwise_append.mp ih).2.2 i hi _ (List.mem_singleton_self _)).trans hle
    · exact (List.mem_singleton.mp hi).le.trans hle

theorem spent_le_two (s : Session σ γ) (i : ℕ) : s.spent i ≤ 2 := by
  rw [Session.spent]
  split_ifs <;> omega

/-- The recoveries at a token were spent. -/
theorem countP_recoversAt_le (h₀ : s₀.cursor.position ≤ env.stream.size)
    (h : Reaches env s₀ ts s) {i : ℕ} (hi : i < env.stream.size) :
    ts.countP (·.recoversAt i) ≤ s.spent i := by
  induction h with
  | start => exact Nat.zero_le _
  | @step ts s s' op answer hrun hs ih =>
    have hspent := (advances_of_step (position_le_size_of_reaches h₀ hrun) hs).spent hi
    rw [List.countP_append, List.countP_singleton, Transition.recoversAt]
    cases hr : op.recovers && s.cursor.position == i with
    | false => simpa [hr] using ih.trans ((Nat.le_add_right ..).trans hspent)
    | true =>
      rw [hr] at hspent
      exact (Nat.add_le_add_right ih 1).trans hspent

/-- Before the end of the input, every recovery of a run was spent at some token. -/
theorem countP_recovers_le_sum (h₀ : s₀.cursor.position ≤ env.stream.size)
    (h : Reaches env s₀ ts s) (hp : s.cursor.position < env.stream.size) :
    ts.countP (·.op.recovers) ≤ ∑ i ∈ Finset.range env.stream.size, s.spent i := by
  induction h with
  | start => exact Nat.zero_le _
  | @step ts s s' op answer hrun hs ih =>
    have ha := advances_of_step (position_le_size_of_reaches h₀ hrun) hs
    have hp' := ha.position_le.trans_lt hp
    have hmono (i : ℕ) (hi : i ∈ Finset.range env.stream.size) : s.spent i ≤ s'.spent i :=
      (Nat.le_add_right ..).trans (ha.spent (Finset.mem_range.mp hi))
    rw [List.countP_append, List.countP_singleton]
    cases hop : op.recovers with
    | false => exact (ih hp').trans (Finset.sum_le_sum hmono)
    | true =>
      have hspent := ha.spent hp'
      rw [hop, beq_self_eq_true] at hspent
      have hlt := Finset.sum_lt_sum hmono ⟨_, Finset.mem_range.mpr hp', Nat.lt_of_succ_le hspent⟩
      exact Nat.lt_of_le_of_lt (ih hp') hlt

/-- In every run the cursor goes on or stays, at most two recoveries start at a token of the stream,
and a run with more than two recoveries for each token has reached the end of the input. The search
of every recovery ends, at the end of the input or on a token that some rule in progress can go on
with. -/
theorem recoveries_of_reaches {factory : σ} {groups : γ}
    (h : Reaches env (start env factory groups) ts s) :
    (ts.map (·.before.cursor.position) ++ [s.cursor.position]).Pairwise (· ≤ ·) ∧
    (∀ i < env.stream.size, ts.countP (·.recoversAt i) ≤ 2) ∧
    (2 * env.stream.size < ts.countP (·.op.recovers) → s.cursor.position = env.stream.size) ∧
    ∀ tr ∈ ts, tr.op.recovers →
      Skips env (resyncSet tr.before.follow) (tr.before.searchStart env) tr.after.cursor ∧
      ((tr.after.currentToken env).kind = .endOfInput ∨
        (tr.after.currentToken env).kind ∈ resyncSet tr.before.follow) := by
  have h₀ : (start env factory groups).cursor.position ≤ env.stream.size :=
    TokenStream.nextVisible_le_size ..
  refine ⟨sorted_positions h₀ h, ?_, ?_, ?_⟩
  · exact fun i hi => (countP_recoversAt_le h₀ h hi).trans (spent_le_two s i)
  · intro hmany
    by_contra hne
    have hlt := Nat.lt_of_le_of_ne (position_le_size_of_reaches h₀ h) hne
    have hsum := Finset.sum_le_card_nsmul (Finset.range env.stream.size) s.spent 2
      fun i _ => spent_le_two s i
    rw [Finset.card_range, Nat.nsmul_eq_mul, Nat.mul_comm] at hsum
    exact absurd hmany (Nat.not_lt_of_le ((countP_recovers_le_sum h₀ h hlt).trans hsum))
  · intro tr ht hr
    have hs := ((advances_of_mem h₀ h ht).search hr).2
    exact ⟨hs, hs.stopsAt⟩

end Reaches

namespace Sample

/-- Recovers a number of times, always from the same error. -/
def recoveries : ℕ → Procedure Unit
  | 0 => .pure ()
  | n + 1 =>
    .call (.command (.recover ⟨.noAlternative 0, stream.atEnd, 0⟩)) fun _ => recoveries n

/-- Recovers seven times where the first word is among the tokens to go on with. -/
def persistence : Procedure Unit :=
  .call (.command (.pushFollow (.ofList [⟨5⟩]))) fun _ => recoveries 7

end Sample

open Sample in
/-- Two recoveries of the sample start at its first token, and seven of them end at the end of its
three tokens. -/
theorem recoveries_of_sample :
    (persistence.history setting session).countP (·.recoversAt 0) = 2 ∧
      2 * setting.stream.size < (persistence.history setting session).countP (·.op.recovers) ∧
      ∃ s, Reaches setting session (persistence.history setting session) s ∧
        s.cursor.position = setting.stream.size := by
  have hmany : 2 * setting.stream.size <
      (persistence.history setting session).countP (·.op.recovers) := by
    decide +kernel
  have hok : (persistence.run setting session).toOption.isSome := by decide +kernel
  refine ⟨by decide +kernel, hmany, ?_⟩
  cases hr : persistence.run setting session with
  | error fault =>
    rw [hr] at hok
    cases hok
  | ok r =>
    have hrun := Procedure.reaches_history hr
    exact ⟨r.2, hrun, (recoveries_of_reaches hrun).2.2.1 hmany⟩

end ParseTree
