import ParseTree.Proofs.Session.Move
import ParseTree.Proofs.Token.Members
import ParseTree.Proofs.Token.Visible

/-!
# Single-token repairs

A match looks at two visible tokens. It takes the first one, or passes over it and takes the second,
or makes up the expected token if the first one may come after that, or else fails. What may come
after the expected token is known from the follow sets of the rules in progress. Apart from the
cursor and the error that waits for a leaf, a match changes nothing.

## Main definitions

* `FollowedBy`, `Viable`: the kinds that may follow a rule in progress, an expected token
* `Session.ahead`: the visible tokens from the cursor on
* `Edit`: the repair that a match has to make

## Main results

* `mem_contextFollow`, `mayFollow_iff`: the follow sets are searched as far as rules may end
* `matchToken_eq_iff_edit`: a match makes this repair and no other
* `edit_of_reaches`: so it does in every reachable session
-/

namespace ParseTree

open Session

/-! ## What may follow -/

/-- Some rule in progress can go on with the kind after all rules called within it have ended. The
follow sets are listed from the innermost rule on. -/
def FollowedBy (stack : List TokenSet) (k : TokenKind) : Prop :=
  ∃ inner set outer, stack = inner ++ set :: outer ∧ (∀ t ∈ inner, .endOfRule ∈ t) ∧ k ∈ set

/-- The kind may come after a token with a follow set, given the follow sets of the rules in
progress. -/
inductive Viable (follow : TokenSet) (stack : List TokenSet) (k : TokenKind) : Prop where
  /-- It follows in the same rule. -/
  | here (mem : k ∈ follow) (ne : k ≠ .endOfRule)
  /-- The rule may end, and some other one goes on with the kind. -/
  | outside (ends : .endOfRule ∈ follow) (followed : FollowedBy stack k) (ne : k ≠ .endOfRule)
  /-- All rules may end, and so does the input. -/
  | endOfInput (ends : .endOfRule ∈ follow) (all : ∀ set ∈ stack, .endOfRule ∈ set)
    (eq : k = .endOfInput)
  /-- The rule may end, and there is no other one. -/
  | unknown (ends : .endOfRule ∈ follow) (empty : stack = [])

section Follow

variable {k : TokenKind} {set found : TokenSet} {stack outer : List TokenSet}

theorem not_followedBy_nil (k : TokenKind) : ¬ FollowedBy [] k := by
  rintro ⟨inner, set, outer, h, -⟩
  exact absurd h (by simp)

theorem followedBy_cons :
    FollowedBy (set :: outer) k ↔ k ∈ set ∨ .endOfRule ∈ set ∧ FollowedBy outer k := by
  constructor
  · rintro ⟨inner, t, rest, h, hinner, hk⟩
    cases inner with
    | nil =>
      obtain ⟨rfl, -⟩ := List.cons.inj h
      exact Or.inl hk
    | cons u inner =>
      obtain ⟨rfl, rfl⟩ := List.cons.inj h
      obtain ⟨hu, hinner⟩ := List.forall_mem_cons.mp hinner
      exact Or.inr ⟨hu, inner, t, rest, rfl, hinner, hk⟩
  · rintro (hk | ⟨hends, inner, t, rest, rfl, hinner, hk⟩)
    · exact ⟨[], set, outer, rfl, by simp, hk⟩
    · exact ⟨set :: inner, t, rest, rfl, List.forall_mem_cons.mpr ⟨hends, hinner⟩, hk⟩

theorem mem_contextFollow_go : k ∈ contextFollow.go found stack ↔
    k ≠ .endOfRule ∧ (k ∈ found ∨ FollowedBy stack k) ∨
      (∀ set ∈ stack, .endOfRule ∈ set) ∧ k = .endOfInput := by
  fun_induction contextFollow.go found stack with
  | case1 found =>
    have := not_followedBy_nil k
    rw [TokenSet.mem_insert, TokenSet.mem_erase]
    simp only [List.not_mem_nil, false_implies, implies_true, true_and]
    tauto
  | case2 found set outer hends ih =>
    rw [ih, TokenSet.mem_union, followedBy_cons, List.forall_mem_cons]
    tauto
  | case3 found set outer hends =>
    rw [TokenSet.mem_erase, TokenSet.mem_union, followedBy_cons, List.forall_mem_cons]
    tauto

/-- The kinds that may follow the current rule: some rule can go on with them, or all may end. -/
theorem mem_contextFollow : k ∈ contextFollow stack ↔
    k ≠ .endOfRule ∧ FollowedBy stack k ∨
      (∀ set ∈ stack, .endOfRule ∈ set) ∧ k = .endOfInput := by
  rw [contextFollow, mem_contextFollow_go]
  simp [TokenSet.not_mem_empty]

end Follow

variable {σ γ : Type} {env : Setting σ γ} {s s' : Session σ γ} {expected : TokenKind}
  {follow : TokenSet} {answer : Except RecognitionError Token} {place place' n : ℕ}

/-- A token may be missing if and only if the current one may come after it. -/
theorem mayFollow_iff :
    s.mayFollow env follow = true ↔ Viable follow s.follow (s.currentToken env).kind := by
  generalize hk : (s.currentToken env).kind = k
  have hmay : s.mayFollow env follow = true ↔
      let kinds := if .endOfRule ∈ follow then
        (if s.follow.isEmpty then follow.union (contextFollow s.follow)
          else (follow.union (contextFollow s.follow)).erase .endOfRule) else follow
      k ∈ kinds ∨ TokenKind.endOfRule ∈ kinds := by
    rw [mayFollow, hk, Bool.or_eq_true]
    rfl
  rw [hmay]
  by_cases hends : .endOfRule ∈ follow
  · rw [if_pos hends]
    cases hstack : s.follow with
    | nil =>
      -- nothing is known of what comes after the rule, so the mark stays and allows all kinds
      refine iff_of_true (Or.inr ?_) (.unknown hends rfl)
      rw [List.isEmpty_nil, if_pos rfl, TokenSet.mem_union]
      exact Or.inl hends
    | cons set outer =>
      rw [List.isEmpty_cons, if_neg Bool.false_ne_true]
      simp only [TokenSet.mem_erase, TokenSet.mem_union, mem_contextFollow, ne_eq,
        not_true_eq_false, false_and, or_false]
      constructor
      · rintro ⟨hne, hin | ⟨-, hout⟩ | ⟨hall, rfl⟩⟩
        · exact .here hin hne
        · exact .outside hends hout hne
        · exact .endOfInput hends hall rfl
      · rintro (⟨hin, hne⟩ | ⟨-, hout, hne⟩ | ⟨-, hall, rfl⟩ | ⟨-, hempty⟩)
        · exact ⟨hne, Or.inl hin⟩
        · exact ⟨hne, Or.inr (Or.inl ⟨hne, hout⟩)⟩
        · exact ⟨by decide, Or.inr (Or.inr ⟨hall, rfl⟩)⟩
        · cases hempty
  · rw [if_neg hends, or_iff_left hends]
    constructor
    · intro hin
      exact .here hin fun he => hends (he ▸ hin)
    · rintro (⟨hin, -⟩ | ⟨hends', -⟩ | ⟨hends', -⟩ | ⟨hends', -⟩)
      · exact hin
      all_goals exact absurd hends' hends

/-! ## What a match comes to -/

/-- The visible token so many steps after the current one; past the last one, the end of the
input. -/
def Session.ahead (env : Setting σ γ) (s : Session σ γ) (n : ℕ) : Token :=
  (env.stream.visible[env.stream.rank s.cursor.position + n]?).getD env.stream.atEnd

/-- The place where the cursor is after so many visible tokens, or the end. -/
structure Session.Passes (env : Setting σ γ) (s : Session σ γ) (n place : ℕ) : Prop where
  /-- A cursor can rest there. -/
  isPlace : env.stream.IsPlace place
  /-- So many visible tokens lie between, unless there are fewer. -/
  rank : env.stream.rank place =
    min (env.stream.rank s.cursor.position + n) env.stream.visible.length

/-- The session with its cursor at another place. -/
def Session.moveTo (s : Session σ γ) (place : ℕ) : Session σ γ :=
  { s with cursor := { s.cursor with position := place } }

/-- The session in which an error was reported: it waits for a leaf if it is the first one since the
last match and no other one waits. -/
def Session.alarm (env : Setting σ γ) (s : Session σ γ) (e : RecognitionError) : Session σ γ :=
  { s with
    isRecovering := true
    pending := if s.isRecovering then s.pending else s.pending.or (some (s.syntaxError env e)) }

/-- The answer to a match and the session after it. -/
inductive Edit (env : Setting σ γ) (s : Session σ γ) (expected : TokenKind) (follow : TokenSet) :
    Except RecognitionError Token → Session σ γ → Prop where
  /-- The first token is as expected. -/
  | matched {place : ℕ} (first : (s.ahead env 0).kind = expected) (passes : s.Passes env 1 place) :
    Edit env s expected follow (.ok (s.ahead env 0))
      { s.moveTo place with isRecovering := false }
  /-- The second token is as expected; the first one is unwanted. -/
  | unwanted {place : ℕ} (first : (s.ahead env 0).kind ≠ expected)
    (second : (s.ahead env 1).kind = expected) (passes : s.Passes env 2 place) :
    Edit env s expected follow (.ok (s.ahead env 1))
      ((s.moveTo place).alarm env ⟨.unwanted expected, s.ahead env 0, s.cursor.position⟩)
  /-- The expected token is missing before the first one. -/
  | missing (first : (s.ahead env 0).kind ≠ expected) (second : (s.ahead env 1).kind ≠ expected)
    (viable : Viable follow s.follow (s.ahead env 0).kind) :
    Edit env s expected follow (.ok (.placeholder expected (s.ahead env 0).span.start))
      (s.alarm env ⟨.missing expected (.placeholder expected (s.ahead env 0).span.start),
        s.ahead env 0, s.cursor.position⟩)
  /-- There is no match. -/
  | mismatched (first : (s.ahead env 0).kind ≠ expected) (second : (s.ahead env 1).kind ≠ expected)
    (viable : ¬ Viable follow s.follow (s.ahead env 0).kind) :
    Edit env s expected follow (.error ⟨.mismatched expected, s.ahead env 0, s.cursor.position⟩) s

theorem Session.Passes.unique (h : s.Passes env n place) (h' : s.Passes env n place') :
    place = place' :=
  h.isPlace.eq_of_rank_eq h'.isPlace (h.rank.trans h'.rank.symm)

/-- The conditions exclude each other, so answer and session are determined. -/
theorem Edit.unique {answer' : Except RecognitionError Token} {s'' : Session σ γ}
    (h : Edit env s expected follow answer s') (h' : Edit env s expected follow answer' s'') :
    answer = answer' ∧ s' = s'' := by
  cases h with
  | matched first passes =>
    cases h' with
    | matched _ passes' =>
      obtain rfl := passes.unique passes'
      exact ⟨rfl, rfl⟩
    | unwanted first' | missing first' | mismatched first' => exact absurd first first'
  | unwanted first second passes =>
    cases h' with
    | matched first' => exact absurd first' first
    | unwanted _ _ passes' =>
      obtain rfl := passes.unique passes'
      exact ⟨rfl, rfl⟩
    | missing _ second' | mismatched _ second' => exact absurd second second'
  | missing first second viable =>
    cases h' with
    | matched first' => exact absurd first' first
    | unwanted _ second' => exact absurd second' second
    | missing => exact ⟨rfl, rfl⟩
    | mismatched _ _ viable' => exact absurd viable viable'
  | mismatched first second viable =>
    cases h' with
    | matched first' => exact absurd first' first
    | unwanted _ second' => exact absurd second' second
    | missing _ _ viable' => exact absurd viable' viable
    | mismatched => exact ⟨rfl, rfl⟩

theorem report_eq_alarm (env : Setting σ γ) (s : Session σ γ) (e : RecognitionError) :
    s.report env e = s.alarm env e := by
  rw [report, alarm]
  split_ifs with h
  · rw [← h]
  · rfl

theorem advance_eq_moveTo (env : Setting σ γ) (s : Session σ γ) :
    s.advance env = s.moveTo (s.advance env).cursor.position := by
  rw [Session.advance, moveTo, Cursor.advance]
  split_ifs <;> rfl

theorem advance_advance_eq_moveTo (env : Setting σ γ) (s : Session σ γ) :
    (s.advance env).advance env = s.moveTo ((s.advance env).advance env).cursor.position :=
  calc (s.advance env).advance env
      = (s.advance env).moveTo ((s.advance env).advance env).cursor.position :=
        advance_eq_moveTo env (s.advance env)
    _ = (s.moveTo (s.advance env).cursor.position).moveTo
          ((s.advance env).advance env).cursor.position :=
        congrArg (fun t => moveTo t _) (advance_eq_moveTo env s)
    _ = s.moveTo ((s.advance env).advance env).cursor.position := rfl

/-- Neither the alarm nor the wording of the error depends on the cursor. -/
theorem advance_alarm (env : Setting σ γ) (s : Session σ γ) (e : RecognitionError) :
    (s.alarm env e).advance env = (s.advance env).alarm env e := rfl

section Place

variable (h : env.stream.IsPlace s.cursor.position)

include h

theorem currentToken_eq_ahead : s.currentToken env = s.ahead env 0 :=
  TokenStream.peek_ofNat_succ h 0

theorem peek_two_eq_ahead : s.cursor.peek env.stream 2 = s.ahead env 1 :=
  TokenStream.peek_ofNat_succ h 1

theorem passes_advance : s.Passes env 1 (s.advance env).cursor.position :=
  ⟨Cursor.isPlace_advance h, Cursor.rank_advance h⟩

theorem passes_advance_advance :
    s.Passes env 2 ((s.advance env).advance env).cursor.position := by
  have hone := passes_advance h
  refine ⟨Cursor.isPlace_advance hone.isPlace, ?_⟩
  have hcursor : ((s.advance env).advance env).cursor =
      (s.advance env).cursor.advance env.stream := rfl
  rw [hcursor, Cursor.rank_advance hone.isPlace, hone.rank]
  omega

/-- A match makes the repair. -/
theorem edit_matchToken (expected : TokenKind) (follow : TokenSet) :
    Edit env s expected follow (s.matchToken env expected follow).1
      (s.matchToken env expected follow).2 := by
  rw [matchToken_eq, matchCurrent, currentToken_eq_ahead h, peek_two_eq_ahead h]
  split_ifs with hfirst hsecond hviable
  · rw [advance_eq_moveTo]
    exact .matched hfirst (passes_advance h)
  · dsimp only
    rw [currentToken_report_advance, peek_two_eq_ahead h, report_eq_alarm, advance_alarm,
      advance_advance_eq_moveTo]
    exact .unwanted hfirst hsecond (passes_advance_advance h)
  · dsimp only
    rw [report_eq_alarm]
    rw [mayFollow_iff, currentToken_eq_ahead h] at hviable
    exact .missing hfirst hsecond hviable
  · rw [mayFollow_iff, currentToken_eq_ahead h] at hviable
    exact .mismatched hfirst hsecond hviable

/-- A match answers and leaves what the repair says, and nothing else. -/
theorem matchToken_eq_iff_edit :
    s.matchToken env expected follow = (answer, s') ↔ Edit env s expected follow answer s' := by
  have hedit := edit_matchToken h expected follow
  constructor
  · intro hm
    rwa [hm] at hedit
  · intro he
    obtain ⟨hanswer, hs⟩ := hedit.unique he
    exact Prod.ext hanswer hs

end Place

/-- Only the position of the cursor, the error that waits and the alarm are touched. -/
theorem Edit.frame (h : Edit env s expected follow answer s') :
    ∃ place pending isRecovering, s' = { s.moveTo place with pending, isRecovering } := by
  cases h with
  | matched => exact ⟨_, _, _, rfl⟩
  | unwanted => exact ⟨_, _, _, rfl⟩
  | missing => exact ⟨s.cursor.position, _, _, rfl⟩
  | mismatched => exact ⟨s.cursor.position, s.pending, s.isRecovering, rfl⟩

/-- In every reachable session a match takes the first visible token if it is as expected, else the
second one, else makes up the expected token if the first one may come after it, else fails and
changes nothing. In no case does it touch more than the position of the cursor, the error that
waits and the alarm. -/
theorem edit_of_reaches {factory : σ} {groups : γ} {ts : List (Transition σ γ)}
    (h : Reaches env (start env factory groups) ts s) (expected : TokenKind) (follow : TokenSet)
    (answer : Except RecognitionError Token) (s' : Session σ γ) :
    (s.matchToken env expected follow = (answer, s') ↔ Edit env s expected follow answer s') ∧
      (s.matchToken env expected follow = (answer, s') →
        ∃ place pending isRecovering, s' = { s.moveTo place with pending, isRecovering }) := by
  have hrests := rests_of_reaches (Cursor.rests_start env.stream) h
  have hiff : s.matchToken env expected follow = (answer, s') ↔
      Edit env s expected follow answer s' :=
    matchToken_eq_iff_edit (Cursor.rests_iff.mp hrests)
  exact ⟨hiff, fun hm => (hiff.mp hm).frame⟩

open Sample in
/-- At the start of the sample each of the four things can happen: the two words follow each
other. -/
theorem edit_of_sample :
    (∃ s', Edit setting session ⟨5⟩ ∅ (.ok ⟨⟨5⟩, .visible, ⟨0, 1⟩, some 0⟩) s') ∧
    (∃ s', Edit setting session ⟨7⟩ ∅ (.ok ⟨⟨7⟩, .visible, ⟨2, 3⟩, some 2⟩) s') ∧
    (∃ s', Edit setting session ⟨8⟩ (.ofList [⟨5⟩]) (.ok (.placeholder ⟨8⟩ 0)) s') ∧
    ∃ s', Edit setting session ⟨8⟩ (.ofList [⟨7⟩])
      (.error ⟨.mismatched ⟨8⟩, ⟨⟨5⟩, .visible, ⟨0, 1⟩, some 0⟩, 0⟩) s' := by
  have h : Reaches setting (start setting () ()) [] session := .start
  have hanswer (expected : TokenKind) (follow : TokenSet)
      (answer : Except RecognitionError Token)
      (ha : (session.matchToken setting expected follow).1 = answer) :
      Edit setting session expected follow answer (session.matchToken setting expected follow).2 :=
    (edit_of_reaches h expected follow answer _).1.mp (Prod.ext ha rfl)
  exact ⟨⟨_, hanswer _ _ _ (by decide +kernel)⟩, ⟨_, hanswer _ _ _ (by decide +kernel)⟩,
    ⟨_, hanswer _ _ _ (by decide +kernel)⟩, ⟨_, hanswer _ _ _ (by decide +kernel)⟩⟩

end ParseTree
