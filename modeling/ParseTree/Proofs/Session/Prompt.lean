import ParseTree.Proofs.Session.Frontier

/-!
# Prompt procedures

A prompt procedure makes the leaf of a matched token at once, makes no others, and deals with an
error where it was raised. Between two matches the cursor is then on the first visible token without
a leaf. There is one exception: a match of the end of the input may pass over the last visible
token, which has to wait for its leaf.

## Main definitions

* `Prompt`: the histories of prompt procedures
* `Transition.Overlooks`: the last token was passed over in silence
* `Settled`: the cursor is on the first visible token without a leaf, or past an overlooked one
* `Awaits`: the leaf of the matched token comes next

## Main results

* `Settled.step`: what an operation of a prompt procedure leaves behind
* `settled_of_reaches`: a prompt run settles
* `token_of_posted`: its messages are about the current token
-/

namespace ParseTree

open Session

variable {σ γ : Type}

/-- The operation neither makes leaves for tokens without a match nor deals with an error by
itself. -/
def Operation.isPlain : Operation → Bool
  | .command .appendSkipped | .command .appendTrailing | .command .appendAll => false
  | .command (.report _) | .command (.recover _) => false
  | _ => true

/-- The recognition error that an operation deals with. -/
def Operation.caught? : Operation → Option RecognitionError
  | .catchError (.recognition e) => some e
  | _ => none

/-- A matched token gets its leaf at once. -/
def LeavesAtOnce (ts : List (Transition σ γ)) : Prop :=
  ∀ tr us, tr :: us <:+ ts → ∀ t ∈ tr.matched?, us.head?.bind (·.op.leafToken?) = some t

/-- Leaves were only made for tokens that were matched before. -/
def FromMatches (ts : List (Transition σ γ)) : Prop :=
  ∀ us tr, us ++ [tr] <+: ts →
    ∀ t ∈ tr.op.leafToken?, t.isSynthetic ∨ ∃ u ∈ us, u.matched? = some t

/-- A procedure makes the leaf of a matched token at once, makes no others, deals with an error
where it was raised and closes no more composites than it opened. -/
structure Prompt (env : Setting σ γ) (ts : List (Transition σ γ)) : Prop where
  /-- No more composites were closed than opened. -/
  balanced : Balanced ts
  /-- Skipped tokens and errors are left to the handlers of errors. -/
  plain : ∀ tr ∈ ts, tr.op.isPlain
  /-- Errors are dealt with where they were raised. -/
  raised : ∀ tr ∈ ts, ∀ e ∈ tr.op.caught?, tr.before.errorHere env e.fault = e
  /-- A matched token gets its leaf at once. -/
  leaves : LeavesAtOnce ts
  /-- No other token gets one. -/
  matched : FromMatches ts

theorem given?_of_matched? {tr : Transition σ γ} {t : Token} (h : tr.matched? = some t) :
    tr.given? = some t := by
  obtain ⟨s, op, answer, s'⟩ := tr
  cases op with
  | matchToken expected follow => exact (Option.filter_eq_some_iff.mp h).1
  | _ => cases h

section Decidable

variable (env : Setting σ γ) (ts : List (Transition σ γ))

/-- Every suffix is looked at once. -/
theorem leavesAtOnce_iff : LeavesAtOnce ts ↔ ∀ us ∈ ts.tails, ∀ tr ∈ us.head?, ∀ t ∈ tr.matched?,
    us.tail.head?.bind (·.op.leafToken?) = some t := by
  constructor
  · intro h us hus tr htr
    have hsplit := List.cons_head?_tail htr
    exact h tr us.tail (hsplit.symm ▸ (List.mem_tails us ts).mp hus)
  · intro h tr us hus
    exact h (tr :: us) ((List.mem_tails _ ts).mpr hus) tr rfl

instance : Decidable (LeavesAtOnce ts) :=
  decidable_of_iff' _ (leavesAtOnce_iff ts)

/-- Every prefix is looked at once. -/
theorem fromMatches_iff : FromMatches ts ↔ ∀ us ∈ ts.inits, ∀ tr ∈ us.getLast?,
    ∀ t ∈ tr.op.leafToken?, t.isSynthetic ∨ ∃ u ∈ us.dropLast, u.matched? = some t := by
  constructor
  · intro h us hus tr htr
    have hsplit := List.dropLast_append_getLast? tr htr
    exact h us.dropLast tr (hsplit.symm ▸ (List.mem_inits us ts).mp hus)
  · intro h us tr hus
    have hlast := h (us ++ [tr]) ((List.mem_inits _ ts).mpr hus) tr List.getLast?_concat
    rwa [List.dropLast_concat] at hlast

instance : Decidable (FromMatches ts) :=
  decidable_of_iff' _ (fromMatches_iff ts)

instance : Decidable (Prompt env ts) :=
  decidable_of_iff (Balanced ts ∧ (∀ tr ∈ ts, tr.op.isPlain) ∧
      (∀ tr ∈ ts, ∀ e ∈ tr.op.caught?, tr.before.errorHere env e.fault = e) ∧
      LeavesAtOnce ts ∧ FromMatches ts)
    ⟨fun h => ⟨h.1, h.2.1, h.2.2.1, h.2.2.2.1, h.2.2.2.2⟩,
      fun h => ⟨h.balanced, h.plain, h.raised, h.leaves, h.matched⟩⟩

end Decidable

/-! ## Where the cursor is -/

/-- A match of the end of the input passed over a token in silence, because an error had been
reported before. -/
structure Transition.Overlooks (env : Setting σ γ) (tr : Transition σ γ) : Prop where
  /-- The end of the input was matched. -/
  op : ∃ follow, tr.op = .matchToken .endOfInput follow
  /-- A token was passed over. -/
  repair : tr.repair? env = some .deletion
  /-- Nothing was reported. -/
  isRecovering : tr.before.isRecovering = true

/-- The cursor is at the end, past a token without a leaf. Either a message waits for the leaf, or
the token was overlooked. -/
structure Behind (env : Setting σ γ) (ts : List (Transition σ γ)) (s : Session σ γ) : Prop where
  /-- The cursor is at the end. -/
  position : s.cursor.position = env.stream.size
  /-- A visible token has no leaf. -/
  frontier : s.frontier env < env.stream.size
  /-- Its leaf is awaited, or it was overlooked. -/
  unsaid : s.pending.isSome ∨
    ∃ tr ∈ ts, tr.Overlooks env ∧ tr.before.cursor.position = s.frontier env

/-- The cursor is on the first visible token without a leaf, or at the end, past such a token. -/
structure Settled (env : Setting σ γ) (ts : List (Transition σ γ)) (s : Session σ γ) : Prop where
  /-- The cursor is on a visible token or at the end. -/
  rests : s.cursor.Rests env.stream
  /-- No leaf was made for a token past the end. -/
  bound : s.nextToken ≤ env.stream.size
  /-- The matched tokens have their leaves. -/
  passed : ∀ tr ∈ ts, ∀ t ∈ tr.matched?, ∀ i, t.index = some i → i < s.nextToken
  /-- The cursor is where leaves are to be made, or further on. -/
  stage : s.frontier env = s.cursor.position ∨ Behind env ts s

/-- A token was matched whose leaf comes next, with hidden tokens only between it and the cursor. -/
structure Awaits (env : Setting σ γ) (ts : List (Transition σ γ)) (t : Token) (s : Session σ γ) :
    Prop where
  /-- The cursor is on a visible token or at the end. -/
  rests : s.cursor.Rests env.stream
  /-- The tokens that were matched before have their leaves. -/
  passed : ∀ tr ∈ ts, ∀ t ∈ tr.matched?, ∀ i, t.index = some i → i < s.nextToken
  /-- The token is one of the stream and has no leaf yet. -/
  next : ∃ i < env.stream.size, t.index = some i ∧ s.nextToken ≤ i ∧
    env.stream.nextVisible (i + 1) = s.cursor.position

section Settled

variable {env : Setting σ γ} {s s' : Session σ γ} {ts : List (Transition σ γ)} {op : Operation}
  {answer : op.Answer} {t : Token}

theorem frontier_congr (h : s'.lastToken = s.lastToken) : s'.frontier env = s.frontier env := by
  rw [Session.frontier, Session.frontier, nextToken_congr h]

theorem nextToken_le_frontier (h : s.nextToken ≤ env.stream.size) :
    s.nextToken ≤ s.frontier env :=
  TokenStream.le_nextVisible h

theorem Settled.frontier_le (h : Settled env ts s) : s.frontier env ≤ s.cursor.position := by
  rcases h.stage with hs | hs
  · exact hs.le
  · rw [hs.position]
    exact hs.frontier.le

/-- What is known of the matched tokens so far is known after an operation that matches none. -/
theorem passed_concat {n : ℕ} {tr : Transition σ γ}
    (h : ∀ tr ∈ ts, ∀ t ∈ tr.matched?, ∀ i, t.index = some i → i < n) (hm : tr.matched? = none) :
    ∀ u ∈ ts ++ [tr], ∀ t ∈ u.matched?, ∀ i, t.index = some i → i < n := by
  intro u hu t ht
  rcases List.mem_append.mp hu with hu | hu
  · exact h u hu t ht
  · rw [List.mem_singleton.mp hu, hm] at ht
    cases ht

/-- An operation that neither moves the cursor nor makes leaves. -/
theorem Settled.keep (h : Settled env ts s) (hp : s'.cursor.position = s.cursor.position)
    (hl : s'.lastToken = s.lastToken) (hs : s.pending.isSome → s'.pending.isSome)
    (hm : op.matched? answer = none) : Settled env (ts ++ [⟨s, op, answer, s'⟩]) s' := by
  have hf : s'.frontier env = s.frontier env := frontier_congr hl
  have hn := nextToken_congr hl
  refine ⟨h.rests.of_position hp, hn ▸ h.bound, ?_, ?_⟩
  · rw [hn]
    exact passed_concat h.passed hm
  · rcases h.stage with hstage | ⟨position, frontier, unsaid⟩
    · exact Or.inl (hf.trans (hstage.trans hp.symm))
    · refine Or.inr ⟨hp.trans position, hf ▸ frontier, ?_⟩
      rcases unsaid with hpending | ⟨tr, htr, ho, hpos⟩
      · exact Or.inl (hs hpending)
      · exact Or.inr ⟨tr, List.mem_append_left _ htr, ho, hf ▸ hpos⟩

/-! ### Operations -/

/-- What waits for a leaf waits as long as no leaf is made. -/
theorem isSome_pending_of_step (hc : env.stream.Contract) (hl : Linked s) (ht : op.IsTidy env s)
    (hop : op ≠ .command .appendAll) (hs : s.step env op = .ok (answer, s'))
    (hlast : s'.lastToken = s.lastToken) (h : s.pending.isSome) : s'.pending.isSome := by
  have ho := (slice_newLeaves hl hc ht hs).tokens
  rw [nextToken_congr hlast, TokenStream.slice_self, List.map_eq_nil_iff] at ho
  have hp : s'.pending = _ := (delivers_of_step hl hs).pending
  obtain ⟨e, he⟩ := Option.isSome_iff_exists.mp h
  rw [if_neg hop, Transition.rest, ho, List.foldl_nil, Transition.slot] at hp
  rw [hp, he]
  rfl

theorem lastToken_createWrapper {action : ElementId} {value : Option SemanticId}
    {answer : Except ParseError SemanticId} (hl : Linked s)
    (h : s.createWrapper env action value = .ok (answer, s')) : s'.lastToken = s.lastToken := by
  rcases createWrapper_cases h with rfl | ⟨classifier, rfl | ⟨element, assigned, t, ht, hs'⟩⟩
  · rfl
  · rfl
  · have hm := steady_make env s classifier
    have ha : t.lastToken = s.lastToken :=
      ht ▸ (hm.trans (steady_assignAction env (hm.linked hl))).lastToken
    rcases hs' with rfl | rfl
    · exact ha
    · rw [associate]
      split <;> exact ha

/-- Most operations leave alone where the cursor is and which tokens have leaves. -/
theorem inert_of_step (hl : Linked s) (hplain : op.isPlain) (hleaf : op.leafToken? = none)
    (hcaught : op.caught? = none) (hmatch : ∀ expected follow, op ≠ .matchToken expected follow)
    (hs : s.step env op = .ok (answer, s')) :
    s'.cursor.position = s.cursor.position ∧ s'.lastToken = s.lastToken := by
  cases op with
  | command c =>
    have ht := perform_of_step hs
    cases c with
    | newLeaf t element => cases hleaf
    | appendSkipped | appendTrailing | appendAll | report | recover => cases hplain
    | afterRuleCall =>
      obtain rfl := Except.ok.inj ht
      exact ⟨congrArg _ (still_afterRuleCall env s).cursor, lastToken_afterRuleCall env s⟩
    | _ =>
      obtain rfl := Except.ok.inj ht
      exact ⟨rfl, rfl⟩
  | lookAt steps =>
    obtain ⟨-, rfl⟩ := Prod.mk.inj (Except.ok.inj hs)
    exact ⟨Cursor.position_lookAt .., rfl⟩
  | matchToken expected follow => exact absurd rfl (hmatch expected follow)
  | groupFailure rule group =>
    have hlast := (steady_groupFailure hs).lastToken
    obtain ⟨_, -, -, rfl⟩ := exists_report_of_groupFailure hs
    exact ⟨congrArg _ (cursor_report ..), hlast⟩
  | catchError e =>
    obtain ⟨-, rfl⟩ := Prod.mk.inj (Except.ok.inj hs)
    cases e with
    | recognition e => cases hcaught
    | _ => exact ⟨rfl, rfl⟩
  | create site rule => exact ⟨congrArg _ (still_create hs).cursor, (steady_create hl hs).lastToken⟩
  | createWrapper action value =>
    exact ⟨congrArg _ (still_createWrapper hs).cursor, lastToken_createWrapper hl hs⟩
  | assign source mode a =>
    have hs' := still_assignAt env s mode a (s.sourceNode source)
    have hsteady := steady_assignAt env hl mode a (s.sourceNode source)
    rw [assignAt_of_step hs] at hs' hsteady
    exact ⟨congrArg _ hs'.cursor, hsteady.lastToken⟩
  | textOf | currentText | errorHere | canSelect | canLeave =>
    obtain ⟨-, rfl⟩ := Prod.mk.inj (Except.ok.inj hs)
    exact ⟨rfl, rfl⟩

/-- A leaf is made once. -/
theorem newLeaf_of_passed {element : ElementId} (h : Settled env ts s)
    (ht : t.isSynthetic ∨ ∃ tr ∈ ts, tr.matched? = some t) (hs : s.newLeaf env t element = .ok s') :
    s' = s := by
  rw [newLeaf] at hs
  cases hi : t.index with
  | none =>
    simp only [hi] at hs
    exact (Except.ok.inj hs).symm
  | some i =>
    simp only [hi] at hs
    obtain ⟨tr, htr, hm⟩ := ht.resolve_left (by simp [Token.isSynthetic, hi])
    have hlt := h.passed tr htr t hm i hi
    rw [nextToken] at hlt
    cases hlast : s.lastToken with
    | none =>
      rw [hlast] at hlt
      cases hlt
    | some last =>
      rw [hlast] at hlt
      rw [hlast, if_pos (by simpa using Nat.le_of_lt_succ hlt)] at hs
      exact (Except.ok.inj hs).symm

/-- The leaf of a matched token. -/
theorem Awaits.newLeaf {tr : Transition σ γ} {element : ElementId} (h : Awaits env ts t s)
    (hm : tr.matched? = some t) (hs : s.newLeaf env t element = .ok s') :
    Settled env (ts ++ [tr] ++ [⟨s, .command (.newLeaf t element), (), s'⟩]) s' := by
  obtain ⟨i, hsize, hi, hle, hnext⟩ := h.next
  have hcursor := ((leafClosed_still env).newLeaf hs).cursor
  have hlast : s'.lastToken = some i := by
    rw [Session.newLeaf] at hs
    simp only [hi] at hs
    split_ifs at hs with hpassed
    · rw [nextToken] at hle
      cases hlast : s.lastToken with
      | none => simp [hlast] at hpassed
      | some last =>
        rw [hlast] at hle hpassed
        exact absurd hle (Nat.not_le_of_lt (Nat.lt_succ_of_le (by simpa using hpassed)))
    · obtain ⟨feature, -, hs⟩ := exists_of_bind_eq_ok hs
      obtain rfl := Except.ok.inj hs
      rfl
  have hn : s'.nextToken = i + 1 := by rw [nextToken, hlast]; rfl
  refine ⟨h.rests.of_position (congrArg _ hcursor), ?_, ?_, Or.inl ?_⟩
  · rw [hn]
    exact hsize
  · rw [hn]
    refine passed_concat ?_ rfl
    intro u hu v hv j hj
    rcases List.mem_append.mp hu with hu | hu
    · exact (h.passed u hu v hv j hj).trans_le (hle.trans (Nat.le_succ i))
    · rw [List.mem_singleton.mp hu, hm] at hv
      rw [← Option.some.inj hv, hi] at hj
      exact Option.some.inj hj ▸ Nat.lt_succ_self i
  · rw [Session.frontier, hn, hnext, hcursor]

theorem currentToken_of_position (h : s.cursor.position = env.stream.size) :
    s.currentToken env = env.stream.atEnd := by
  rw [currentToken, Cursor.current_eq, TokenStream.token?_eq_none_iff.mpr h.ge]
  rfl

theorem position_advance_of_position (h : s.cursor.position = env.stream.size) :
    (s.cursor.advance env.stream).position = env.stream.size := by
  rw [Cursor.advance, if_pos h.ge, h]

theorem position_advance_of_lt (h : s.cursor.position < env.stream.size) :
    (s.cursor.advance env.stream).position = env.stream.nextVisible (s.cursor.position + 1) := by
  rw [Cursor.advance, if_neg (Nat.not_le_of_lt h)]

/-- At the end of the input a match moves nothing and matches no token. -/
theorem match_at_end {expected : TokenKind} {repair : Option Repair}
    {answer : Except RecognitionError Token} (hm : Match env s s' expected repair answer)
    (h : s.cursor.position = env.stream.size) : s'.cursor.position = s.cursor.position ∧
      ∀ follow, (Operation.matchToken expected follow).matched? answer = none := by
  have hadvance := position_advance_of_position h
  have hnext : s.cursor.peek env.stream 2 = env.stream.atEnd := by
    rw [← Cursor.current_advance]
    exact currentToken_of_position (s := s.advance env) hadvance
  cases hm with
  | current _ position _ =>
    refine ⟨position.trans (hadvance.trans h.symm), fun follow => ?_⟩
    rw [matched?_matchToken, currentToken_of_position h]
    rfl
  | deleted position _ =>
    refine ⟨position.trans ?_, fun follow => ?_⟩
    · exact (position_advance_of_position (s := s.advance env) hadvance).trans h.symm
    · rw [matched?_matchToken, hnext]
      rfl
  | inserted position _ => exact ⟨position, fun follow => matched?_matchToken ..⟩
  | failed position _ _ => exact ⟨position, fun follow => rfl⟩

theorem kind_of_deletion {expected : TokenKind} {follow : TokenSet}
    (h : s.matchRepair? env expected follow = some .deletion) :
    (s.cursor.peek env.stream 2).kind = expected := by
  rw [matchRepair?] at h
  split_ifs at h with _ hnext
  · exact hnext
  · cases h

/-- The token at a position was matched, and no leaf was made for it or a later one. -/
theorem Settled.awaits {i : ℕ} (hc : env.stream.Contract) (h : Settled env ts s)
    (hrests : s'.cursor.Rests env.stream) (hi : env.stream.token? i = some t)
    (hle : s.nextToken ≤ i) (hl : s'.lastToken = s.lastToken)
    (hp : s'.cursor.position = env.stream.nextVisible (i + 1)) : Awaits env ts t s' := by
  have hn := nextToken_congr hl
  exact ⟨hrests, hn ▸ h.passed, i, TokenStream.lt_size_of_token? hi, hc.index i t hi, hn ▸ hle,
    hp.symm⟩

theorem matched?_of_token? {i : ℕ} {expected : TokenKind} (hc : env.stream.Contract)
    (hi : env.stream.token? i = some t) (follow : TokenSet) :
    (Operation.matchToken expected follow).matched? (.ok t) = some t := by
  rw [matched?_matchToken, if_neg]
  simp [Token.isSynthetic, hc.index i t hi]

/-- A match finds a token whose leaf comes next, or none. -/
theorem Settled.match {expected : TokenKind} {follow : TokenSet}
    {answer : Except RecognitionError Token} (hc : env.stream.Contract) (hl : Linked s)
    (h : Settled env ts s) (hs : s.step env (.matchToken expected follow) = .ok (answer, s')) :
    (Operation.matchToken expected follow).matched? answer = none ∧
        Settled env (ts ++ [⟨s, .matchToken expected follow, answer, s'⟩]) s' ∨
      ∃ t, (Operation.matchToken expected follow).matched? answer = some t ∧
        Awaits env ts t s' := by
  have hlast : s'.lastToken = s.lastToken := by
    have hs' := (steady_matchToken env s expected follow).lastToken
    rwa [Except.ok.inj hs] at hs'
  have hm := match_matchToken env s expected follow
  rw [Except.ok.inj hs] at hm
  have hrests := hm.rests h.rests
  have htidy : Operation.IsTidy env s (.matchToken expected follow) := trivial
  have hkeep := isSome_pending_of_step hc hl htidy (by simp) hs hlast
  rcases h.rests.1.eq_or_lt with hend | hlt
  · obtain ⟨hp, hnone⟩ := match_at_end hm hend
    exact Or.inl ⟨hnone follow, h.keep hp hlast hkeep (hnone follow)⟩
  have hstage : s.frontier env = s.cursor.position :=
    h.stage.resolve_right fun hb => hlt.ne hb.position
  have hle : s.nextToken ≤ s.cursor.position := hstage ▸ nextToken_le_frontier h.bound
  obtain ⟨t, ht⟩ := TokenStream.exists_token? hlt
  have hcurrent : s.currentToken env = t := by
    rw [currentToken, Cursor.current_eq, ht, Option.getD_some]
  generalize hr : s.matchRepair? env expected follow = repair at hm
  cases hm with
  | current _ position _ =>
    refine Or.inr ⟨t, ?_, h.awaits hc hrests ht hle hlast ?_⟩
    · rw [hcurrent, matched?_of_token? hc ht]
    · rw [position, position_advance_of_lt hlt]
  | deleted position error =>
    have hq := position_advance_of_lt hlt
    rcases (h.rests.advance).1.eq_or_lt with hend | hlt'
    · have hnext : s.cursor.peek env.stream 2 = env.stream.atEnd := by
        rw [← Cursor.current_advance]
        exact currentToken_of_position (s := s.advance env) hend
      have hnone : (Operation.matchToken expected follow).matched?
          (.ok (s.cursor.peek env.stream 2)) = none := by
        rw [matched?_matchToken, hnext]
        rfl
      have hp : s'.cursor.position = env.stream.size :=
        position.trans (position_advance_of_position (s := s.advance env) hend)
      refine Or.inl ⟨hnone, hrests, ?_, ?_, Or.inr ⟨hp, ?_, ?_⟩⟩
      · rw [nextToken_congr hlast]
        exact h.bound
      · rw [nextToken_congr hlast]
        exact passed_concat h.passed hnone
      · rwa [frontier_congr hlast, hstage]
      · cases hi : s.isRecovering with
        | false => exact Or.inl (error hi)
        | true =>
          refine Or.inr ⟨_, List.mem_append_right _ (List.mem_singleton_self _), ⟨⟨follow, ?_⟩, hr,
            hi⟩, ?_⟩
          · have hkind := kind_of_deletion hr
            rw [hnext] at hkind
            rw [← hkind]
            rfl
          · rw [frontier_congr hlast, hstage]
    · obtain ⟨u, hu⟩ := TokenStream.exists_token? hlt'
      have hnext : s.cursor.peek env.stream 2 = u := by
        rw [← Cursor.current_advance, Cursor.current_eq, hu, Option.getD_some]
      refine Or.inr ⟨u, ?_, h.awaits hc hrests hu ?_ hlast ?_⟩
      · rw [hnext, matched?_of_token? hc hu]
      · exact hle.trans (Cursor.position_le_position_advance ..)
      · exact position.trans (position_advance_of_lt (s := s.advance env) hlt')
  | inserted position _ =>
    have hnone := matched?_matchToken expected follow
      (.placeholder expected (s.currentToken env).span.start)
    exact Or.inl ⟨hnone, h.keep position hlast hkeep hnone⟩
  | failed position _ _ => exact Or.inl ⟨rfl, h.keep position hlast hkeep rfl⟩

/-- Once the skipped tokens have their leaves, the cursor is on the first visible token without. -/
theorem frontier_appendSkipped (hc : env.stream.Contract) (hs : s.cursor.Rests env.stream)
    (hb : s.nextToken ≤ env.stream.size) (hf : s.frontier env ≤ s.cursor.position) :
    (s.appendSkipped env).frontier env = s.cursor.position := by
  have hposition := TokenStream.nextVisible_position hs
  have hback := TokenStream.lookBack_one hs.1
  have hle : s.nextToken ≤ s.cursor.position := (nextToken_le_frontier hb).trans hf
  rw [appendSkipped, Cursor.previous?, Nat.min_eq_left hs.1]
  generalize env.stream.lookBack s.cursor.position 1 = previous? at hback ⊢
  cases previous? with
  | none =>
    have hmono : env.stream.nextVisible 0 ≤ env.stream.nextVisible s.nextToken :=
      TokenStream.nextVisible_mono (Nat.zero_le s.nextToken)
    exact hf.antisymm (hback.trans hposition ▸ hmono)
  | some t =>
    obtain ⟨a, ha, ht, hnext⟩ := hback
    rw [Option.bind_some, hc.index a t ht]
    dsimp only
    split_ifs with hpassed
    · exact hnext.trans hposition
    · have hmono : env.stream.nextVisible (a + 1) ≤ env.stream.nextVisible s.nextToken :=
        TokenStream.nextVisible_mono (Nat.lt_of_not_le hpassed)
      exact hf.antisymm (hnext.trans hposition ▸ hmono)

theorem Settled.resume {e : RecognitionError} {answer : Except ParseError Unit}
    (hc : env.stream.Contract) (h : Settled env ts s) :
    Settled env (ts ++ [⟨s, .catchError (.recognition e), answer, s.resume env e⟩])
      (s.resume env e) := by
  have hlast := (steady_recover env s e).lastToken
  obtain ⟨us, -, ho⟩ := growth_appendSkipped env (s.recover env e)
  have ho := ho hc
  have hn := nextToken_congr hlast
  have hcursor := ((leafClosed_still env).appendSkipped (s.recover env e)).cursor
  have hrests : (s.recover env e).cursor.Rests env.stream := rests_recover h.rests
  refine ⟨hrests.of_position (congrArg _ hcursor), ho.bound (hn ▸ h.bound), ?_, Or.inl ?_⟩
  · exact passed_concat (fun u hu t ht i hi => (h.passed u hu t ht i hi).trans_le (hn ▸ ho.le)) rfl
  · refine (frontier_appendSkipped hc hrests (hn ▸ h.bound) ?_).trans
      (congrArg Cursor.position hcursor).symm
    rw [frontier_congr hlast]
    exact h.frontier_le.trans (position_le_position_recover env s e)

/-- Whatever a prompt procedure does, the cursor settles, or a leaf is awaited. -/
theorem Settled.step (hc : env.stream.Contract) (hl : Linked s) (h : Settled env ts s)
    (hplain : op.isPlain)
    (hleaf : ∀ t ∈ op.leafToken?, t.isSynthetic ∨ ∃ tr ∈ ts, tr.matched? = some t)
    (hs : s.step env op = .ok (answer, s')) :
    op.matched? answer = none ∧ Settled env (ts ++ [⟨s, op, answer, s'⟩]) s' ∨
      ∃ t, op.matched? answer = some t ∧ Awaits env ts t s' := by
  have hinert (hleaf : op.leafToken? = none) (hcaught : op.caught? = none)
      (hmatch : ∀ expected follow, op ≠ .matchToken expected follow) (ht : op.IsTidy env s)
      (hm : op.matched? answer = none) :
      op.matched? answer = none ∧ Settled env (ts ++ [⟨s, op, answer, s'⟩]) s' := by
    obtain ⟨hp, hlast⟩ := inert_of_step hl hplain hleaf hcaught hmatch hs
    have hop : op ≠ .command .appendAll := by
      rintro rfl
      cases hplain
    exact ⟨hm, h.keep hp hlast (isSome_pending_of_step hc hl ht hop hs hlast) hm⟩
  cases op with
  | command c =>
    cases c with
    | newLeaf t element =>
      obtain rfl := newLeaf_of_passed h (hleaf t rfl) (perform_of_step hs)
      exact Or.inl ⟨rfl, h.keep rfl rfl id rfl⟩
    | appendSkipped | appendTrailing | appendAll | report | recover => cases hplain
    | _ => exact Or.inl (hinert rfl rfl (by simp) trivial rfl)
  | matchToken expected follow => exact h.match hc hl hs
  | catchError e =>
    cases e with
    | recognition e =>
      obtain ⟨rfl, rfl⟩ := Prod.mk.inj (Except.ok.inj hs)
      exact Or.inl ⟨rfl, h.resume hc⟩
    | _ => exact Or.inl (hinert rfl rfl (by simp) trivial rfl)
  | _ => exact Or.inl (hinert rfl rfl (by simp) trivial rfl)

end Settled

/-! ## Messages -/

/-- A message is about the current token, which is the first visible one without a leaf or else the
end of the input, after a token that was overlooked. -/
def Aimed (env : Setting σ γ) (ts : List (Transition σ γ)) (tr : Transition σ γ) : Prop :=
  ∀ e ∈ tr.posted? env, e.token = tr.before.currentToken env ∧
    (tr.before.frontier env = tr.before.cursor.position ∨
      tr.before.cursor.position = env.stream.size ∧ ∃ u ∈ ts, u.Overlooks env ∧
        u.before.cursor.position = tr.before.frontier env ∧
        tr.before.frontier env < env.stream.size)

section Aimed

variable {env : Setting σ γ} {s s' s₀ : Session σ γ} {ts us vs : List (Transition σ γ)}
  {op : Operation} {answer : op.Answer} {tr : Transition σ γ}

theorem Aimed.mono (h : Aimed env ts tr) (hs : ts ⊆ us) : Aimed env us tr := by
  intro e he
  obtain ⟨ht, hf⟩ := h e he
  exact ⟨ht, hf.imp_right fun ⟨hp, u, hu, hrest⟩ => ⟨hp, u, hs hu, hrest⟩⟩

/-- The errors of a match are about the current token. -/
theorem token_of_matchError? {expected : TokenKind} {follow : TokenSet} {e : RecognitionError}
    (h : s.matchError? env expected follow = some e) : e.token = s.currentToken env := by
  rw [matchError?] at h
  split at h <;> cases h <;> rfl

/-- An error that is dealt with where it was raised is about the current token. -/
theorem token_of_posted (hplain : op.isPlain)
    (hraised : ∀ e ∈ op.caught?, s.errorHere env e.fault = e)
    (hs : s.step env op = .ok (answer, s')) {e : RecognitionError}
    (he : (⟨s, op, answer, s'⟩ : Transition σ γ).posted? env = some e) :
    e.token = s.currentToken env := by
  rw [Transition.posted?] at he
  split_ifs at he
  cases op with
  | command c =>
    cases c with
    | report | recover => cases hplain
    | _ => cases he
  | matchToken expected follow =>
    rw [Operation.reported?] at he
    split_ifs at he
    exact token_of_matchError? he
  | groupFailure rule group =>
    rw [Operation.reported?] at he
    split_ifs at he
    obtain ⟨_, -, rfl, -⟩ := exists_report_of_groupFailure hs
    exact Option.some.inj he ▸ rfl
  | catchError error =>
    cases error with
    | recognition e' =>
      obtain rfl := Option.some.inj he
      exact congrArg RecognitionError.token (hraised _ rfl).symm
    | _ => cases he
  | _ => cases he

theorem Settled.aimed (h : Settled env ts s) (hplain : op.isPlain)
    (hraised : ∀ e ∈ op.caught?, s.errorHere env e.fault = e)
    (hs : s.step env op = .ok (answer, s')) : Aimed env ts ⟨s, op, answer, s'⟩ := by
  intro e he
  refine ⟨token_of_posted hplain hraised hs he, h.stage.imp_right fun hb => ?_⟩
  have hpending : ¬ s.pending.isSome := by
    intro hp
    rw [Transition.posted?, if_pos hp] at he
    cases he
  obtain ⟨u, hu, ho, hf⟩ := hb.unsaid.resolve_left hpending
  exact ⟨hb.position, u, hu, ho, hf, hb.frontier⟩

/-- The cursor settled, or the leaf of the token that was matched last comes next. -/
def Stage (env : Setting σ γ) (ts : List (Transition σ γ)) (s : Session σ γ) : Prop :=
  Settled env ts s ∨
    ∃ us tr t, ts = us ++ [tr] ∧ tr.matched? = some t ∧ Awaits env us t s

/-- One more operation, which makes the awaited leaf if there is one. -/
theorem Stage.step (hc : env.stream.Contract) (hl : Linked s) (h : Stage env ts s)
    (hplain : op.isPlain) (hraised : ∀ e ∈ op.caught?, s.errorHere env e.fault = e)
    (hleaf : ∀ t ∈ op.leafToken?, t.isSynthetic ∨ ∃ tr ∈ ts, tr.matched? = some t)
    (hnext : ∀ tr ∈ ts.getLast?, ∀ t ∈ tr.matched?, op.leafToken? = some t)
    (hs : s.step env op = .ok (answer, s')) :
    Stage env (ts ++ [⟨s, op, answer, s'⟩]) s' ∧ Aimed env ts ⟨s, op, answer, s'⟩ := by
  rcases h with h | ⟨us, tr, t, rfl, hm, h⟩
  · refine ⟨?_, h.aimed hplain hraised hs⟩
    rcases h.step hc hl hplain hleaf hs with ⟨-, h'⟩ | ⟨t, hm, h'⟩
    · exact Or.inl h'
    · exact Or.inr ⟨ts, _, t, rfl, hm, h'⟩
  · have hnext := hnext tr List.getLast?_concat t hm
    cases op with
    | command c =>
      cases c with
      | newLeaf t' element =>
        obtain rfl : t' = t := Option.some.inj hnext
        refine ⟨Or.inl (h.newLeaf hm (perform_of_step hs)), fun e he => ?_⟩
        rw [Transition.posted?, Option.mem_def] at he
        split_ifs at he
        cases he
      | _ => cases hnext
    | _ => cases hnext

/-- After the operations before a history and the first part of it, the awaited leaf is the first
thing of the second part. -/
theorem LeavesAtOnce.next (h : LeavesAtOnce (us ++ ts))
    (hv : ∀ tr ∈ vs.getLast?, tr.matched? = none) : ∀ tr ∈ (vs ++ us).getLast?,
      ∀ t ∈ tr.matched?, ts.head?.bind (·.op.leafToken?) = some t := by
  intro tr htr t ht
  rcases List.eq_nil_or_concat us with rfl | ⟨us, u, rfl⟩
  · rw [List.append_nil] at htr
    rw [hv tr htr] at ht
    cases ht
  · rw [List.concat_eq_append, ← List.append_assoc, List.getLast?_concat] at htr
    obtain rfl := Option.some.inj htr
    exact h u ts ⟨us, by simp⟩ t ht

/-- A prompt run settles, and its messages are about the token that gets the next leaf. -/
theorem settled_of_reaches (hc : env.stream.Contract) (hl₀ : Linked s₀) (h₀ : Settled env vs s₀)
    (hv : ∀ tr ∈ vs.getLast?, tr.matched? = none) (h : Reaches env s₀ ts s) (hp : Prompt env ts) :
    Settled env (vs ++ ts) s ∧ ∀ tr ∈ ts, Aimed env (vs ++ ts) tr := by
  suffices H : ∀ us s, Reaches env s₀ us s → us <+: ts →
      Linked s ∧ Stage env (vs ++ us) s ∧ ∀ tr ∈ us, Aimed env (vs ++ us) tr by
    obtain ⟨-, hstage, haimed⟩ := H ts s h List.prefix_rfl
    refine ⟨hstage.resolve_right ?_, haimed⟩
    rintro ⟨us, tr, t, heq, hm, -⟩
    have hleaves : LeavesAtOnce (ts ++ []) := by
      rw [List.append_nil]
      exact hp.leaves
    cases hleaves.next hv tr (heq ▸ List.getLast?_concat) t hm
  intro us s h
  induction h with
  | start =>
    intro _
    rw [List.append_nil]
    exact ⟨hl₀, Or.inl h₀, fun tr ht => absurd ht List.not_mem_nil⟩
  | @step us s s' op answer hrun hs ih =>
    intro hus
    obtain ⟨hl, hstage, haimed⟩ := ih ((List.prefix_append us _).trans hus)
    have hmem : (⟨s, op, answer, s'⟩ : Transition σ γ) ∈ ts := hus.subset (by simp)
    have hleaf : ∀ t ∈ op.leafToken?, t.isSynthetic ∨ ∃ tr ∈ vs ++ us, tr.matched? = some t := by
      intro t ht
      refine (hp.matched us _ hus t ht).imp_right ?_
      rintro ⟨u, hu, hum⟩
      exact ⟨u, List.mem_append_right _ hu, hum⟩
    have hnext : ∀ tr ∈ (vs ++ us).getLast?, ∀ t ∈ tr.matched?, op.leafToken? = some t := by
      obtain ⟨rest, rfl⟩ := hus
      rw [List.append_assoc] at hp
      exact hp.leaves.next hv
    obtain ⟨hstage', haimed'⟩ :=
      hstage.step hc hl (hp.plain _ hmem) (hp.raised _ hmem) hleaf hnext hs
    rw [← List.append_assoc]
    refine ⟨(step_change hl hs).linked hl, hstage', fun tr htr => ?_⟩
    have hsub := List.subset_append_left (vs ++ us) [(⟨s, op, answer, s'⟩ : Transition σ γ)]
    rcases List.mem_append.mp htr with htr | htr
    · exact (haimed tr htr).mono hsub
    · rw [List.mem_singleton.mp htr]
      exact haimed'.mono hsub

end Aimed

end ParseTree
