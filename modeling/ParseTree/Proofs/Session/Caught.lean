import ParseTree.Proofs.Session.Nesting
import ParseTree.Proofs.Session.Progress
import ParseTree.Proofs.Session.Sweep
import ParseTree.Proofs.Token.Members

/-!
# Catching the failure of a rule

A rule that fails leaves the cursor somewhere in the input, and the rules around it go on from the
next token that one of them waits for. Catching the failure means to search for this token and to
make leaves for all tokens up to it, the first visible of which takes the message.

## Main definitions

* `Session.GoesOnWith`: some rule in progress can go on with a token of a kind
* `Session.caughtError`: the message that waits once an error is caught
* `Resumed`: what catching a recognition error comes to

## Main results

* `mem_resyncSet`: where a recovery stops
* `Skips.not_mem`: a search passes over no token that it searches for
* `error_catching`, `pending_catching`: the leaf that takes the message
* `resumed_resume`: catching a recognition error in any state of a run
* `catchRule_of_reaches`: what catching the failure of a rule does to each outcome
-/

namespace ParseTree

open Session

variable {σ γ : Type}

/-- Some rule in progress can go on with a token of the kind. -/
def Session.GoesOnWith (s : Session σ γ) (k : TokenKind) : Prop :=
  k ≠ .endOfRule ∧ ∃ set ∈ s.follow, k ∈ set

instance (s : Session σ γ) (k : TokenKind) : Decidable (s.GoesOnWith k) :=
  inferInstanceAs (Decidable (k ≠ .endOfRule ∧ ∃ set ∈ s.follow, k ∈ set))

/-- The message that waits once an error is caught: one that waited before comes first. -/
def Session.caughtError (env : Setting σ γ) (s : Session σ γ) (e : RecognitionError) :
    SyntaxError :=
  s.pending.getD (s.syntaxError env e)

/-- After a history, a recognition error was caught. -/
structure Resumed (env : Setting σ γ) (ts : List (Transition σ γ)) (s : Session σ γ)
    (e : RecognitionError) (s' : Session σ γ) : Prop where
  /-- The cursor is at the end of the input or on a token that some rule in progress can go on
  with. -/
  position : s'.cursor.position = env.stream.size ∨ ∃ t,
    env.stream.token? s'.cursor.position = some t ∧ t.isHidden = false ∧ s.GoesOnWith t.kind
  /-- It passed over no other visible token of this kind, except for the one where it was, and over
  this one only if the recovery before had recorded its position. -/
  skipped : ∀ i t, s.cursor.position ≤ i → i < s'.cursor.position →
    env.stream.token? i = some t → t.isHidden = false → s.GoesOnWith t.kind →
      i = s.cursor.position ∧ ∃ tr, (ts.filter (·.op.recovers)).getLast? = some tr ∧
        tr.after.lastErrorIndex = some i
  /-- Every visible token before the cursor has a leaf, and so have all tokens before it. -/
  hasLeaf : ∀ i t, i < s'.cursor.position → env.stream.token? i = some t → t.isHidden = false →
    ∀ j ≤ i, s'.HasLeaf env j
  /-- The new leaves are those of the next tokens, in order. -/
  tokens : (s'.tree.leavesFrom s.tree.size).map (·.2.toToken) =
    env.stream.slice s.nextToken s'.nextToken
  /-- No other nodes were made. -/
  size : s'.tree.size = s.tree.size + (s'.tree.leavesFrom s.tree.size).length
  /-- The new leaves are the last children of the open composite. -/
  children : ∀ x, s'.tree.children x = s.tree.children x ++
    if x = s.current then (s'.tree.leavesFrom s.tree.size).map (·.1) else []
  /-- The first visible one carries the message that waited, before what the lexer says. -/
  error : ∀ x l, ((s'.tree.leavesFrom s.tree.size).find? fun p => !p.2.isHidden) = some (x, l) →
    (s'.tree.node x).error =
      SyntaxError.join (s.caughtError env e :: (lexerError? env.stream l).toList)
  /-- Without a visible one, the message goes on waiting. -/
  pending : s'.pending =
    if ((s'.tree.leavesFrom s.tree.size).find? fun p => !p.2.isHidden).isSome then none
    else some (s.caughtError env e)
  /-- The open composite is the same. -/
  current : s'.current = s.current
  /-- So are the follow sets. -/
  follow : s'.follow = s.follow

/-! ## The search for a token to go on with -/

/-- A recovery stops at the kinds of the follow sets, but for the end of a rule. -/
theorem mem_resyncSet {follow : List TokenSet} {k : TokenKind} :
    k ∈ resyncSet follow ↔ k ≠ .endOfRule ∧ ∃ set ∈ follow, k ∈ set := by
  have hunion : k ∈ follow.foldr (fun set (found : TokenSet) => found.union set) ∅ ↔
      ∃ set ∈ follow, k ∈ set := by
    induction follow with
    | nil => simp [TokenSet.not_mem_empty]
    | cons set outer ih =>
      rw [List.foldr_cons, TokenSet.mem_union, ih, List.exists_mem_cons_iff, or_comm]
  rw [resyncSet, TokenSet.mem_erase, hunion]

section Search

variable {env : Setting σ γ} {s : Session σ γ} {set : TokenSet} {c c' : Cursor} {i : ℕ} {t : Token}

/-- A search passes over no token that it searches for. -/
theorem Skips.not_mem (h : Skips env set c c') (hle : c.position ≤ i) (hlt : i < c'.position)
    (ht : env.stream.token? i = some t) (hv : t.isHidden = false) : t.kind ∉ set := by
  induction h with
  | stop => exact absurd hlt (Nat.not_lt_of_le hle)
  | @skip c c' hstop hs ih =>
    rcases hle.eq_or_lt with rfl | hlt'
    · intro hmem
      refine hstop (Or.inr ?_)
      rw [Cursor.current_eq, ht]
      exact hmem
    · exact ih (Cursor.position_advance_le hlt' ht hv) hlt

/-- A recovery passes over a token that some rule in progress can go on with only where it is, and
only if the recovery before had recorded this position. -/
theorem Skips.eq_position (h : Skips env (resyncSet s.follow) (s.searchStart env) c')
    (hle : s.cursor.position ≤ i) (hlt : i < c'.position) (ht : env.stream.token? i = some t)
    (hv : t.isHidden = false) (hk : s.GoesOnWith t.kind) :
    i = s.cursor.position ∧ s.lastErrorIndex = some i := by
  have hbefore : i < (s.searchStart env).position := by
    by_contra hn
    exact h.not_mem (Nat.le_of_not_lt hn) hlt ht hv (mem_resyncSet.mpr hk)
  rw [searchStart] at hbefore
  split_ifs at hbefore with hlast
  · have hi : i = s.cursor.position := by
      refine Nat.le_antisymm (Nat.le_of_not_lt fun hlt' => ?_) hle
      exact absurd hbefore (Nat.not_lt_of_le (Cursor.position_advance_le hlt' ht hv))
    exact ⟨hi, hi ▸ hlast⟩
  · exact absurd hbefore (Nat.not_lt_of_le hle)

/-- The cursor comes to rest at the end of the input or on a token that it searched for. -/
theorem Skips.position (hc : env.stream.Contract) (h : Skips env (resyncSet s.follow) c c')
    (hrests : c'.Rests env.stream) : c'.position = env.stream.size ∨ ∃ t,
      env.stream.token? c'.position = some t ∧ t.isHidden = false ∧ s.GoesOnWith t.kind := by
  rcases h.stopsAt with hend | hmem
  · exact Or.inl (Cursor.position_eq_size hc hrests hend)
  · by_cases hsize : c'.position = env.stream.size
    · exact Or.inl hsize
    obtain ⟨t, ht⟩ := TokenStream.exists_token? (Nat.lt_of_le_of_ne hrests.1 hsize)
    rw [Cursor.current_eq, ht] at hmem
    exact Or.inr ⟨t, ht, hrests.2 t ht, mem_resyncSet.mp hmem⟩

end Search

/-! ## The message -/

section Message

variable {env : Setting σ γ} {s : Session σ γ} {e : RecognitionError}

/-- The step that catches a recognition error. -/
def catching (env : Setting σ γ) (s : Session σ γ) (e : RecognitionError) : Transition σ γ :=
  ⟨s, .catchError (.recognition e), (.ok () : Except ParseError Unit), s.resume env e⟩

theorem delivers_catching (hl : Linked s) : (catching env s e).Delivers env :=
  delivers_of_step hl rfl

/-- Once an error is caught, its message is in the slot, unless another was there before. -/
theorem slot_catching (env : Setting σ γ) (s : Session σ γ) (e : RecognitionError) :
    (catching env s e).slot env = some (s.caughtError env e) := by
  rw [slot_eq, caughtError]
  show s.pending.or (some (s.syntaxError env e)) = _
  cases s.pending <;> rfl

/-- The new leaves get all messages that are given to nodes. -/
theorem deliveries_catching (env : Setting σ γ) (s : Session σ γ) (e : RecognitionError) :
    (catching env s e).deliveries env =
      leavesDeliveries env.stream (some (s.caughtError env e)) (catching env s e).newLeaves := by
  have hrefusal : (catching env s e).refusal? env = none := rfl
  have hsweep : (catching env s e).sweep? env = none := sweep?_eq_none (by simp)
  rw [Transition.deliveries, slot_catching, hrefusal, hsweep, Option.toList_none, List.append_nil,
    List.append_nil]

/-- The first visible new leaf takes the message. -/
theorem error_catching (hl : Linked s) {x : NodeId} {l : Leaf}
    (hx : ((catching env s e).newLeaves.find? fun p => !p.2.isHidden) = some (x, l)) :
    ((catching env s e).after.tree.node x).error =
      SyntaxError.join (s.caughtError env e :: (lexerError? env.stream l).toList) := by
  have hfresh : ((catching env s e).before.tree.node x).error = none := by
    obtain ⟨hle, -, -⟩ := mem_leavesFrom.mp (List.mem_of_find?_eq_some hx)
    rw [Tree.node_of_not_contains (Nat.not_lt_of_le hle)]
    rfl
  have hpairwise : (catching env s e).newLeaves.Pairwise fun p q => p.1 ≠ q.1 :=
    pairwise_leavesFrom ..
  rw [(delivers_catching hl).error, hfresh, deliveries_catching,
    given_leavesDeliveries_of_find? hpairwise hx]
  exact SyntaxError.foldl_mergeInto_join [] _

/-- Without a visible new leaf, the message goes on waiting. -/
theorem pending_catching (hl : Linked s) : (catching env s e).after.pending =
    if ((catching env s e).newLeaves.find? fun p => !p.2.isHidden).isSome then none
    else some (s.caughtError env e) := by
  rw [(delivers_catching hl).pending, if_neg (by simp [catching]), Transition.rest, slot_catching,
    foldl_left]

end Message

/-! ## Catching errors -/

section Reaches

variable {env : Setting σ γ} {s : Session σ γ} {ts : List (Transition σ γ)} {factory : σ}
  {groups : γ} {e : RecognitionError} {t : Token} {i j : ℕ}

/-- All visible tokens before the cursor have been passed by the leaves. -/
theorem lt_nextToken_resume (hc : env.stream.Contract)
    (hb : (s.resume env e).cursor.position ≤ env.stream.size)
    (hlt : i < (s.resume env e).cursor.position) (ht : env.stream.token? i = some t)
    (hv : t.isHidden = false) : i < (s.resume env e).nextToken := by
  obtain ⟨last, hlast, hle⟩ := Cursor.exists_previous hc hb hlt ht hv
  exact hle.trans_lt (isTidy_appendTrailing env (s.recover env e) last hlast)

theorem hasLeaf_resume (hc : env.stream.Contract)
    (h : Reaches env (start env factory groups) ts s) (hf : FromSession ts)
    (ha : Avoids (.command .appendTrailing) ts) (hj : j < (s.resume env e).nextToken) :
    (s.resume env e).HasLeaf env j := by
  have hs : s.step env (.catchError (.recognition e)) = .ok (.ok (), s.resume env e) := rfl
  have hnone : ∀ tr ∈ ts ++ [catching env s e], ¬ tr.Overleaps env :=
    List.forall_mem_append.mpr ⟨fun tr htr hover => ha tr htr hover.1,
      List.forall_mem_singleton.mpr fun hover => nomatch hover.1⟩
  exact (hasLeaf_iff_lt_of_reaches hc (h.step hs) (hf.concat rfl) hnone j).mpr hj

/-- Catching a recognition error in any state of a run. -/
theorem resumed_resume (hc : env.stream.Contract)
    (h : Reaches env (start env factory groups) ts s) (hf : FromSession ts)
    (ha : Avoids (.command .appendTrailing) ts) (e : RecognitionError) :
    Resumed env ts s e (s.resume env e) := by
  have hl := (sound_of_reaches h).toLinked
  have hstart := Cursor.rests_start env.stream
  have hrests := rests_of_reaches hstart h
  have hs : s.step env (.catchError (.recognition e)) = .ok (.ok (), s.resume env e) := rfl
  have hrests' : (s.resume env e).cursor.Rests env.stream := rests_of_step hrests hs
  obtain ⟨-, hskips⟩ := (advances_of_step hrests.1 hs).search rfl
  obtain ⟨us, hg, ho⟩ : ∃ us, Growth env s us (s.resume env e) ∧
      (env.stream.Contract → InOrder env.stream s (s.resume env e) us) :=
    growth_catchError env s (.recognition e)
  refine
    { position := hskips.position hc hrests'
      skipped := ?_
      hasLeaf := fun i t hlt ht hv j hj => hasLeaf_resume hc h hf ha
        (hj.trans_lt (lt_nextToken_resume hc hrests'.1 hlt ht hv))
      tokens := hg.leavesFrom.trans (ho hc).tokens
      size := by rw [hg.size, ← hg.leavesFrom, List.length_map]
      children := hg.children hl
      error := fun _ _ => error_catching hl
      pending := pending_catching hl
      current := hg.current
      follow := ((leafClosed_still env).appendSkipped (s.recover env e)).follow.trans
        (follow_recover ..) }
  intro i t hle hlt ht hv hk
  obtain ⟨hi, hlast⟩ := hskips.eq_position hle hlt ht hv hk
  rw [lastErrorIndex_of_reaches hstart.1 rfl h] at hlast
  exact ⟨hi, Option.bind_eq_some_iff.mp hlast⟩

/-- Catching the failure of a rule recovers from a recognition error, without a result. A value and
any other failure are passed on, with the session as it was. -/
theorem catchRule_of_reaches {α : Type} (hc : env.stream.Contract)
    (h : Reaches env (start env factory groups) ts s) (hf : FromSession ts)
    (ha : Avoids (.command .appendTrailing) ts) (outcome : Except ParseError α) :
    match outcome with
    | .ok value => (Procedure.catchRule outcome).run env s = .ok (.ok (some value), s)
    | .error (.recognition e) =>
      ∃ s', (Procedure.catchRule outcome).run env s = .ok (.ok none, s') ∧ Resumed env ts s e s'
    | .error e => (Procedure.catchRule outcome).run env s = .ok (.error e, s) := by
  cases outcome with
  | ok value => rfl
  | error e =>
    cases e with
    | recognition e => exact ⟨_, rfl, resumed_resume hc h hf ha e⟩
    | _ => rfl

end Reaches

namespace Sample

/-- Recovers where the first word is among the tokens to go on with. -/
def faltering : Procedure Unit :=
  .call (.command (.pushFollow (.ofList [⟨5⟩]))) fun _ => recoveries 1

/-- The failure to find an alternative at the first word. -/
def failure : RecognitionError :=
  ⟨.noAlternative 0, stream.atEnd, 0⟩

end Sample

open Sample in
/-- After a recovery at the first word of the sample, catching an error there passes over the word,
and over the rest of the input. -/
theorem catchRule_of_faltering : ∃ s s', faltering.run setting session = .ok ((), s) ∧
    (Procedure.catchRule (.error (.recognition failure) : Except ParseError Unit)).run setting s =
      .ok (.ok none, s') ∧
    Resumed setting (faltering.history setting session) s failure s' ∧
    s.cursor.position = 0 ∧ s.GoesOnWith ⟨5⟩ ∧ s'.cursor.position = 3 := by
  have hc : setting.stream.Contract := by decide +kernel
  have hf : FromSession (faltering.history setting session) := by decide +kernel
  have ha : Avoids (.command .appendTrailing) (faltering.history setting session) := by
    decide +kernel
  obtain ⟨s, hr⟩ : ∃ s, faltering.run setting session = .ok ((), s) := ⟨_, rfl⟩
  obtain ⟨s', hcaught, hresumed⟩ :=
    catchRule_of_reaches hc (Procedure.reaches_history hr) hf ha
      (.error (.recognition failure) : Except ParseError Unit)
  refine ⟨s, s', hr, hcaught, hresumed, ?_⟩
  obtain rfl := (Prod.mk.inj (Except.ok.inj hr)).2
  obtain rfl := (Prod.mk.inj (Except.ok.inj hcaught)).2
  decide +kernel

end ParseTree
