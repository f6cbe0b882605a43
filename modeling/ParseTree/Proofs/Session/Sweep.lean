import ParseTree.Proofs.Session.Frontier

/-!
# Sweeping trailing tokens

Leaves are made in the order of the stream, so the tokens with a leaf come first. A sweep of the
trailing tokens is different: it starts after the last visible token before the cursor, whether that
token has its leaf or not. If it has none, the sweep leaps over it, and since no operation goes
back, the tokens that were overleaped never get a leaf.

## Main definitions

* `Session.HasLeaf`: the token at a position has a leaf
* `Transition.Overleaps`: a sweep that leaps over tokens without a leaf
* `Swept`: which tokens have a leaf after a history

## Main results

* `hasLeaf_step`: an operation makes the leaves of its new tokens
* `swept_of_reaches`: what a history of any operations comes to
* `hasLeaf_iff_lt_of_reaches`: if nothing was overleaped, the tokens with a leaf are the first ones
* `initial_iff_of_reaches`: and only then
-/

namespace ParseTree

open Session

variable {σ γ : Type}

/-- The token at a position of the stream has a leaf in the tree. -/
def Session.HasLeaf (env : Setting σ γ) (s : Session σ γ) (i : ℕ) : Prop :=
  ∃ x p l, s.tree.parent? x = some p ∧ (s.tree.node x).leaf? = some l ∧
    env.stream.token? i = some l.toToken

/-- The tokens of all leaves, in the order in which the leaves were made. -/
def Session.leafTokens (s : Session σ γ) : List Token :=
  (s.tree.leavesFrom 0).map (·.2.toToken)

/-- The operation sweeps tokens from after a visible token that has no leaf. -/
def Operation.Overleaps (env : Setting σ γ) (s : Session σ γ) (op : Operation) : Prop :=
  op = .command .appendTrailing ∧ ∃ last,
    (s.cursor.previous? env.stream).bind (·.index) = some last ∧
      s.nextToken ≤ last ∧ last + 1 < env.stream.size

instance (env : Setting σ γ) (s : Session σ γ) (op : Operation) : Decidable (op.Overleaps env s) :=
  decidable_of_iff (op = .command .appendTrailing ∧
    ∃ last ∈ (s.cursor.previous? env.stream).bind (·.index),
      s.nextToken ≤ last ∧ last + 1 < env.stream.size) Iff.rfl

/-- The operation swept tokens from after a visible token that had no leaf. -/
def Transition.Overleaps (env : Setting σ γ) (tr : Transition σ γ) : Prop :=
  tr.op.Overleaps env tr.before

instance (env : Setting σ γ) (tr : Transition σ γ) : Decidable (tr.Overleaps env) :=
  inferInstanceAs (Decidable (tr.op.Overleaps env tr.before))

section HasLeaf

variable {env : Setting σ γ} {s s' : Session σ γ} {ts : List (Transition σ γ)} {factory : σ}
  {groups : γ} {op : Operation} {answer : op.Answer} {i a b : ℕ} {t : Token}

/-- All leaves are in the tree. -/
theorem hasLeaf_iff (h : Reaches env (start env factory groups) ts s) :
    s.HasLeaf env i ↔ ∃ t ∈ s.leafTokens, env.stream.token? i = some t := by
  constructor
  · rintro ⟨x, p, l, hp, hl, ht⟩
    have hx : s.tree.Contains x := Tree.contains_of_parent? hp
    exact ⟨l.toToken,
      List.mem_map.mpr ⟨(x, l), mem_leavesFrom.mpr ⟨Nat.zero_le _, hx, hl⟩, rfl⟩, ht⟩
  · rintro ⟨t, htokens, ht⟩
    obtain ⟨⟨x, l⟩, hmem, rfl⟩ := List.mem_map.mp htokens
    obtain ⟨-, hx, hl⟩ := mem_leavesFrom.mp hmem
    have hremains : ¬ Absorbed env ts x := by
      intro ha
      rw [leaf?_of_absorbed h ha] at hl
      cases hl
    cases hp : s.tree.parent? x with
    | some p => exact ⟨x, p, l, hp, hl, ht⟩
    | none =>
      have hcomposite := (sound_of_reaches h).isComposite_of_parent?_eq_none hx hremains hp
      rw [hcomposite.leaf?] at hl
      cases hl

/-- The tokens that get a leaf come after those that had one before. -/
theorem leafTokens_step (hl : Linked s) (hs : s.step env op = .ok (answer, s')) :
    s'.leafTokens = s.leafTokens ++
      (⟨s, op, answer, s'⟩ : Transition σ γ).newLeaves.map (·.2.toToken) := by
  have hd := delivers_of_step hl hs
  rw [leafTokens, leavesFrom_append (Nat.zero_le _) hd.size hd.leaf?, List.map_append]
  rfl

/-- An operation that makes the leaves of a part of the stream adds this part to the tokens with a
leaf. -/
theorem hasLeaf_step (hc : env.stream.Contract)
    (h : Reaches env (start env factory groups) ts s) (hs : s.step env op = .ok (answer, s'))
    (hnew : (⟨s, op, answer, s'⟩ : Transition σ γ).newLeaves.map (·.2.toToken) =
      env.stream.slice a b) (hb : b ≤ env.stream.size) :
    s'.HasLeaf env i ↔ s.HasLeaf env i ∨ (a ≤ i ∧ i < b) := by
  rw [hasLeaf_iff (h.step hs), hasLeaf_iff h, leafTokens_step (sound_of_reaches h).toLinked hs,
    hnew]
  simp only [List.mem_append, or_and_right, exists_or, TokenStream.mem_slice]
  refine or_congr_right ⟨?_, ?_⟩
  · rintro ⟨t, ⟨j, ha, hj, htj⟩, hti⟩
    obtain rfl : i = j :=
      Option.some.inj ((hc.index i t hti).symm.trans (hc.index j t htj))
    exact ⟨ha, hj⟩
  · rintro ⟨ha, hi⟩
    obtain ⟨t, ht⟩ := TokenStream.exists_token? (Nat.lt_of_lt_of_le hi hb)
    exact ⟨t, ⟨i, ha, hi, ht⟩, ht⟩

end HasLeaf

/-! ### What one operation sweeps -/

section Step

variable {env : Setting σ γ} {s s' : Session σ γ} {op : Operation} {answer : op.Answer} {start : ℕ}

/-- A sweep makes the leaves of all tokens from where it starts. -/
theorem growth_appendRest_of_lt (hc : env.stream.Contract) (h : start < env.stream.size) :
    Growth env s (env.stream.slice start env.stream.size) (s.appendRest env start) ∧
      (s.appendRest env start).nextToken = env.stream.size := by
  rw [appendRest, if_pos h]
  obtain ⟨ts, hg, hts⟩ := growth_appendRange env s start env.stream.size
  rw [hts hc (Nat.le_of_lt h) le_rfl] at hg
  refine ⟨hg.rest (similar_lastToken ..), ?_⟩
  show env.stream.size - 1 + 1 = env.stream.size
  omega

/-- A sweep that leaps over tokens makes the leaves of all tokens after them. -/
theorem newLeaves_of_overleaps (hc : env.stream.Contract)
    (hs : s.step env op = .ok (answer, s')) (ho : op.Overleaps env s) :
    ∃ last, s.nextToken ≤ last ∧ last + 1 < env.stream.size ∧ s'.nextToken = env.stream.size ∧
      (⟨s, op, answer, s'⟩ : Transition σ γ).newLeaves.map (·.2.toToken) =
        env.stream.slice (last + 1) env.stream.size := by
  obtain ⟨rfl, last, hlast, hle, hlt⟩ := ho
  obtain ⟨-, rfl⟩ := Prod.mk.inj (Except.ok.inj hs)
  have hsweep : s.appendTrailing env = s.appendRest env (last + 1) := by
    rw [appendTrailing, hlast]
    dsimp only
    rw [Nat.max_eq_right (Nat.le_succ_of_le hle)]
  obtain ⟨hg, hnext⟩ := growth_appendRest_of_lt (s := s) hc hlt
  refine ⟨last, hle, hlt, hsweep ▸ hnext, ?_⟩
  rw [Transition.newLeaves, hsweep]
  exact hg.leavesFrom

/-- Any other operation makes the leaves of the next tokens. -/
theorem inOrder_of_not_overleaps (hl : Linked s) (hc : env.stream.Contract)
    (ht : op ≠ .command .appendTrailing → op.IsTidy env s)
    (hs : s.step env op = .ok (answer, s')) (ho : ¬ op.Overleaps env s) :
    InOrder env.stream s s'
      ((⟨s, op, answer, s'⟩ : Transition σ γ).newLeaves.map (·.2.toToken)) := by
  by_cases hop : op = .command .appendTrailing
  · by_cases htidy : op.IsTidy env s
    · exact slice_newLeaves hl hc htidy hs
    · subst hop
      obtain ⟨-, rfl⟩ := Prod.mk.inj (Except.ok.inj hs)
      have hnone : s.appendTrailing env = s := by
        rw [appendTrailing]
        cases hlast : (s.cursor.previous? env.stream).bind (·.index) with
        | none => rfl
        | some last =>
          dsimp only
          rw [appendRest, if_neg]
          intro hlt
          refine htidy fun last' hlast' => ?_
          obtain rfl := Option.some.inj (hlast.symm.trans hlast')
          by_contra hle
          exact ho ⟨rfl, last, hlast, Nat.le_of_not_lt hle,
            Nat.lt_of_le_of_lt (Nat.le_max_right ..) hlt⟩
      rw [Transition.newLeaves, hnone, leavesFrom_size]
      exact inOrder_of_lastToken rfl
  · exact slice_newLeaves hl hc (ht hop) hs

end Step

/-! ### What a history sweeps -/

section Reaches

variable {env : Setting σ γ} {s s' : Session σ γ} {ts : List (Transition σ γ)} {factory : σ}
  {groups : γ} {op : Operation} {answer : op.Answer}

/-- Which tokens have a leaf after a history. -/
inductive Swept (env : Setting σ γ) (ts : List (Transition σ γ)) (s : Session σ γ) : Prop where
  /-- Nothing was overleaped, and the first tokens have their leaves. -/
  | initial (none : ∀ tr ∈ ts, ¬ tr.Overleaps env) (le : s.nextToken ≤ env.stream.size)
    (hasLeaf : ∀ i, s.HasLeaf env i ↔ i < s.nextToken)
  /-- A sweep leaped over tokens, and those after them have leaves up to the last one. -/
  | overleaped (some : ∃ tr ∈ ts, tr.Overleaps env) (next : s.nextToken = env.stream.size)
    (first last : ℕ) (before : ∀ tr ∈ ts, tr.Overleaps env → tr.before.nextToken = first)
    (le : first ≤ last) (lt : last + 1 < env.stream.size)
    (hasLeaf : ∀ i, s.HasLeaf env i ↔ i < first ∨ last < i ∧ i < env.stream.size)

theorem swept_start (env : Setting σ γ) (factory : σ) (groups : γ) :
    Swept env [] (start env factory groups) := by
  refine .initial (fun tr htr => absurd htr List.not_mem_nil) (Nat.zero_le _) fun i => ?_
  refine iff_of_false ?_ (Nat.not_lt_zero i)
  rintro ⟨x, p, l, hp, -, -⟩
  exact absurd (hp.symm.trans (Tree.isolated_empty x).parent) (by simp)

/-- A sweep that leaps over tokens is the last operation that makes leaves. -/
theorem Swept.step (h : Swept env ts s) (hc : env.stream.Contract)
    (hrun : Reaches env (start env factory groups) ts s) (hs : s.step env op = .ok (answer, s'))
    (ht : op ≠ .command .appendTrailing → op.IsTidy env s) :
    Swept env (ts ++ [⟨s, op, answer, s'⟩]) s' := by
  have hl := (sound_of_reaches hrun).toLinked
  have hmem : (⟨s, op, answer, s'⟩ : Transition σ γ) ∈ ts ++ [⟨s, op, answer, s'⟩] :=
    List.mem_append_right _ (List.mem_singleton_self _)
  cases h with
  | initial hnone hle hleaf =>
    by_cases ho : op.Overleaps env s
    · obtain ⟨last, hfirst, hlt, hnext, hnew⟩ := newLeaves_of_overleaps hc hs ho
      have hbefore : ∀ tr ∈ ts ++ [⟨s, op, answer, s'⟩], tr.Overleaps env →
          tr.before.nextToken = s.nextToken :=
        List.forall_mem_append.mpr ⟨fun tr htr hover => absurd hover (hnone tr htr),
          List.forall_mem_singleton.mpr fun _ => rfl⟩
      refine .overleaped ⟨_, hmem, ho⟩ hnext s.nextToken last hbefore hfirst hlt fun i => ?_
      rw [hasLeaf_step hc hrun hs hnew le_rfl, hleaf i, Nat.succ_le_iff]
    · have hin := inOrder_of_not_overleaps hl hc ht hs ho
      have hnone' : ∀ tr ∈ ts ++ [⟨s, op, answer, s'⟩], ¬ tr.Overleaps env :=
        List.forall_mem_append.mpr ⟨hnone, List.forall_mem_singleton.mpr ho⟩
      refine .initial hnone' (hin.bound hle) fun i => ?_
      rw [hasLeaf_step hc hrun hs hin.tokens (hin.bound hle), hleaf i]
      have := hin.le
      omega
  | overleaped hsome hnext first last hbefore hfirst hlt hleaf =>
    obtain ⟨tr, htr, hover⟩ := hsome
    have ho : ¬ op.Overleaps env s := by
      rintro ⟨-, l, -, hle, hl⟩
      omega
    have hin := inOrder_of_not_overleaps hl hc ht hs ho
    have hnext' : s'.nextToken = env.stream.size :=
      Nat.le_antisymm (hin.bound hnext.le) (hnext ▸ hin.le)
    have hbefore' : ∀ tr ∈ ts ++ [⟨s, op, answer, s'⟩], tr.Overleaps env →
        tr.before.nextToken = first :=
      List.forall_mem_append.mpr ⟨hbefore,
        List.forall_mem_singleton.mpr fun hover => absurd hover ho⟩
    refine .overleaped ⟨tr, List.mem_append_left _ htr, hover⟩ hnext' first last hbefore' hfirst hlt
      fun i => ?_
    rw [hasLeaf_step hc hrun hs hin.tokens hnext'.le, hleaf i, hnext, hnext']
    omega

theorem swept_of_reaches (hc : env.stream.Contract)
    (h : Reaches env (start env factory groups) ts s) (hf : FromSession ts) : Swept env ts s := by
  induction h with
  | start => exact swept_start env factory groups
  | @step ts s s' op answer hrun hs ih =>
    have hmem : (⟨s, op, answer, s'⟩ : Transition σ γ) ∈ ts ++ [⟨s, op, answer, s'⟩] :=
      List.mem_append_right _ (List.mem_singleton_self _)
    exact (ih (hf.of_prefix (List.prefix_append ..))).step hc hrun hs
      fun hop => isTidy_of_ne hc (hrun.step hs) hf hop hmem

/-- If no sweep leaped over a token, the tokens with a leaf are those before the next one. -/
theorem hasLeaf_iff_lt_of_reaches (hc : env.stream.Contract)
    (h : Reaches env (start env factory groups) ts s) (hf : FromSession ts)
    (ho : ∀ tr ∈ ts, ¬ tr.Overleaps env) (i : ℕ) : s.HasLeaf env i ↔ i < s.nextToken := by
  cases swept_of_reaches hc h hf with
  | initial _ _ hleaf => exact hleaf i
  | overleaped hsome =>
    obtain ⟨tr, htr, hover⟩ := hsome
    exact absurd hover (ho tr htr)

/-- Where a sweep leaped over a token, this token has no leaf, while the one after the last that was
overleaped has one. -/
theorem Swept.not_initial {tr : Transition σ γ} (h : Swept env ts s) (htr : tr ∈ ts)
    (ho : tr.Overleaps env) : ¬ ∃ k, ∀ i, s.HasLeaf env i ↔ i < k := by
  cases h with
  | initial hnone => exact absurd ho (hnone tr htr)
  | overleaped _ _ first last _ hle hlt hleaf =>
    rintro ⟨k, hk⟩
    have hfirst := (hleaf first).symm.trans (hk first)
    have hlast := (hleaf (last + 1)).symm.trans (hk (last + 1))
    omega

/-- The tokens with a leaf are the first ones of the stream as long as no sweep leaps over a token
that has none. A token that was overleaped never gets a leaf. -/
theorem initial_iff_of_reaches (hc : env.stream.Contract)
    (h : Reaches env (start env factory groups) ts s) (hf : FromSession ts) :
    ((∃ k, ∀ i, s.HasLeaf env i ↔ i < k) ↔ ∀ tr ∈ ts, ¬ tr.Overleaps env) ∧
      ∀ tr ∈ ts, tr.Overleaps env →
        tr.before.nextToken < env.stream.size ∧ ¬ s.HasLeaf env tr.before.nextToken := by
  have hswept := swept_of_reaches hc h hf
  refine ⟨⟨fun hk tr htr ho => hswept.not_initial htr ho hk, fun ho => ?_⟩, ?_⟩
  · exact ⟨s.nextToken, hasLeaf_iff_lt_of_reaches hc h hf ho⟩
  · intro tr htr ho
    cases hswept with
    | initial hnone => exact absurd ho (hnone tr htr)
    | overleaped _ _ first last hbefore hle hlt hleaf =>
      rw [hbefore tr htr ho, hleaf first]
      omega

end Reaches

namespace Sample

/-- Makes the leaf of the first word and sweeps the rest. -/
def sweeping : RuleProcedure :=
  word ⟨5⟩ ⟨2⟩ <| .call (.command .appendTrailing) fun _ => .pure (.ok none)

/-- Matches the first word and sweeps the rest before its leaf is made. -/
def overleaping : RuleProcedure :=
  .call (.matchToken ⟨5⟩ ∅) fun _ => .call (.command .appendTrailing) fun _ => .pure (.ok none)

end Sample

open Sample in
/-- The sweep of the sample leaps over nothing once the first word has its leaf. -/
theorem initial_iff_of_sweeping : ∃ s, sweeping.run setting session = .ok (.ok none, s) ∧
    ∃ k, ∀ i, s.HasLeaf setting i ↔ i < k := by
  have hc : setting.stream.Contract := by decide +kernel
  have hf : FromSession (sweeping.history setting session) := by decide +kernel
  have ho : ∀ tr ∈ sweeping.history setting session, ¬ tr.Overleaps setting := by decide +kernel
  have hok : (sweeping.run setting session).toOption.map (·.1) = some (.ok none) := by
    decide +kernel
  cases hr : sweeping.run setting session with
  | error fault =>
    rw [hr] at hok
    cases hok
  | ok r =>
    rw [hr] at hok
    obtain ⟨answer, s⟩ := r
    obtain rfl : answer = .ok none := Option.some.inj hok
    have hrun := Procedure.reaches_history hr
    exact ⟨s, rfl, (initial_iff_of_reaches hc hrun hf).1.mpr ho⟩

open Sample in
/-- Where the rest is swept before the first word has its leaf, the tokens with a leaf are not the
first ones. -/
theorem not_initial_of_overleaping : setting.stream.Contract ∧
    FromSession (overleaping.history setting session) ∧
    ∃ s, Reaches setting session (overleaping.history setting session) s ∧
      ¬ ∃ k, ∀ i, s.HasLeaf setting i ↔ i < k := by
  have hc : setting.stream.Contract := by decide +kernel
  have hf : FromSession (overleaping.history setting session) := by decide +kernel
  have ho : ∃ tr ∈ overleaping.history setting session, tr.Overleaps setting := by decide +kernel
  obtain ⟨s, hr⟩ : ∃ s, overleaping.run setting session = .ok (.ok none, s) := ⟨_, rfl⟩
  have hrun := Procedure.reaches_history hr
  obtain ⟨tr, htr, hover⟩ := ho
  exact ⟨hc, hf, s, hrun, (swept_of_reaches hc hrun hf).not_initial htr hover⟩

end ParseTree
