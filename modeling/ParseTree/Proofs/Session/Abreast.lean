import ParseTree.Proofs.Session.Counterpart
import ParseTree.Proofs.Session.Recorded

/-!
# Recognition in two streams

Two sessions that read streams with the same visible tokens are abreast if they are at the same
place and expect the same. Recognition looks at nothing else, so it goes on in the same way, and
both sessions are abreast afterwards.

## Main definitions

* `Session.bearings`: what recognition looks at
* `Abreast`: the bearings are the same, up to places

## Main results

* `Abreast.matchToken`, `Abreast.recover`: recognition keeps sessions abreast
* `rank_newLeaf`, `rank_appendSkipped`, `rank_appendTrailing`, `rank_appendAll`: leaves are made up
  to the same visible token
-/

namespace ParseTree

open Session TokenStream

variable {σ γ : Type}

/-- The place of a session and its expectations. -/
structure Bearings (σ γ : Type) where
  /-- The position in the stream and the recorded lookahead. -/
  cursor : Cursor
  /-- The follow sets of the rules that are being recognized. -/
  follow : List TokenSet
  /-- An error was reported since the last successful match. -/
  isRecovering : Bool
  /-- Where the last recovery started. -/
  lastErrorIndex : Option ℕ
  /-- The state of the semantic factory. -/
  factory : σ
  /-- The state of the group helper. -/
  groups : γ

/-- What recognition looks at. -/
def Session.bearings (s : Session σ γ) : Bearings σ γ :=
  ⟨s.cursor, s.follow, s.isRecovering, s.lastErrorIndex, s.factory, s.groups⟩

/-- The bearings are the same, up to places. -/
structure Abreast (ts ts' : TokenStream) (b b' : Bearings σ γ) : Prop where
  /-- The cursors are at the same place. -/
  cursor : Cursor.Counterpart ts ts' b.cursor b'.cursor
  /-- The same may follow. -/
  follow : b.follow = b'.follow
  /-- An error was reported in both or in none. -/
  isRecovering : b.isRecovering = b'.isRecovering
  /-- The last recoveries started at the same place. -/
  lastErrorIndex : Option.Rel (ts.SamePlace ts') b.lastErrorIndex b'.lastErrorIndex
  /-- The factories are in the same state. -/
  factory : b.factory = b'.factory
  /-- So are the group helpers. -/
  groups : b.groups = b'.groups

/-! ## What changes the bearings -/

section Bearings

variable {env : Setting σ γ} {s s' : Session σ γ}

theorem leafClosed_bearings (env : Setting σ γ) :
    LeafClosed env fun s s' => s'.bearings = s.bearings :=
  ⟨fun _ => rfl, fun h h' => h'.trans h, fun _ _ _ _ _ => rfl, fun _ _ _ => rfl⟩

theorem bearings_report (env : Setting σ γ) (s : Session σ γ) (e : RecognitionError) :
    (s.report env e).bearings = { s.bearings with isRecovering := true } := by
  rw [Session.report]
  split_ifs with h
  · rw [Session.bearings, h]
  · rfl

theorem bearings_recover (env : Setting σ γ) (s : Session σ γ) (e : RecognitionError) :
    (s.recover env e).bearings = { s.bearings with
      cursor := (s.recover env e).cursor
      lastErrorIndex := some (s.searchStart env).position } := by
  rw [← (skips_recover env s e).1, Session.recover]
  split_ifs <;> rfl

theorem bearings_afterRuleCall (env : Setting σ γ) (s : Session σ γ) :
    (s.afterRuleCall env).bearings = s.bearings := by
  cases hp : s.tree.parent? s.current with
  | none => rw [afterRuleCall_of_parent?_eq_none hp]
  | some p =>
    rw [afterRuleCall_eq hp]
    cases s.absorbed? env <;> rfl

theorem bearings_associate (s : Session σ γ) (node : NodeId) (element : SemanticId) :
    (s.associate node element).2.bearings = s.bearings := by
  rw [associate]
  split <;> rfl

theorem bearings_appendAll (env : Setting σ γ) (s : Session σ γ) :
    (s.appendAll env).bearings = { s.bearings with cursor := s.cursor.finish env.stream } := by
  have hrest := (leafClosed_bearings env).appendRest s s.nextToken
  obtain ⟨_, _, h⟩ := exists_appendAll env s
  rw [h]
  show { (s.appendRest env s.nextToken).bearings with
    cursor := (s.appendRest env s.nextToken).bearings.cursor.finish env.stream } = _
  rw [hrest]
  rfl

end Bearings

/-! ## Recognition -/

section Recognition

variable {ts : TokenStream} {env : Setting σ γ} {s u : Session σ γ} {t t' : Token}
  {c c' c₁ c₁' : Cursor} {set : TokenSet}

theorem stopsAt_iff (h : env.stream.Agrees ts) (hc : Cursor.Counterpart env.stream ts c c') :
    StopsAt env set c ↔ StopsAt (env.reading ts) set c' := by
  have hkind : (c.current env.stream).kind = (c'.current (env.reading ts).stream).kind :=
    (hc.peek h 1).kind h
  rw [StopsAt, StopsAt, hkind]

/-- Searches from the same place end at the same place. -/
theorem Skips.counterpart (h : env.stream.Agrees ts) (hs : Skips env set c c₁)
    (hs' : Skips (env.reading ts) set c' c₁') (hc : Cursor.Counterpart env.stream ts c c') :
    Cursor.Counterpart env.stream ts c₁ c₁' := by
  induction hs generalizing c' with
  | stop hstop =>
    cases hs' with
    | stop _ => exact hc
    | skip hstop' _ => exact absurd ((stopsAt_iff h hc).mp hstop) hstop'
  | skip hstop _ ih =>
    cases hs' with
    | stop hstop' => exact absurd ((stopsAt_iff h hc).mpr hstop') hstop
    | skip _ hs' => exact ih hs' (hc.advance h)

variable (h : env.stream.Agrees ts) (ha : Abreast env.stream ts s.bearings u.bearings)

include h ha

theorem Abreast.currentToken :
    Token.Counterpart env.stream ts (s.currentToken env) (u.currentToken (env.reading ts)) :=
  ha.cursor.peek h 1

theorem Abreast.errorHere {fault fault' : RecognitionFault}
    (hf : RecognitionFault.Counterpart env.stream ts fault fault') :
    RecognitionError.Counterpart env.stream ts (s.errorHere env fault)
      (u.errorHere (env.reading ts) fault') :=
  ⟨hf, ha.currentToken h, ha.cursor.place⟩

theorem Abreast.mayFollow (follow : TokenSet) :
    s.mayFollow env follow = u.mayFollow (env.reading ts) follow := by
  have hfollow : s.follow = u.follow := ha.follow
  rw [Session.mayFollow, Session.mayFollow, (ha.currentToken h).kind h, hfollow]

theorem Abreast.matchRepair? (expected : TokenKind) (follow : TokenSet) :
    s.matchRepair? env expected follow = u.matchRepair? (env.reading ts) expected follow := by
  have hnext : (s.cursor.peek env.stream 2).kind = (u.cursor.peek (env.reading ts).stream 2).kind :=
    (ha.cursor.peek h 2).kind h
  rw [Session.matchRepair?, Session.matchRepair?, (ha.currentToken h).kind h, hnext,
    ha.mayFollow h]

omit h in
theorem Abreast.report (e e' : RecognitionError) :
    Abreast env.stream ts (s.report env e).bearings (u.report (env.reading ts) e').bearings := by
  rw [bearings_report, bearings_report]
  exact { ha with isRecovering := rfl }

omit h in
theorem Abreast.withCursor (hc : Cursor.Counterpart env.stream ts c c') :
    Abreast env.stream ts { s.bearings with cursor := c } { u.bearings with cursor := c' } :=
  { ha with cursor := hc }

theorem Abreast.matchCurrent (ht : Token.Counterpart env.stream ts t t') (expected : TokenKind)
    (follow : TokenSet) :
    Outcomes (RecognitionError.Counterpart env.stream ts) (Token.Counterpart env.stream ts)
        (s.matchCurrent env t expected follow).1
        (u.matchCurrent (env.reading ts) t' expected follow).1 ∧
      Abreast env.stream ts (s.matchCurrent env t expected follow).2.bearings
        (u.matchCurrent (env.reading ts) t' expected follow).2.bearings := by
  have hnext : (s.cursor.peek env.stream 2).kind = (u.cursor.peek (env.reading ts).stream 2).kind :=
    (ha.cursor.peek h 2).kind h
  have hadvance := ha.cursor.advance h
  have hplace := ha.cursor.place
  rw [Session.matchCurrent, Session.matchCurrent, ht.kind h, hnext, ha.mayFollow h]
  split_ifs
  · exact ⟨.ok ht, { ha.withCursor hadvance with isRecovering := rfl }⟩
  · dsimp only
    rw [currentToken_report_advance, currentToken_report_advance]
    refine ⟨.ok (ha.cursor.peek h 2), ?_⟩
    have hreport : Abreast env.stream ts (s.advance env).bearings
        (u.advance (env.reading ts)).bearings := ha.withCursor hadvance
    have hreport := hreport.report ⟨.unwanted expected, t, s.cursor.position⟩
      ⟨.unwanted expected, t', u.cursor.position⟩
    exact hreport.withCursor (hreport.cursor.advance h)
  · exact ⟨.ok (.synthetic expected ht.sameOffset), ha.report ..⟩
  · exact ⟨.error ⟨rfl, ht, hplace⟩, ha⟩

/-- A token is matched in the same way. -/
theorem Abreast.matchToken (expected : TokenKind) (follow : TokenSet) :
    Outcomes (RecognitionError.Counterpart env.stream ts) (Token.Counterpart env.stream ts)
        (s.matchToken env expected follow).1 (u.matchToken (env.reading ts) expected follow).1 ∧
      Abreast env.stream ts (s.matchToken env expected follow).2.bearings
        (u.matchToken (env.reading ts) expected follow).2.bearings := by
  rw [matchToken_eq, matchToken_eq]
  exact ha.matchCurrent h (ha.cursor.peek h 1) expected follow

/-- The last recoveries started where the cursors are, or elsewhere. -/
theorem Abreast.searchStart :
    Cursor.Counterpart env.stream ts (s.searchStart env) (u.searchStart (env.reading ts)) := by
  have hiff : s.lastErrorIndex = some s.cursor.position ↔
      u.lastErrorIndex = some u.cursor.position := by
    have hrel : Option.Rel (env.stream.SamePlace ts) s.lastErrorIndex u.lastErrorIndex :=
      ha.lastErrorIndex
    generalize s.lastErrorIndex = i at hrel ⊢
    generalize u.lastErrorIndex = j at hrel ⊢
    cases hrel with
    | none => simp
    | some hp =>
      rw [Option.some_inj, Option.some_inj]
      exact hp.eq_iff_eq ha.cursor.place
  rw [Session.searchStart, Session.searchStart, if_congr hiff rfl rfl]
  split_ifs
  · exact ha.cursor.advance h
  · exact ha.cursor

/-- Recoveries skip the same tokens. -/
theorem Abreast.recover (e e' : RecognitionError) :
    Abreast env.stream ts (s.recover env e).bearings (u.recover (env.reading ts) e').bearings := by
  have hstart := ha.searchStart h
  have hfollow : s.follow = u.follow := ha.follow
  have hs := (skips_recover env s e).2
  have hu := (skips_recover (env.reading ts) u e').2
  rw [hfollow] at hs
  rw [bearings_recover, bearings_recover]
  exact { ha with
    cursor := hs.counterpart h hu hstart
    lastErrorIndex := .some hstart.place }

end Recognition

/-! ## Leaves -/

section Leaves

variable {ts : TokenStream} {env : Setting σ γ} {s u : Session σ γ} {t t' : Token} {i i' : ℕ}

/-- A token has its leaf already if it comes before the next one. -/
theorem any_le_lastToken_iff (s : Session σ γ) (i : ℕ) :
    s.lastToken.any (i ≤ ·) = true ↔ i < s.nextToken := by
  rw [nextToken]
  cases s.lastToken with
  | none => simp
  | some last => exact decide_eq_true_iff.trans Nat.lt_succ_iff.symm

/-- Leaves for the skipped tokens move no session. -/
theorem Abreast.appendSkipped (ha : Abreast env.stream ts s.bearings u.bearings) :
    Abreast env.stream ts (s.appendSkipped env).bearings
      (u.appendSkipped (env.reading ts)).bearings := by
  have hs : (s.appendSkipped env).bearings = s.bearings :=
    (leafClosed_bearings env).appendSkipped s
  have hu : (u.appendSkipped (env.reading ts)).bearings = u.bearings :=
    (leafClosed_bearings (env.reading ts)).appendSkipped u
  exact hs ▸ hu ▸ ha

/-- Nor do those for the tokens that trail. -/
theorem Abreast.appendTrailing (ha : Abreast env.stream ts s.bearings u.bearings) :
    Abreast env.stream ts (s.appendTrailing env).bearings
      (u.appendTrailing (env.reading ts)).bearings := by
  have hs : (s.appendTrailing env).bearings = s.bearings :=
    (leafClosed_bearings env).appendTrailing s
  have hu : (u.appendTrailing (env.reading ts)).bearings = u.bearings :=
    (leafClosed_bearings (env.reading ts)).appendTrailing u
  exact hs ▸ hu ▸ ha

/-- With the rest of the tokens all visible ones have their leaves. -/
theorem rank_appendRest {start : ℕ} (env : Setting σ γ) (s : Session σ γ)
    (hs : start = s.nextToken) :
    env.stream.rank (s.appendRest env start).nextToken = env.stream.visible.length := by
  rw [appendRest]
  split_ifs with hlt
  · refine rank_of_size_le ?_
    show env.stream.size ≤ env.stream.size - 1 + 1
    omega
  · exact rank_of_size_le (hs ▸ Nat.le_of_not_lt hlt)

variable (h : env.stream.Agrees ts) (hn : env.stream.rank s.nextToken = ts.rank u.nextToken)

include h hn

theorem lt_nextToken_iff (ht : env.stream.Twins ts t t') (hi : t.index = some i)
    (hi' : t'.index = some i') : i < s.nextToken ↔ i' < u.nextToken := by
  obtain ⟨j, j', hj, hj', htoken, htoken', hp⟩ := ht.exists_index h.left h.right
  obtain rfl := Option.some.inj (hi.symm.trans hj)
  obtain rfl := Option.some.inj (hi'.symm.trans hj')
  rw [← rank_lt_rank_iff htoken ht.isHidden.1, ← rank_lt_rank_iff htoken' ht.isHidden.2, hp.rank,
    hn]

omit hn in
theorem rank_succ_index (ht : env.stream.Twins ts t t') (hi : t.index = some i)
    (hi' : t'.index = some i') : env.stream.rank (i + 1) = ts.rank (i' + 1) := by
  obtain ⟨j, j', hj, hj', htoken, htoken', hp⟩ := ht.exists_index h.left h.right
  obtain rfl := Option.some.inj (hi.symm.trans hj)
  obtain rfl := Option.some.inj (hi'.symm.trans hj')
  rw [rank_succ_of_visible htoken ht.isHidden.1, rank_succ_of_visible htoken' ht.isHidden.2,
    hp.rank]

/-- A matched token gets its leaf in both sessions or in none. -/
theorem rank_newLeaf (ht : Token.Counterpart env.stream ts t t') (element : ElementId) :
    (∃ fault, s.newLeaf env t element = .error fault ∧
      u.newLeaf (env.reading ts) t' element = .error fault) ∨
    ∃ s' u', s.newLeaf env t element = .ok s' ∧ u.newLeaf (env.reading ts) t' element = .ok u' ∧
      env.stream.rank s'.nextToken = ts.rank u'.nextToken := by
  rw [newLeaf, newLeaf]
  cases ht with
  | synthetic kind _ => exact Or.inr ⟨s, u, rfl, rfl, hn⟩
  | twins ht =>
    obtain ⟨i, i', hi, hi', -, -, -⟩ := ht.exists_index h.left h.right
    simp only [hi, hi', any_le_lastToken_iff, lt_nextToken_iff h hn ht hi hi']
    split_ifs
    · exact Or.inr ⟨s, u, rfl, rfl, hn⟩
    · rw [show (env.reading ts).grammar = env.grammar from rfl]
      cases env.grammar.feature element with
      | error fault => exact Or.inl ⟨fault, rfl, rfl⟩
      | ok feature => exact Or.inr ⟨_, _, rfl, rfl, rank_succ_index h ht hi hi'⟩

theorem rank_appendSkipped (ha : Cursor.Counterpart env.stream ts s.cursor u.cursor) :
    env.stream.rank (s.appendSkipped env).nextToken =
      ts.rank (u.appendSkipped (env.reading ts)).nextToken := by
  have hlast : Option.Rel (env.stream.Twins ts) (s.cursor.previous? env.stream)
      (u.cursor.previous? (env.reading ts).stream) := ha.previous? h
  rw [appendSkipped, appendSkipped]
  generalize s.cursor.previous? env.stream = a at hlast ⊢
  generalize u.cursor.previous? (env.reading ts).stream = b at hlast ⊢
  cases hlast with
  | none => exact hn
  | some ht =>
    obtain ⟨i, i', hi, hi', -, -, -⟩ := ht.exists_index h.left h.right
    simp only [Option.bind_some, hi, hi', ← Nat.not_lt, lt_nextToken_iff h hn ht hi hi']
    split_ifs
    · exact hn
    · exact rank_succ_index h ht hi hi'

theorem rank_appendTrailing (ha : Cursor.Counterpart env.stream ts s.cursor u.cursor)
    (hs : Operation.IsTidy env s (.command .appendTrailing)) :
    env.stream.rank (s.appendTrailing env).nextToken =
      ts.rank (u.appendTrailing (env.reading ts)).nextToken := by
  have hlast : Option.Rel (env.stream.Twins ts) (s.cursor.previous? env.stream)
      (u.cursor.previous? (env.reading ts).stream) := ha.previous? h
  change ∀ last, (s.cursor.previous? env.stream).bind (·.index) = some last →
    last < s.nextToken at hs
  rw [appendTrailing, appendTrailing]
  generalize s.cursor.previous? env.stream = a at hlast hs ⊢
  generalize u.cursor.previous? (env.reading ts).stream = b at hlast ⊢
  cases hlast with
  | none => exact hn
  | some ht =>
    obtain ⟨i, i', hi, hi', -, -, -⟩ := ht.exists_index h.left h.right
    have hlt := hs i hi
    have hlt' := (lt_nextToken_iff h hn ht hi hi').mp hlt
    simp only [Option.bind_some, hi, hi']
    have hall := rank_appendRest env s (Nat.max_eq_left hlt)
    have hall' := rank_appendRest (env.reading ts) u (Nat.max_eq_left hlt')
    exact hall.trans (h.length_visible.trans hall'.symm)

omit hn in
theorem rank_appendAll (s u : Session σ γ) :
    env.stream.rank (s.appendAll env).nextToken =
      ts.rank (u.appendAll (env.reading ts)).nextToken := by
  rw [rank_of_size_le (size_le_nextToken_appendAll env s), h.length_visible]
  exact (rank_of_size_le (size_le_nextToken_appendAll (env.reading ts) u)).symm

end Leaves

end ParseTree
