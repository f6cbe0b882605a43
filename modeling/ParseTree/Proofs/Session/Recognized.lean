import ParseTree.Proofs.Session.Move

/-!
# Recognized input

Every repair of the input is reported, and no report is lost. So a tree without errors means that
nothing was repaired: the procedure matched the visible tokens of the stream, one after the other,
and found the end of the input behind them.

## Main definitions

* `Recognized`: nothing was repaired, and the matched tokens are the visible ones before the cursor

## Main results

* `recognized_of_reaches`: a run that ends without errors has repaired nothing
* `matched_of_parse`: a parse without errors has matched the visible tokens of the stream
-/

namespace ParseTree

open Session

variable {σ γ : Type}

/-- Nothing was repaired, and the matched tokens are the visible ones before the cursor. -/
structure Recognized (env : Setting σ γ) (ts : List (Transition σ γ)) (s : Session σ γ) : Prop where
  /-- No error was reported since the last match. -/
  isRecovering : s.isRecovering = false
  /-- Nothing was repaired. -/
  repair : ∀ tr ∈ ts, tr.repair? env = none
  /-- The matched tokens are the visible ones before the cursor. -/
  matched : ts.filterMap (·.matched?) = env.stream.visibleBefore s.cursor.position

section Reaches

variable {env : Setting σ γ} {s s' s₀ : Session σ γ} {ts : List (Transition σ γ)}
  {op : Operation} {answer : op.Answer}

theorem Recognized.still (h : Recognized env ts s)
    (hp : s'.cursor.position = s.cursor.position) (hi : s'.isRecovering = s.isRecovering)
    (hr : op.repair? env s = none) (hm : op.matched? answer = none) :
    Recognized env (ts ++ [⟨s, op, answer, s'⟩]) s' where
  isRecovering := hi.trans h.isRecovering
  repair := by
    intro tr ht
    rcases List.mem_append.mp ht with ht | ht
    · exact h.repair tr ht
    · rw [List.mem_singleton.mp ht]
      exact hr
  matched := by
    have hm' : Transition.matched? ⟨s, op, answer, s'⟩ = none := hm
    rw [List.filterMap_append, List.filterMap_cons_none hm', List.filterMap_nil, List.append_nil,
      h.matched, hp]

/-- Without errors, every match is one of the current token. -/
theorem Recognized.move (hc : env.stream.Contract) (h : Recognized env ts s)
    (hs : s.cursor.Rests env.stream) (hm : Move env s s' op answer) (hclean : Clean s') :
    Recognized env (ts ++ [⟨s, op, answer, s'⟩]) s' := by
  have halarm (error : s.isRecovering = false → s'.pending.isSome) : False :=
    not_clean_of_pending (error h.isRecovering) hclean
  cases hm with
  | still hp hi hr hm => exact h.still hp hi hr hm
  | alarmed _ error => exact absurd hclean (error h.isRecovering)
  | @matched expected follow _ hm =>
    -- A deletion or insertion would have left an error behind, and a failure moves nothing.
    generalize hr : s.matchRepair? env expected follow = repair at hm
    cases hm with
    | deleted _ error => exact (halarm error).elim
    | inserted _ error => exact (halarm error).elim
    | failed position isRecovering e => exact h.still position isRecovering hr rfl
    | current _ position isRecovering =>
      refine ⟨isRecovering, ?_, ?_⟩
      · intro tr ht
        rcases List.mem_append.mp ht with ht | ht
        · exact h.repair tr ht
        · rw [List.mem_singleton.mp ht]
          exact hr
      · rw [List.filterMap_append, h.matched, position, Cursor.visibleBefore_advance hc hs]
        apply congrArg _
        have hm : Transition.matched?
            ⟨s, .matchToken expected follow, .ok (s.currentToken env), s'⟩ =
            if (s.currentToken env).isSynthetic then none else some (s.currentToken env) :=
          matched?_matchToken ..
        show _ = if (s.currentToken env).isSynthetic then [] else [s.currentToken env]
        by_cases hy : (s.currentToken env).isSynthetic
        · rw [if_pos hy] at hm ⊢
          exact List.filterMap_cons_none hm
        · rw [if_neg hy] at hm ⊢
          exact List.filterMap_cons_some hm

/-- In a balanced run that ends without errors, nothing was repaired. -/
theorem recognized_of_reaches (hc : env.stream.Contract) (h₀ : Rooted s₀ 0)
    (hs₀ : s₀.cursor.Rests env.stream) (h₀' : Recognized env [] s₀) (h : Reaches env s₀ ts s)
    (hb : Balanced ts) (ha : Avoids (.command .appendAll) ts) :
    s.cursor.Rests env.stream ∧ (Clean s → Recognized env ts s) := by
  induction h with
  | start => exact ⟨hs₀, fun _ => h₀'⟩
  | @step ts s s' op answer hrun hs ih =>
    have hts := List.prefix_append ts [(⟨s, op, answer, s'⟩ : Transition σ γ)]
    have hb' := hb.of_prefix hts
    obtain ⟨hrests, ih⟩ := ih hb' (ha.of_prefix hts)
    have hr := rooted_of_reaches h₀ hrun hb'
    have hop := ha _ (List.mem_append_right _ (List.mem_singleton_self _))
    have hm := move_of_step hr hop hs
    -- Errors are never lost, so the session was clean before the operation, too.
    refine ⟨hm.rests hrests, ?_⟩
    intro hclean
    have hclean' := (step_change hr.toLinked hs).clean hr hb.depth_pos hclean
    exact (ih hclean').move hc hrests hm hclean

end Reaches

section Parse

variable {env : Setting σ γ} {factory : σ} {groups : γ} {rule : ElementId} {p : RuleProcedure}
  {s t : Session σ γ}

theorem recognized_openEntry (env : Setting σ γ) (factory : σ) (groups : γ) (rule : ElementId) :
    Recognized env [] ((start env factory groups).openEntry env rule) where
  isRecovering := rfl
  repair := fun _ ht => absurd ht List.not_mem_nil
  matched := (env.stream.visibleBefore_nextVisible 0).symm

/-- Before the tokens that are left get their leaves, a parse without errors has none either. -/
theorem clean_of_finish {d : ℕ} (hr : Rooted s d) (hc : Clean (s.finish env)) :
    Clean (s.popFollow.expectEnd env) := by
  have hr₁ : Rooted (s.popFollow.expectEnd env) d := by
    obtain ⟨ts, hg, -⟩ := growth_expectEnd env s.popFollow
    exact (hr.similar (steady_with ..).toSimilar).growth hg
  obtain ⟨ts₂, hg₂, -⟩ := growth_appendSkipped env (s.popFollow.expectEnd env)
  have hr₂ := hr₁.growth hg₂
  obtain ⟨ts₃, hg₃, -⟩ := growth_appendTrailing env ((s.popFollow.expectEnd env).appendSkipped env)
  have hr₃ := hr₂.growth hg₃
  obtain ⟨ts₄, hg₄, -⟩ := growth_appendAll env hr₃.toLinked
  exact hg₂.clean hr₁ (hg₃.clean hr₂ (hg₄.clean hr₃ hc))

/-- A parse without errors finds the end of the input where its procedure left the cursor. -/
theorem matchToken_of_clean {d : ℕ} (hr : Rooted s d) (hs : s.isRecovering = false)
    (hc : Clean (s.finish env)) : ∃ s₁,
      s.popFollow.matchToken env .endOfInput ∅ = (.ok (s.currentToken env), s₁) ∧
      s.popFollow.matchRepair? env .endOfInput ∅ = none ∧
      (s.currentToken env).kind = .endOfInput := by
  have hclean := clean_of_finish hr hc
  have hm := match_matchToken env s.popFollow .endOfInput ∅
  have hsteady := steady_matchToken env s.popFollow .endOfInput ∅
  have hr' : Rooted s.popFollow d := hr.similar (steady_with ..).toSimilar
  rw [expectEnd] at hclean
  generalize s.popFollow.matchToken env .endOfInput ∅ = result at *
  obtain ⟨answer, s₁⟩ := result
  generalize s.popFollow.matchRepair? env .endOfInput ∅ = repair at *
  cases hm with
  | current kind _ _ => exact ⟨s₁, rfl, rfl, kind⟩
  | deleted _ error => exact absurd hclean (not_clean_of_pending (error hs))
  | inserted _ error => exact absurd hclean (not_clean_of_pending (error hs))
  | failed _ isRecovering e =>
    have hr₁ : Rooted s₁ d := hr'.similar hsteady.toSimilar
    have hm : Move env s₁ (s₁.catchError env (.recognition e)).2 (.catchError (.recognition e))
        (s₁.catchError env (.recognition e)).1 := move_catchError hr₁ (.recognition e)
    cases hm with
    | still _ _ repair _ => cases repair
    | alarmed _ error => exact absurd hclean (error (isRecovering.trans hs))

/-- The nodes of a finished tree carry no error, and none waits. -/
theorem clean_finish {d : ℕ} (hr : Rooted s d)
    (h : ∀ x ∈ ((s.finish env).syntaxTree env).nodes, ((s.finish env).tree.node x).error = none) :
    Clean (s.finish env) := by
  obtain ⟨ts, hg, -⟩ := growth_finish env hr.toLinked
  have hr' := hr.growth hg
  refine ⟨?_, fun x hx => h x ?_⟩
  · rw [finish, appendAll, flushPending]
    split
    · next hp => exact hp
    · rfl
  · exact (Tree.mem_descendants_iff hr'.wellFormed hr'.contains_root).mpr hx

/-- At the end of the input, the end of a parse repairs nothing and matches no token. -/
theorem matched?_finishing {s₁ : Session σ γ} {u : Token}
    (h : s.popFollow.matchToken env .endOfInput ∅ = (.ok u, s₁))
    (hr : s.popFollow.matchRepair? env .endOfInput ∅ = none) (hu : u.isSynthetic)
    {tr : Transition σ γ} (ht : tr ∈ finishing.history env s) :
    tr.repair? env = none ∧ tr.matched? = none := by
  rw [history_finishing, h] at ht
  simp only [settleEnd, Procedure.history, List.append_nil, List.mem_append, List.mem_cons,
    List.not_mem_nil, or_false] at ht
  rcases ht with (rfl | rfl) | rfl | rfl | rfl
  · exact ⟨rfl, rfl⟩
  · refine ⟨hr, (matched?_matchToken ..).trans ?_⟩
    rw [if_pos hu]
  · exact ⟨rfl, rfl⟩
  · exact ⟨rfl, rfl⟩
  · exact ⟨rfl, rfl⟩

/-- A parse that ends without errors has recognized the input as it stands: nothing was passed over,
made up or skipped, and the matched tokens are the visible tokens of the stream. -/
theorem matched_of_parse {parse : Parse} (hc : env.stream.Contract)
    (hparse : (start env factory groups).parse env rule p = .ok (.ok parse, t))
    (ha : Avoids (.command .appendAll)
      (p.history env ((start env factory groups).openEntry env rule)))
    (hb : Balanced (p.history env ((start env factory groups).openEntry env rule)))
    (herror : ∀ x ∈ parse.syntaxTree.nodes, (parse.syntaxTree.tree.node x).error = none) :
    (∀ tr ∈ (topLevel rule p).history env (start env factory groups), tr.repair? env = none) ∧
      ((topLevel rule p).history env (start env factory groups)).filterMap (·.matched?) =
        env.stream.tokens.toList.filter fun t => !t.isHidden := by
  obtain ⟨element, s', hr, rfl, rfl⟩ := exists_run_of_parse_eq_ok hparse
  have hrun := Procedure.reaches_history hr
  have h₀ := rooted_openEntry env factory groups rule
  have hroot := rooted_of_reaches h₀ hrun hb
  obtain ⟨hrests, hrecognized⟩ := recognized_of_reaches hc h₀ (Cursor.rests_start env.stream)
    (recognized_openEntry env factory groups rule) hrun hb ha
  have hclean := clean_finish hroot herror
  obtain ⟨ts, hg, -⟩ := growth_finish env hroot.toLinked
  have h := hrecognized (hg.clean hroot hclean)
  obtain ⟨s₁, hmatch, hrepair, hkind⟩ := matchToken_of_clean hroot h.isRecovering hclean
  have hend := Cursor.position_eq_size hc hrests hkind
  have hsynthetic : (s'.currentToken env).isSynthetic := by
    rw [currentToken, Cursor.current_eq, TokenStream.token?_eq_none_iff.mpr hend.ge]
    rfl
  have hfinish (tr : Transition σ γ) (ht : tr ∈ finishing.history env s') :=
    matched?_finishing hmatch hrepair hsynthetic ht
  rw [history_topLevel hr]
  constructor
  · intro tr ht
    simp only [List.mem_append, List.mem_cons, List.not_mem_nil, or_false] at ht
    rcases ht with ((rfl | rfl) | ht) | ht
    · rfl
    · rfl
    · exact h.repair tr ht
    · exact (hfinish tr ht).1
  · have hall : env.stream.visibleBefore env.stream.size =
        env.stream.tokens.toList.filter fun t => !t.isHidden :=
      congrArg (List.filter _) List.take_length
    rw [List.filterMap_append, List.filterMap_append, h.matched, hend, hall,
      List.filterMap_eq_nil_iff.mpr fun tr ht => (hfinish tr ht).2, List.append_nil]
    rfl

open Sample in
/-- The sample is without errors, and its two words were matched. -/
theorem matched_of_sample : ∃ parse t, session.parse setting ⟨0⟩ procedure = .ok (.ok parse, t) ∧
    ((topLevel ⟨0⟩ procedure).history setting session).filterMap (·.matched?) =
      [⟨⟨5⟩, .visible, ⟨0, 1⟩, some 0⟩, ⟨⟨7⟩, .visible, ⟨2, 3⟩, some 2⟩] := by
  have hc : setting.stream.Contract := by decide +kernel
  have ha : Avoids (.command .appendAll) history := by decide +kernel
  have hb : Balanced history := by decide +kernel
  have hcompleted : ((session.parse setting ⟨0⟩ procedure).toOption.bind (·.1.toOption)).any
      fun parse => parse.syntaxTree.nodes.all fun x =>
        (parse.syntaxTree.tree.node x).error.isNone := by
    decide +kernel
  obtain ⟨parse, t, hparse, hnone⟩ := exists_parse_of_any hcompleted
  have herror (x : NodeId) (hx : x ∈ parse.syntaxTree.nodes) :
      (parse.syntaxTree.tree.node x).error = none :=
    Option.isNone_iff_eq_none.mp (List.all_eq_true.mp hnone x hx)
  have hmatched := (matched_of_parse hc hparse ha hb herror).2
  exact ⟨parse, t, hparse, hmatched.trans (by decide +kernel)⟩

end Parse

end ParseTree
