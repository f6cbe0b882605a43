import ParseTree.Proofs.Session.Move
import ParseTree.Proofs.Tree.Occupied

/-!
# Rules within rules

The procedure of a rule enters the rule, works, recovers from a recognition error and leaves the
rule. In between it may call other rules, each in a composite and under a follow set of its own.
Nothing that a rule keeps while it calls another is put back by a recovery: if recognition errors
only surface between calls, it need not be.

## Main definitions

* `Procedure.asRule`: the procedure of a rule with a body
* `Generated`: the bodies that only raise recognition errors between calls of rules
* `Restored`: the same rules are being recognized, and the open composite is in its place

## Main results

* `restored_of_step`: operations between calls leave a session restored
* `restored_afterRuleCall`: so does closing the composite of a call
* `Generated.restored`: so does a body that ends normally or with a recognition error
* `restored_of_generated`: so does every rule that returns; what remains of a whole parse is one
  composite below the root

## Implementation notes

A procedure is a tree in which every answer has a branch of its own, so branches and loops of a body
need no treatment of their own.
-/

namespace ParseTree

open Session

variable {σ γ : Type}

/-- The error is one that rules recover from. -/
def ParseError.IsRecognition : ParseError → Prop
  | .recognition _ => True
  | _ => False

/-- The operation neither calls a rule nor returns from one. -/
def Operation.IsInner : Operation → Prop
  | .command (.newComposite _) | .command .afterRuleCall | .command (.pushFollow _)
  | .command .popFollow => False
  | _ => True

/-- The outcome of the body of a rule, with the element that it has made. -/
abbrev BodyOutcome :=
  Except ParseError Unit × Option SemanticId

/-- The procedure of a rule: it enters the rule, goes through the body, recovers if that failed and
leaves the rule. -/
def Procedure.asRule (body : Procedure BodyOutcome) : RuleProcedure :=
  .call (.command .enterRule) fun _ => body.bind fun
    | (.ok (), element) => .call (.command .leaveRule) fun _ => .pure (.ok element)
    | (.error e, element) => .call (.catchError e) fun
      | .ok () => .call (.command .leaveRule) fun _ => .pure (.ok element)
      | .error e => .pure (.error e)

/-- What the rest of a body has to do with the rule that was called last. -/
inductive Phase where
  /-- The rule was returned from, or none was called. -/
  | body
  /-- It has just ended. -/
  | ended
  /-- It is no longer expected to go on, but its composite is still open. -/
  | closing
  /-- It has failed. -/
  | failing

/-- The rest of a body in which rules are called and returned from as they should be, and in which
recognition errors are raised between calls only. -/
inductive Generated : Phase → Procedure BodyOutcome → Prop
  /-- The body ends, with any outcome. -/
  | done (outcome : BodyOutcome) : Generated .body (.pure outcome)
  /-- Other errors may be raised anywhere. -/
  | failed {phase : Phase} {e : ParseError} (he : ¬ e.IsRecognition) (element : Option SemanticId) :
    Generated phase (.pure (.error e, element))
  /-- An operation that has nothing to do with calls may stand anywhere. -/
  | inner {phase : Phase} {op : Operation} {next : op.Answer → Procedure BodyOutcome}
    (hop : op.IsInner) (h : ∀ answer, Generated phase (next answer)) :
    Generated phase (.call op next)
  /-- A rule is called. -/
  | called {callee : Procedure BodyOutcome}
    {next : Except ParseError (Option SemanticId) → Procedure BodyOutcome} (element : ElementId)
    (follow : TokenSet) (hcallee : Generated .body callee)
    (hended : ∀ made, Generated .ended (next (.ok made)))
    (hfailing : ∀ e, ¬ e.IsRecognition → Generated .failing (next (.error e))) :
    Generated .body (.call (.command (.newComposite element)) fun _ =>
      .call (.command (.pushFollow follow)) fun _ => callee.asRule.bind next)
  /-- The rule that was called is not expected to go on. -/
  | popped {next : Unit → Procedure BodyOutcome} (h : Generated .closing (next ())) :
    Generated .ended (.call (.command .popFollow) next)
  /-- Its composite is closed. -/
  | closed {next : Unit → Procedure BodyOutcome} (h : Generated .body (next ())) :
    Generated .closing (.call (.command .afterRuleCall) next)

/-- The same rules are being recognized, and what is open is in the place of what was open. -/
structure Restored (env : Setting σ γ) (s s' : Session σ γ) : Prop where
  /-- The follow sets are the same. -/
  follow : s'.follow = s.follow
  /-- The open composite is the same, or wraps it. -/
  occupies : s.tree.Occupies env.grammar s.current s'.tree s'.current

/-! ## Operations between calls -/

section Step

variable {env : Setting σ γ} {s s' : Session σ γ} {op : Operation}

theorem follow_report (env : Setting σ γ) (s : Session σ γ) (e : RecognitionError) :
    (s.report env e).follow = s.follow := by
  obtain ⟨_, _, h⟩ := exists_report env s e
  rw [h]

theorem follow_recover (env : Setting σ γ) (s : Session σ γ) (e : RecognitionError) :
    (s.recover env e).follow = s.follow := by
  obtain ⟨_, _, _, h⟩ := exists_recover env s e
  rw [h]

theorem follow_matchToken (env : Setting σ γ) (s : Session σ γ) (expected : TokenKind)
    (follow : TokenSet) : (s.matchToken env expected follow).2.follow = s.follow := by
  obtain ⟨_, _, _, h⟩ := exists_matchToken env s expected follow
  rw [h]

theorem follow_appendAll (env : Setting σ γ) (s : Session σ γ) :
    (s.appendAll env).follow = s.follow := by
  obtain ⟨_, _, h⟩ := exists_appendAll env s
  rw [h]
  exact ((leafClosed_still env).appendRest s s.nextToken).follow

theorem follow_perform {c : Command} (hc : Operation.IsInner (.command c))
    (h : s.perform env c = .ok s') : s'.follow = s.follow := by
  cases c with
  | newComposite | afterRuleCall | pushFollow | popFollow => exact hc.elim
  | newLeaf t element => exact ((leafClosed_still env).newLeaf h).follow
  | _ =>
    obtain rfl := Except.ok.inj h
    first
    | rfl
    | exact ((leafClosed_still env).appendSkipped s).follow
    | exact ((leafClosed_still env).appendTrailing s).follow
    | exact follow_appendAll env s
    | exact follow_report env s _
    | exact follow_recover env s _

/-- Which rules are being recognized only changes with calls. -/
theorem follow_of_step {answer : op.Answer} (hop : op.IsInner)
    (h : s.step env op = .ok (answer, s')) : s'.follow = s.follow := by
  cases op with
  | command c => exact follow_perform hop (perform_of_step h)
  | matchToken expected follow =>
    have hm := follow_matchToken env s expected follow
    rwa [Except.ok.inj h] at hm
  | groupFailure rule group =>
    obtain ⟨_, -, -, rfl⟩ := exists_report_of_groupFailure h
    exact follow_report env s _
  | catchError e =>
    have hs : (s.catchError env e).2.follow = s.follow := by
      cases e with
      | recognition e =>
        exact (((leafClosed_still env).appendSkipped _).follow).trans (follow_recover env s e)
      | _ => rfl
    rwa [Except.ok.inj h] at hs
  | create site rule => exact (still_create h).follow
  | createWrapper action value => exact (still_createWrapper h).follow
  | assign source mode a =>
    have hs := (still_assignAt env s mode a (s.sourceNode source)).follow
    rwa [assignAt_of_step h] at hs
  | lookAt | textOf | currentText | errorHere | canSelect | canLeave =>
    obtain ⟨-, rfl⟩ := Prod.mk.inj (Except.ok.inj h)
    rfl

/-- Where leaves are made, the open composite gets new children. -/
theorem occupies_growth {ts : List Token} (hl : Linked s) (hg : Growth env s ts s') :
    s.tree.Occupies env.grammar s.current s'.tree s'.current := by
  have hc := hl.current.contains
  induction hg with
  | done => exact (Tree.SameNodes.refl _).occupies hc
  | @leaf ts s' t i hg _ element feature ih =>
    have hl' := hg.linked hl
    have hleaf : s'.tree.Occupies env.grammar s'.current
        (leafTree env s' t i element feature) s'.current := Tree.occupies_addLeaf hl'.current ..
    have hnew := (sameButLookahead_createLeaf env s' t i element feature).toSameNodes
    have hw : (leafTree env s' t i element feature).shape.WellFormed := by
      rw [← hnew.shape]
      exact (linked_createLeaf hl' t i element feature).wellFormed
    have h := hleaf.trans
      (hnew.occupies (hleaf.contains hl'.current.contains))
      hl'.current.contains hl'.wellFormed hw
    exact ih.trans h hc hl.wellFormed hl'.wellFormed
  | @rest ts s' s'' hg hs ih =>
    have hl' := hg.linked hl
    rw [hs.current]
    exact ih.trans (hs.nodes.occupies hl'.current.contains) hc hl.wellFormed hl'.wellFormed

theorem Restored.trans {s'' : Session σ γ} (h : Restored env s s') (h' : Restored env s' s'')
    (hl : Linked s) (hl' : Linked s') : Restored env s s'' :=
  ⟨h'.follow.trans h.follow,
    h.occupies.trans h'.occupies hl.current.contains hl.wellFormed hl'.wellFormed⟩

/-- What is no action makes no wrapper. -/
theorem eq_of_createWrapper {action : ElementId} {value : Option SemanticId}
    {answer : Except ParseError SemanticId} (ha : ¬ env.grammar.IsAction action)
    (h : s.createWrapper env action value = .ok (answer, s')) : s' = s := by
  obtain ⟨entry, hentry, h⟩ := exists_of_bind_eq_ok h
  split at h
  · next classifier assigned heq => exact absurd ⟨entry, classifier, assigned, hentry, heq⟩ ha
  · obtain ⟨_, -, h⟩ := exists_of_bind_eq_ok h
    exact (Prod.mk.inj (Except.ok.inj h)).2.symm

/-- A wrapper takes the place of what it wraps. -/
theorem occupies_wrapCurrent {action : ElementId} (hl : Linked s)
    (ha : env.grammar.IsAction action) :
    s.tree.Occupies env.grammar s.current (s.wrapCurrent action).tree s.tree.nextId := by
  have hc := hl.current.contains
  have hw : (s.tree.wrap action s.current).shape.WellFormed := by
    rw [Tree.shape_wrap hl.wellFormed hc]
    exact hl.wellFormed.interpose s.tree.isolated_nextId (Tree.ne_nextId_of_contains hc)
  refine (Tree.occupies_wrap hl.wellFormed hc ha).trans ?_ hc hl.wellFormed hw
  refine (sameButLookahead_wrapCurrent s action).toSameNodes.occupies ?_
  rw [Tree.Contains, Tree.size_wrap]
  exact Nat.lt_succ_self _

/-- Whatever happens between calls, the session stays at the same place of the recognition. -/
theorem restored_of_step {answer : op.Answer} (hl : Linked s) (hop : op.IsInner)
    (h : s.step env op = .ok (answer, s')) : Restored env s s' := by
  have hc := hl.current.contains
  refine ⟨follow_of_step hop h, ?_⟩
  cases step_change hl h with
  | enter => exact (sameButLookahead_enterRule s).toSameNodes.occupies hc
  | opened => exact hop.elim
  | closed => exact hop.elim
  | @wrapped action value s₁ _ h₁ h₂ =>
    by_cases ha : env.grammar.IsAction action
    · have hl₁ := h₁.linked hl
      have hl₂ := linked_wrapCurrent hl₁ action
      have hw := (h₁.nodes.occupies hc).trans
        (h₁.current ▸ occupies_wrapCurrent hl₁ ha) hc hl.wellFormed hl₁.wellFormed
      rw [h₂.current]
      exact hw.trans (h₂.nodes.occupies hl₂.current.contains) hc hl.wellFormed hl₂.wellFormed
    · obtain rfl := eq_of_createWrapper ha h
      exact (Tree.SameNodes.refl _).occupies hc
  | grown _ hg _ => exact occupies_growth hl hg

/-- When the composite of a call is closed, the one that was open before is open again, with one
more child. -/
theorem restored_afterRuleCall {element : ElementId} (hl : Linked s) (hl' : Linked s')
    (h : Restored env (s.newComposite env element) s') :
    Restored env s (s'.afterRuleCall env) := by
  have hc := hl.current.contains
  obtain ⟨hoccupies, hp, -⟩ := h.occupies.of_addComposite hl.current hl.wellFormed
  rw [afterRuleCall_eq hp]
  cases habsorbed : s'.absorbed? env with
  | none => exact ⟨h.follow, hoccupies⟩
  | some child =>
    have hm := mergeable_of_absorbed? habsorbed
    have hfresh : ¬ s.tree.Contains s'.current := by
      rcases h.occupies.eq_or_fresh with hnew | hnew
      · rw [hnew]
        exact s.tree.not_contains_nextId
      · refine fun hs => hnew (Tree.contains_of_size_le ?_ hs)
        exact (Tree.size_addComposite ..).symm ▸ Nat.le_succ _
    have hw : (s'.tree.absorb s'.current child).shape.WellFormed := by
      rw [Tree.shape_absorb hl'.wellFormed hm]
      exact hl'.wellFormed.contract hm.children
    have habsorb := hoccupies.absorb hc hl.wellFormed hl'.wellFormed hfresh hm
    refine ⟨h.follow, habsorb.trans ?_ hc hl.wellFormed hw⟩
    exact (sameButLookahead_merge s' child).toSameNodes.occupies
      (habsorb.contains hc)

end Step

/-! ## Bodies -/

/-- How a session that goes through a body stands to the one in which the body started. -/
def Phase.Holds (env : Setting σ γ) (s₀ s : Session σ γ) : Phase → Prop
  | .body => Restored env s₀ s
  | .ended => ∃ s₁ element follow, Linked s₁ ∧ Restored env s₀ s₁ ∧
    Restored env ((s₁.newComposite env element).pushFollow follow) s
  | .closing => ∃ s₁ element, Linked s₁ ∧ Restored env s₀ s₁ ∧
    Restored env (s₁.newComposite env element) s
  | .failing => True

section Run

variable {env : Setting σ γ} {s₀ s s' : Session σ γ} {phase : Phase}
  {body p : Procedure BodyOutcome}

theorem Restored.refl (env : Setting σ γ) (hl : Linked s) : Restored env s s :=
  ⟨rfl, (Tree.SameNodes.refl _).occupies hl.current.contains⟩

theorem linked_pushFollow (hl : Linked s) (follow : TokenSet) : Linked (s.pushFollow follow) :=
  ⟨hl.wellFormed, hl.current⟩

/-- Operations between calls do not change how the sessions stand to each other. -/
theorem Phase.Holds.trans (h : phase.Holds env s₀ s) (hl₀ : Linked s₀) (hl : Linked s)
    (hs : Restored env s s') : phase.Holds env s₀ s' := by
  cases phase with
  | body => exact Restored.trans h hs hl₀ hl
  | ended =>
    obtain ⟨s₁, element, follow, hl₁, h₁, h⟩ := h
    exact ⟨s₁, element, follow, hl₁, h₁,
      h.trans hs (linked_pushFollow (linked_newComposite hl₁ element) follow) hl⟩
  | closing =>
    obtain ⟨s₁, element, hl₁, h₁, h⟩ := h
    exact ⟨s₁, element, hl₁, h₁, h.trans hs (linked_newComposite hl₁ element) hl⟩
  | failing => trivial

/-- The rule that was called is not expected to go on. -/
theorem Phase.Holds.popFollow (h : Phase.ended.Holds env s₀ s) :
    Phase.closing.Holds env s₀ s.popFollow := by
  obtain ⟨s₁, element, follow, hl₁, h₁, h⟩ := h
  exact ⟨s₁, element, hl₁, h₁, congrArg List.tail h.follow, h.occupies⟩

/-- Its composite is closed, and the rule that called it goes on. -/
theorem Phase.Holds.afterRuleCall (h : Phase.closing.Holds env s₀ s) (hl₀ : Linked s₀)
    (hl : Linked s) : Phase.body.Holds env s₀ (s.afterRuleCall env) := by
  obtain ⟨s₁, element, hl₁, h₁, h⟩ := h
  exact h₁.trans (restored_afterRuleCall hl₁ hl h) hl₀ hl₁

/-- A rule whose body leaves the session restored, unless it fails for good, never fails with a
recognition error and leaves the session restored if it does not fail. -/
theorem Procedure.restored_of_asRule {result : Except ParseError (Option SemanticId)}
    (hbody : ∀ {s s' outcome}, Linked s → body.run env s = .ok (outcome, s') →
      (∀ e, outcome.1 = .error e → e.IsRecognition) → Restored env s s')
    (hl : Linked s) (hr : body.asRule.run env s = .ok (result, s')) :
    match result with
    | .ok _ => Restored env s s'
    | .error e => ¬ e.IsRecognition := by
  have hl₁ := linked_enterRule hl
  have henter : Restored env s s.enterRule :=
    restored_of_step hl (show Operation.IsInner (.command .enterRule) from trivial) rfl
  change (body.bind _).run env s.enterRule = _ at hr
  rw [run_bind] at hr
  obtain ⟨⟨⟨outcome, element⟩, t⟩, ht, hr⟩ := exists_of_bind_eq_ok hr
  have hlt := linked_of_reaches hl₁ (reaches_history ht)
  have hleave {u : Session σ γ} (h : Restored env s u) (hlu : Linked u) :
      Restored env s u.leaveRule :=
    h.trans
      (restored_of_step hlu (show Operation.IsInner (.command .leaveRule) from trivial) rfl) hl hlu
  match outcome with
  | .ok () =>
    obtain ⟨rfl, rfl⟩ := Prod.mk.inj (Except.ok.inj hr)
    exact hleave (henter.trans (hbody hl₁ ht nofun) hl hl₁) hlt
  | .error (.recognition e) =>
    obtain ⟨rfl, rfl⟩ := Prod.mk.inj (Except.ok.inj hr)
    have hcatch : t.step env (.catchError (.recognition e)) =
        .ok (.ok (), (t.catchError env (.recognition e)).2) := rfl
    have hcaught : Restored env t (t.catchError env (.recognition e)).2 :=
      restored_of_step hlt (show Operation.IsInner (.catchError _) from trivial) hcatch
    have hrestored := hbody hl₁ ht fun e' he' => by
      obtain rfl := Except.error.inj he'
      trivial
    have h := (henter.trans hrestored hl hl₁).trans hcaught hl hlt
    exact hleave h ((step_change hlt hcatch).linked hlt)
  | .error (.unknownRule _) | .error (.duplicateRule _) | .error (.internal _)
  | .error (.reassignment _) | .error (.invariant _) =>
    obtain ⟨rfl, rfl⟩ := Prod.mk.inj (Except.ok.inj hr)
    exact id

/-- A body that does not fail for good leaves the session restored. -/
theorem Generated.restored (h : Generated phase p) : ∀ {s₀ s s' : Session σ γ}
    {outcome : BodyOutcome}, Linked s₀ → Linked s → phase.Holds env s₀ s →
    p.run env s = .ok (outcome, s') → (∀ e, outcome.1 = .error e → e.IsRecognition) →
    Restored env s₀ s' := by
  -- Along the body. A step leads from one phase to the next, and what holds in a phase relates the
  -- session to the one at the start of the body, not to the one before the step.
  induction h with
  | done outcome =>
    intro s₀ s s' outcome _ _ hs hr _
    obtain ⟨-, rfl⟩ := Prod.mk.inj (Except.ok.inj hr)
    exact hs
  | failed he element =>
    intro s₀ s s' outcome _ _ _ hr hrecognition
    obtain ⟨rfl, -⟩ := Prod.mk.inj (Except.ok.inj hr)
    exact absurd (hrecognition _ rfl) he
  | @inner phase op next hop _ ih =>
    intro s₀ s s' outcome hl₀ hl hs hr
    rw [Procedure.run] at hr
    split at hr
    · next answer t ht =>
      exact ih answer hl₀ ((step_change hl ht).linked hl)
        (hs.trans hl₀ hl (restored_of_step hl hop ht)) hr
    · cases hr
  | @called callee next element follow _ _ _ ihcallee ihended ihfailing =>
    intro s₀ s s' outcome hl₀ hl hs hr
    set t := (s.newComposite env element).pushFollow follow
    have hlt : Linked t := linked_pushFollow (linked_newComposite hl element) follow
    change (callee.asRule.bind next).run env t = _ at hr
    rw [Procedure.run_bind] at hr
    obtain ⟨⟨result, u⟩, hu, hr⟩ := exists_of_bind_eq_ok hr
    have hlu := linked_of_reaches hlt (Procedure.reaches_history hu)
    have hrule := Procedure.restored_of_asRule
      (fun hl hrun => ihcallee hl hl (Restored.refl env hl) hrun) hlt hu
    cases result with
    | ok made => exact ihended made hl₀ hlu ⟨s, element, follow, hl, hs, hrule⟩ hr
    | error e => exact ihfailing e hrule hl₀ hlu trivial hr
  | @popped next _ ih =>
    intro s₀ s s' outcome hl₀ hl hs hr
    have hlpop : Linked s.popFollow := ⟨hl.wellFormed, hl.current⟩
    exact ih hl₀ hlpop hs.popFollow hr
  | @closed next _ ih =>
    intro s₀ s s' outcome hl₀ hl hs hr
    exact ih hl₀ (linked_afterRuleCall hl) (hs.afterRuleCall hl₀ hl) hr

/-- The rule of a generated body leaves the session restored if it returns. -/
theorem Generated.restored_of_asRule (h : Generated .body body) {made : Option SemanticId}
    (hl : Linked s) (hr : body.asRule.run env s = .ok (.ok made, s')) : Restored env s s' :=
  Procedure.restored_of_asRule (fun hl hrun => h.restored hl hl (Restored.refl env hl) hrun) hl hr

theorem restored_finish (hl : Linked s) (h : Restored env s₀ s) (hl₀ : Linked s₀) :
    s₀.tree.Occupies env.grammar s₀.current (s.finish env).tree (s.finish env).current := by
  obtain ⟨ts, hg, -⟩ := growth_finish env hl
  exact h.occupies.trans (occupies_growth hl hg) hl₀.current.contains hl₀.wellFormed hl.wellFormed

end Run

section Parse

/-- Every rule with a generated body that returns leaves the follow sets as they were, and the
composite that it was called with, or the outermost of the wrappers of actions around it, in the
place of that composite. After a parse with such a rule there is one composite below the root, the
one that was open at the end, and it covers what the root does. -/
theorem restored_of_generated (env : Setting σ γ) (factory : σ) (groups : γ) (rule : ElementId)
    {body : Procedure BodyOutcome} (hb : Generated .body body) :
    (∀ ts s s' made, Reaches env (start env factory groups) ts s →
      body.asRule.run env s = .ok (.ok made, s') →
      s'.follow = s.follow ∧ s.tree.Occupies env.grammar s.current s'.tree s'.current) ∧
    ∀ parse t, (start env factory groups).parse env rule body.asRule = .ok (.ok parse, t) →
      parse.syntaxTree.tree.children Tree.root = [parse.entry] ∧
      (parse.syntaxTree.view parse.entry).span = (parse.syntaxTree.view Tree.root).span ∧
      (parse.syntaxTree.view parse.entry).text = (parse.syntaxTree.view Tree.root).text := by
  have hl₀ := linked_start env factory groups
  constructor
  · intro ts s s' made hs hr
    have h := hb.restored_of_asRule (linked_of_reaches hl₀ hs) hr
    exact ⟨h.follow, h.occupies⟩
  · intro parse t hparse
    obtain ⟨made, s, hr, rfl, rfl⟩ := exists_run_of_parse_eq_ok hparse
    have hopen : Linked ((start env factory groups).openEntry env rule) :=
      linked_pushFollow (linked_newComposite hl₀ rule) _
    have hl := linked_of_reaches hopen (Procedure.reaches_history hr)
    have hfinish : Linked (s.finish env) := by
      obtain ⟨ts, hg, -⟩ := growth_finish env hl
      exact hg.linked hl
    have hoccupies := restored_finish hl (hb.restored_of_asRule hopen hr) hopen
    obtain ⟨hroot, -, hchildren⟩ :=
      Tree.Occupies.of_addComposite hl₀.current hl₀.wellFormed hoccupies
    have hanchor : ((s.finish env).tree.node (s.finish env).current).anchor =
        ((s.finish env).tree.node Tree.root).anchor :=
      hoccupies.anchor_self.trans (hroot.anchor_self.trans rfl).symm
    replace hchildren : (s.finish env).tree.children Tree.root = [(s.finish env).current] :=
      hchildren
    have hspan : (s.finish env).tree.span Tree.root =
        (s.finish env).tree.span (s.finish env).current := by
      refine Tree.span_of_children_eq_singleton hfinish.wellFormed ?_ hchildren hfinish.current
        hanchor
      exact Tree.isComposite_of_mem_children (hchildren ▸ List.mem_singleton_self _)
    exact ⟨hchildren, hspan.symm, congrArg (fun x => (x.slice? env.stream.text).getD "") hspan.symm⟩

namespace Sample

/-- Matches a token and makes its leaf, or fails. -/
def matched (kind : TokenKind) (element : ElementId) (next : Procedure BodyOutcome) :
    Procedure BodyOutcome :=
  .call (.matchToken kind ∅) fun
    | .error e => .pure (.error (.recognition e), none)
    | .ok t => .call (.command (.newLeaf t element)) fun _ => next

/-- One word more than there is. -/
def callee : Procedure BodyOutcome :=
  matched ⟨7⟩ ⟨4⟩ (matched ⟨7⟩ ⟨4⟩ (.pure (.ok (), none)))

/-- A word, an action around it, and a call. -/
def caller : Procedure BodyOutcome :=
  matched ⟨5⟩ ⟨2⟩ <|
  .call (.createWrapper ⟨3⟩ none) fun _ =>
  .call (.command (.newComposite ⟨0⟩)) fun _ =>
  .call (.command (.pushFollow ∅)) fun _ => callee.asRule.bind fun
    | .ok _ => .call (.command .popFollow) fun _ =>
      .call (.command .afterRuleCall) fun _ => .pure (.ok (), none)
    | .error e => .pure (.error e, none)

theorem generated_matched (kind : TokenKind) (element : ElementId) {next : Procedure BodyOutcome}
    (h : Generated .body next) : Generated .body (matched kind element next) := by
  refine .inner trivial fun answer => ?_
  match answer with
  | .error e => exact .done _
  | .ok t => exact .inner trivial fun _ => h

theorem generated_caller : Generated .body caller := by
  refine generated_matched _ _ (.inner trivial fun _ => .called ⟨0⟩ ∅ ?_ ?_ ?_)
  · exact generated_matched _ _ (generated_matched _ _ (.done _))
  · exact fun _ => .popped (.closed (.done _))
  · exact fun e he => .failed he none

end Sample

open Sample in
/-- The rule that is called fails at the end of the input and recovers there. The composite of the
entry rule has got a wrapper in its place. -/
theorem restored_of_sample : ∃ made s parse t,
    caller.asRule.run setting (session.openEntry setting ⟨0⟩) = .ok (.ok made, s) ∧
    s.follow = [.ofList [.endOfInput]] ∧
    (session.openEntry setting ⟨0⟩).tree.Occupies setting.grammar ⟨1⟩ s.tree s.current ∧
    session.parse setting ⟨0⟩ caller.asRule = .ok (.ok parse, t) ∧
    parse.syntaxTree.errors ≠ [] ∧ parse.entry = ⟨3⟩ ∧
    parse.syntaxTree.tree.children Tree.root = [⟨3⟩] ∧
    (parse.syntaxTree.view ⟨3⟩).text = (parse.syntaxTree.view Tree.root).text := by
  obtain ⟨hrule, hparse⟩ := restored_of_generated setting () () ⟨0⟩ generated_caller
  have hcompleted : ((session.parse setting ⟨0⟩ caller.asRule).toOption.bind (·.1.toOption)).any
      fun parse => parse.syntaxTree.errors ≠ [] ∧ parse.entry = ⟨3⟩ := by
    decide +kernel
  obtain ⟨parse, t, hcompleted, hsample⟩ := exists_parse_of_any hcompleted
  obtain ⟨herrors, hentry⟩ := of_decide_eq_true hsample
  obtain ⟨made, s, hr, -⟩ := exists_run_of_parse_eq_ok hcompleted
  obtain ⟨ts, hopen⟩ := reaches_openEntry setting session ⟨0⟩
  obtain ⟨hfollow, hoccupies⟩ := hrule ts _ s made hopen hr
  obtain ⟨hchildren, -, htext⟩ := hparse parse t hcompleted
  rw [hentry] at hchildren htext
  exact ⟨made, s, parse, t, hr, hfollow, hoccupies, hcompleted, herrors, hentry, hchildren, htext⟩

end Parse

end ParseTree
