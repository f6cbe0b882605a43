import ParseTree.Proofs.Grammar.Selected
import ParseTree.Proofs.Session.Move

/-!
# Missing members

The group helper of a session sees the calls of the history and nothing else. So the message about
an unordered group that is left too early names the members that must occur and were not selected
since the group was entered last.

## Main definitions

* `groupCalls`: the calls on the group helper in a history

## Main results

* `groups_of_step`, `groups_of_reaches`: the state of the helper, by the calls
* `remaining_of_reaches`: what the helper answers and what the message names
-/

namespace ParseTree

open Session

variable {σ γ : Type}

/-- The call on the group helper that an operation makes. -/
def Operation.groupCall? : Operation → Option GroupCall
  | .command (.enterGroup group) => some (.enter group)
  | .command (.leaveGroup group) => some (.leave group)
  | .command (.selectMember group member) => some (.select group member)
  | .command (.returnFromMember group) => some (.returnFrom group)
  | _ => none

/-- The calls on the group helper in a history. -/
def groupCalls (ts : List (Transition σ γ)) : List GroupCall :=
  ts.filterMap (·.op.groupCall?)

section Groups

variable {env : Setting σ γ} {s s' s₀ : Session σ γ}

theorem groups_report (env : Setting σ γ) (s : Session σ γ) (e : RecognitionError) :
    (s.report env e).groups = s.groups := by
  obtain ⟨_, _, h⟩ := exists_report env s e
  rw [h]

theorem groups_matchToken (env : Setting σ γ) (s : Session σ γ) (expected : TokenKind)
    (follow : TokenSet) : (s.matchToken env expected follow).2.groups = s.groups := by
  obtain ⟨_, _, _, h⟩ := exists_matchToken env s expected follow
  rw [h]

theorem groups_recover (env : Setting σ γ) (s : Session σ γ) (e : RecognitionError) :
    (s.recover env e).groups = s.groups := by
  obtain ⟨_, _, _, h⟩ := exists_recover env s e
  rw [h]

theorem groups_appendAll (env : Setting σ γ) (s : Session σ γ) :
    (s.appendAll env).groups = s.groups := by
  obtain ⟨_, _, h⟩ := exists_appendAll env s
  rw [h]
  exact ((leafClosed_still env).appendRest s s.nextToken).groups

theorem groups_perform {c : Command} (h : s.perform env c = .ok s') :
    s'.groups = (Operation.groupCall? (.command c)).elim s.groups (env.groups.after s.groups) := by
  cases c with
  | newLeaf t element => exact ((leafClosed_still env).newLeaf h).groups
  | appendAll =>
    obtain rfl := Except.ok.inj h
    exact groups_appendAll env s
  | report e =>
    obtain rfl := Except.ok.inj h
    exact groups_report env s e
  | recover e =>
    obtain rfl := Except.ok.inj h
    exact groups_recover env s e
  | appendSkipped =>
    obtain rfl := Except.ok.inj h
    exact ((leafClosed_still env).appendSkipped s).groups
  | appendTrailing =>
    obtain rfl := Except.ok.inj h
    exact ((leafClosed_still env).appendTrailing s).groups
  | afterRuleCall =>
    obtain rfl := Except.ok.inj h
    exact (still_afterRuleCall env s).groups
  | _ =>
    obtain rfl := Except.ok.inj h
    rfl

/-- Only calls on the group helper change its state. -/
theorem groups_of_step {op : Operation} {answer : op.Answer}
    (h : s.step env op = .ok (answer, s')) :
    s'.groups = op.groupCall?.elim s.groups (env.groups.after s.groups) := by
  cases op with
  | command c => exact groups_perform (perform_of_step h)
  | matchToken expected follow =>
    have hg := groups_matchToken env s expected follow
    rwa [Except.ok.inj h] at hg
  | groupFailure rule group =>
    obtain ⟨_, -, -, rfl⟩ := exists_report_of_groupFailure h
    exact groups_report ..
  | catchError e =>
    obtain ⟨-, rfl⟩ := Prod.mk.inj (Except.ok.inj h)
    cases e with
    | recognition e =>
      exact ((leafClosed_still env).appendSkipped _).groups.trans (groups_recover env s e)
    | _ => rfl
  | create site rule => exact (still_create h).groups
  | createWrapper action value => exact (still_createWrapper h).groups
  | assign source mode a =>
    have hs := still_assignAt env s mode a (s.sourceNode source)
    rw [assignAt_of_step h] at hs
    exact hs.groups
  | lookAt | textOf | currentText | errorHere | canSelect | canLeave =>
    obtain ⟨-, rfl⟩ := Prod.mk.inj (Except.ok.inj h)
    rfl

theorem groups_of_reaches {ts : List (Transition σ γ)} (h : Reaches env s₀ ts s) :
    s.groups = (groupCalls ts).foldl env.groups.after s₀.groups := by
  induction h with
  | start => rfl
  | @step ts s s' op answer _ hs ih =>
    rw [groupCalls, List.filterMap_append, List.foldl_append, ← groupCalls, ← ih,
      groups_of_step hs]
    cases hop : op.groupCall? <;> simp [hop]

end Groups

section Failure

variable {env : Setting σ Selections} {s s' : Session σ Selections} {rule group : ElementId}
  {e : RecognitionError} {calls : List GroupCall}

/-- Unless it is suppressed, the failure of leaving a group is put into words at once. -/
theorem pending_groupFailure (h : s.groupFailure env rule group = .ok (e, s'))
    (hr : s.isRecovering = false) (hp : s.pending = none) :
    s'.pending = some (env.messages.group
      ⟨s.errorContext env e, group, s.missingMembers env group, env.grammar⟩) := by
  obtain ⟨description, -, rfl, rfl⟩ := exists_report_of_groupFailure h
  rw [report, hr, postpone, hp]
  rfl

theorem missingMembers_eq (henv : env.groups = .standard)
    (hs : s.groups = .reached env.grammar calls) (group : ElementId) :
    s.missingMembers env group =
      Selections.remaining env.grammar group (GroupCall.stack group calls) := by
  rw [missingMembers, henv, hs]
  exact Selections.remaining_eq (Selections.tracks_reached env.grammar group calls)

end Failure

/-- The answers after any calls are those of the stacks of selected members. In a session that uses
them, the message about a group that is left too early is given what must occur and was not selected
in the innermost activation; there is nothing of the kind if the group can be left. -/
theorem remaining_of_calls (g : Grammar) (calls : List GroupCall) :
    Selections.Stacked g calls ∧
    ∀ {σ : Type} {env : Setting σ Selections} {s₀ s : Session σ Selections}
      {ts : List (Transition σ Selections)}, env.grammar = g → env.groups = .standard →
      s₀.groups = .ofGrammar g → Reaches env s₀ ts s → groupCalls ts = calls →
      s.groups = .reached g calls ∧
      ∀ {rule group : ElementId} {e : RecognitionError} {s' : Session σ Selections},
        s.groupFailure env rule group = .ok (e, s') → s.isRecovering = false → s.pending = none →
        s'.pending = some (env.messages.group ⟨s.errorContext env e, group,
          Selections.remaining g group (GroupCall.stack group calls), g⟩) ∧
        (Selections.remaining g group (GroupCall.stack group calls) = [] ↔
          s.groups.canLeave group = true) := by
  refine ⟨Selections.stacked_reached g calls, ?_⟩
  rintro σ env s₀ s ts rfl henv h₀ hreach rfl
  have hs : s.groups = .reached env.grammar (groupCalls ts) := by
    rw [groups_of_reaches hreach, henv, h₀]
    rfl
  refine ⟨hs, fun {rule group e s'} h hr hp => ⟨?_, ?_⟩⟩
  · rw [pending_groupFailure h hr hp, missingMembers_eq henv hs]
  · rw [hs]
    exact Selections.remaining_eq_nil_iff (Selections.tracks_reached env.grammar group _)

namespace Sample

/-- A group of three members, the second of which need not occur. -/
def unordered : Setting Unit Selections where
  grammar := ⟨"Unordered", #[⟨.rule "Any" .parser none (some ⟨1⟩), none, .one⟩,
    ⟨.unorderedGroup [⟨2⟩, ⟨3⟩, ⟨4⟩], some ⟨0⟩, .one⟩, ⟨.keyword "a", some ⟨1⟩, .one⟩,
    ⟨.keyword "b", some ⟨1⟩, .optional⟩, ⟨.keyword "c", some ⟨1⟩, .oneOrMore⟩]⟩
  config := .standard
  messages := .standard
  stream := stream
  factory := ⟨fun _ s => (.ok ⟨0⟩, s), fun _ _ s => (.ok (), s), fun _ _ s => (.ok (), s)⟩
  groups := .standard

/-- The last member is selected, and the first one in an activation within. -/
def selecting : Procedure Unit :=
  .call (.command (.enterGroup ⟨1⟩)) fun _ =>
  .call (.command (.selectMember ⟨1⟩ 2)) fun _ =>
  .call (.command (.enterGroup ⟨1⟩)) fun _ =>
  .call (.command (.selectMember ⟨1⟩ 0)) fun _ =>
  .call (.command (.leaveGroup ⟨1⟩)) .pure

theorem describe_unordered : unordered.grammar.describe ⟨1⟩ = .ok "('a' & 'b' & 'c')" := by
  have hfirst : unordered.grammar.describe ⟨2⟩ = .ok "'a'" := by rw [Grammar.describe]; rfl
  have hsecond : unordered.grammar.describe ⟨3⟩ = .ok "'b'" := by rw [Grammar.describe]; rfl
  have hthird : unordered.grammar.describe ⟨4⟩ = .ok "'c'" := by rw [Grammar.describe]; rfl
  rw [Grammar.describe]
  show ([⟨2⟩, ⟨3⟩, ⟨4⟩].mapM fun part =>
    if 1 < part.index ∧ part.index < 5 then unordered.grammar.describe part
    else throw (WalkFault.endless ⟨1⟩)) >>= _ = _
  simp only [List.mapM_cons, List.mapM_nil, hfirst, hsecond, hthird]
  rfl

end Sample

open Sample in
/-- The first member is missing in the outer activation. -/
theorem remaining_of_selecting : ∃ s e s',
    selecting.run unordered (.start unordered () (.ofGrammar unordered.grammar)) = .ok ((), s) ∧
    s.groupFailure unordered ⟨0⟩ ⟨1⟩ = .ok (e, s') ∧
    s'.pending = some (unordered.messages.group
      ⟨s.errorContext unordered e, ⟨1⟩, [⟨2⟩], unordered.grammar⟩) ∧
    s.groups.canLeave ⟨1⟩ = false := by
  let s₀ : Session Unit Selections := .start unordered () (.ofGrammar unordered.grammar)
  obtain ⟨s, hrun, hr, hp⟩ : ∃ s, selecting.run unordered s₀ = .ok ((), s) ∧
      s.isRecovering = false ∧ s.pending = none := ⟨_, rfl, rfl, rfl⟩
  obtain ⟨e, s', hf⟩ : ∃ e s', s.groupFailure unordered ⟨0⟩ ⟨1⟩ = .ok (e, s') := by
    rw [groupFailure, describe_unordered]
    exact ⟨_, _, rfl⟩
  have hcalls : groupCalls (selecting.history unordered s₀) =
    [.enter ⟨1⟩, .select ⟨1⟩ 2, .enter ⟨1⟩, .select ⟨1⟩ 0, .leave ⟨1⟩] := rfl
  obtain ⟨-, h⟩ := remaining_of_calls unordered.grammar
    [.enter ⟨1⟩, .select ⟨1⟩ 2, .enter ⟨1⟩, .select ⟨1⟩ 0, .leave ⟨1⟩]
  obtain ⟨-, h⟩ := h rfl rfl rfl (Procedure.reaches_history hrun) hcalls
  obtain ⟨hpending, hleave⟩ := h hf hr hp
  refine ⟨s, e, s', hrun, hf, hpending, ?_⟩
  rw [← Bool.not_eq_true, ← hleave]
  decide +kernel

end ParseTree
