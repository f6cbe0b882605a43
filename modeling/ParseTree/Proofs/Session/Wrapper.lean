import ParseTree.Proofs.Session.Binding
import ParseTree.Proofs.Session.Orderly
import ParseTree.Proofs.Tree.Interposed

/-!
# Actions happen completely or not at all

An action makes an element, stores a value in it, wraps the open composite and binds the element to
the wrapper. What can fail comes before the first change of the tree: the binding cannot, since the
wrapper is new. So a failed action leaves everything but the factory as it was, and one that
succeeds puts a wrapper in the place of the open composite and does nothing else to the tree, except
for the message about a refused value.

## Main definitions

* `Session.Wraps`: a bound wrapper took the place of the open composite

## Main results

* `createWrapper_iff_describe`: an action is answered if the element can be described
* `createWrapper_error_or_wraps`: the two ways in which an action ends
* `atomic_of_reaches`: in every reachable session an action happens completely or not at all
-/

namespace ParseTree

open Session

variable {σ γ : Type}

namespace Session

/-- A wrapper for an action took the place of the open composite. It is bound to an element and has
all the lookahead that the composite had. Nothing else changed, except that a refused value left a
message. -/
structure Wraps (env : Setting σ γ) (s : Session σ γ) (action : ElementId)
    (value : Option SemanticId) (element : SemanticId) (s' : Session σ γ) : Prop where
  /-- The wrapper is open; the element has it as its primary node, if it had none. Besides, the
  tree, the attribution of lookahead and the factory are others. -/
  frame : ∃ tree attribution factory, s' = { s with
    tree, attribution, factory
    current := s.tree.nextId
    primary := if (s.primary? element).isSome then s.primary
      else s.primary ++ [(element, s.tree.nextId)] }
  /-- In the tree the wrapper stands in the place of the open composite. -/
  tree : (s.offered env (s.actionRefusal? env action value)).Interposed s'.tree s.current action
    element
  /-- The tokens have the same leaves. -/
  leaves : s'.attribution.leaves = s.attribution.leaves
  /-- There are waiting lists for the same tokens. -/
  awaited : s'.attribution.deferred.map (·.1) = s.attribution.deferred.map (·.1)
  /-- The wrapper waits for what the composite waited for. -/
  wrapper : ∀ i, s.tree.nextId ∈ s'.attribution.waiting i ↔ s.current ∈ s.attribution.waiting i
  /-- The composite waits for nothing. -/
  wrapped : ∀ i, s.current ∉ s'.attribution.waiting i
  /-- Others wait for what they waited for. -/
  others : ∀ i x, x ≠ s.current → x ≠ s.tree.nextId →
    (x ∈ s'.attribution.waiting i ↔ x ∈ s.attribution.waiting i)

end Session

section Wrapper

variable {env : Setting σ γ} {s s' : Session σ γ} {action : ElementId} {value : Option SemanticId}
  {element : SemanticId}

/-- The wrapper waits in the place of the composite that it wraps. -/
theorem mem_waiting_wrapCurrent (s : Session σ γ) (action : ElementId) (i : ℕ) (x : NodeId) :
    x ∈ (s.wrapCurrent action).attribution.waiting i ↔
      x ≠ s.current ∧ x ∈ s.attribution.waiting i ∨
        x = s.tree.nextId ∧ s.current ∈ s.attribution.waiting i :=
  Attribution.mem_waiting_transfer (t := s.tree.wrap action s.current)

theorem interposed_wrapCurrent (hl : Linked s) (ho : s.attribution.Orderly s.tree) {tree : Tree}
    (h : (s.wrapCurrent action).tree.bind? s.tree.nextId element = some tree) :
    s.tree.Interposed tree s.current action element :=
  Tree.interposed_of_bind? hl.wellFormed hl.current (ho.nodup s.current) h

/-- The composite is wrapped, and the element is bound to the wrapper, which takes any. -/
theorem wraps_of_associate (hl : Linked s) (ho : s.attribution.Orderly s.tree) {factory : σ}
    {t : Session σ γ} {answer : Except ParseError SemanticId}
    (ht : t = { s with factory, tree := s.offered env (s.actionRefusal? env action value) })
    (h : (answer, s') = (t.wrapCurrent action).associate t.tree.nextId element) :
    answer = .ok element ∧ s.Wraps env action value element s' := by
  have htree : t.tree = s.offered env (s.actionRefusal? env action value) := ht ▸ rfl
  have hsteady : Steady s t := ht ▸ steady_offered env hl factory _
  have hcurrent := hsteady.current
  have hattribution := hsteady.attribution
  have hnext : t.tree.nextId = s.tree.nextId := congrArg NodeId.mk hsteady.nodes.size
  have hl' := hsteady.linked hl
  have ho' := hsteady.orderly ho
  have hanswer := (congrArg Prod.fst h).trans (associate_wrapCurrent t action element)
  refine ⟨hanswer, ?_⟩
  rcases associate_cases (t.wrapCurrent action) t.tree.nextId element with
    ⟨_, -, -, ha⟩ | ⟨-, tree, hbind, ha⟩
  · cases (congrArg Prod.fst (h.trans ha)).symm.trans hanswer
  · obtain ⟨-, rfl⟩ := Prod.mk.inj (h.trans ha)
    have hinterposed := interposed_wrapCurrent hl' ho' hbind
    rw [htree, hcurrent] at hinterposed
    have hwaiting := mem_waiting_wrapCurrent t action
    rw [hcurrent, hattribution, hnext] at hwaiting
    have hnew (i : ℕ) : s.tree.nextId ∉ s.attribution.waiting i :=
      fun hw => s.tree.not_contains_nextId (ho.waiting i _ hw).contains
    have hne := Tree.ne_nextId_of_contains hl.current.contains
    constructor
    case frame =>
      refine ⟨tree, (t.wrapCurrent action).attribution, factory, ?_⟩
      rw [← hnext, ht]
      rfl
    case tree => exact hinterposed
    case leaves =>
      rw [← hattribution]
      rfl
    case awaited =>
      rw [← hattribution]
      exact List.map_map
    case wrapper =>
      intro i
      rw [hwaiting]
      simp [hnew]
    case wrapped =>
      intro i
      rw [hwaiting]
      simp [hne]
    case others =>
      intro i x hx hxn
      rw [hwaiting]
      simp [hx, hxn]

/-- An action fails with the factory as the only thing that changed, or wraps the open composite. -/
theorem createWrapper_error_or_wraps (hl : Linked s) (ho : s.attribution.Orderly s.tree)
    {answer : Except ParseError SemanticId}
    (h : s.createWrapper env action value = .ok (answer, s')) :
    (∃ e factory, answer = .error e ∧ (∀ x, e ≠ .reassignment x) ∧ s' = { s with factory }) ∨
      ∃ element, answer = .ok element ∧ s.Wraps env action value element s' := by
  rcases createWrapper_cases_offered h with
    ⟨e, factory, he, hne, -, hs⟩ | ⟨element, factory, t, ht, ha⟩
  · exact Or.inl ⟨e, factory, he, hne, hs⟩
  · exact Or.inr ⟨element, wraps_of_associate hl ho ht ha⟩

theorem describe_action {g : Grammar} {entry : Entry} {classifier : String}
    {assigned : Option (String × AssignOp)} (hv : g.visit action = .ok entry)
    (h : entry.element = .action classifier assigned) :
    g.describe action = .ok ("\x7b" ++ classifier ++ "\x7d") := by
  rw [Grammar.describe, hv]
  dsimp only [bind, Except.bind]
  rw [h]
  rfl

/-- An action is answered if its element can be described, as the element of an action always can. -/
theorem createWrapper_iff_describe :
    (∃ out, s.createWrapper env action value = .ok out) ↔
      ∃ name, env.grammar.describe action = .ok name := by
  rw [createWrapper]
  cases hv : env.grammar.visit action with
  | error fault =>
    rw [Grammar.describe, hv]
    constructor <;> rintro ⟨_, h⟩ <;> cases h
  | ok entry =>
    dsimp only [bind, Except.bind]
    split
    · next classifier assigned helement =>
      refine iff_of_true ?_ ⟨_, describe_action hv helement⟩
      split
      · exact ⟨_, rfl⟩
      · split <;> exact ⟨_, rfl⟩
    · cases env.grammar.describe action with
      | error fault => constructor <;> rintro ⟨_, h⟩ <;> cases h
      | ok name => exact iff_of_true ⟨_, rfl⟩ ⟨name, rfl⟩

/-- In every reachable session an action happens completely or not at all. It is answered if its
element can be described. If it fails, then not because the wrapper had an element already, and all
but the factory is as before. If it succeeds, a new composite that is bound to the new element
stands in the place of the composite that was open. -/
theorem atomic_of_reaches {factory : σ} {groups : γ} {ts : List (Transition σ γ)}
    (h : Reaches env (start env factory groups) ts s) (action : ElementId)
    (value : Option SemanticId) :
    ((∃ out, s.step env (.createWrapper action value) = .ok out) ↔
      ∃ name, env.grammar.describe action = .ok name) ∧
    (∀ e s', s.step env (.createWrapper action value) = .ok (.error e, s') →
      (∀ x, e ≠ .reassignment x) ∧ ∃ factory, s' = { s with factory }) ∧
    ∀ element s', s.step env (.createWrapper action value) = .ok (.ok element, s') →
      s.Wraps env action value element s' := by
  have hl := linked_of_reaches (linked_start env factory groups) h
  have ho := orderly_of_reaches h
  refine ⟨createWrapper_iff_describe, fun e s' hs => ?_, fun element s' hs => ?_⟩
  · rcases createWrapper_error_or_wraps hl ho hs with ⟨_, factory, he, hne, rfl⟩ | ⟨_, he, -⟩
    · obtain rfl := Except.error.inj he
      exact ⟨hne, factory, rfl⟩
    · cases he
  · rcases createWrapper_error_or_wraps hl ho hs with ⟨_, _, he, -⟩ | ⟨_, he, hw⟩
    · cases he
    · obtain rfl := Except.ok.inj he
      exact hw

end Wrapper

namespace Sample

/-- The sample with an action that takes up an element. The factory accepts no value. -/
def gathering : Setting Unit Unit :=
  { setting with
    grammar := ⟨"Sample", #[⟨.rule "Pair" .parser none (some ⟨1⟩), none, .one⟩,
      ⟨.group [⟨2⟩, ⟨3⟩, ⟨4⟩], some ⟨0⟩, .one⟩, ⟨.keyword "a", some ⟨1⟩, .one⟩,
      ⟨.action "Pair" (some ("left", .set)), some ⟨1⟩, .one⟩, ⟨.keyword "b", some ⟨1⟩, .one⟩]⟩
    factory :=
      ⟨fun _ s => (.ok ⟨0⟩, s), fun _ _ s => (.error (.recoverable "refused"), s),
        fun _ _ s => (.error (.recoverable "refused"), s)⟩ }

/-- Opens a composite and makes the leaf of the first word in it, having looked at the second. -/
def gather : RuleProcedure :=
  .call (.command (.newComposite ⟨0⟩)) fun _ =>
  .call (.lookAt 2) fun _ =>
  .call (.command .enterRule) fun _ => word ⟨5⟩ ⟨2⟩ (.pure (.ok none))

end Sample

open Sample in
/-- In the sample the value is refused and the open composite is wrapped all the same. -/
theorem atomic_of_gathering : ∃ ts s s',
    Reaches gathering (start gathering () ()) ts s ∧ s.current ≠ Tree.root ∧
    s.step gathering (.createWrapper ⟨3⟩ (some ⟨0⟩)) = .ok (.ok ⟨0⟩, s') ∧
    s.actionRefusal? gathering ⟨3⟩ (some ⟨0⟩) = some (.recoverable "refused") ∧
    s.Wraps gathering ⟨3⟩ (some ⟨0⟩) ⟨0⟩ s' := by
  have hrun : ((gather.run gathering (start gathering () ())).toOption.bind fun r =>
      (r.2.step gathering (.createWrapper ⟨3⟩ (some ⟨0⟩))).toOption.map fun out =>
        (r.2.current, r.2.actionRefusal? gathering ⟨3⟩ (some ⟨0⟩), out.1.toOption)) =
      some (⟨1⟩, some (.recoverable "refused"), some ⟨0⟩) := by
    decide +kernel
  cases hr : gather.run gathering (start gathering () ()) with
  | error fault =>
    rw [hr] at hrun
    cases hrun
  | ok r =>
    rw [hr] at hrun
    cases hs : r.2.step gathering (.createWrapper ⟨3⟩ (some ⟨0⟩)) with
    | error fault => simp [Except.toOption, hs] at hrun
    | ok out =>
      obtain ⟨answer, s'⟩ := out
      cases answer with
      | error e => simp [Except.toOption, hs] at hrun
      | ok element =>
        obtain ⟨hcurrent, hrefusal, rfl⟩ : r.2.current = ⟨1⟩ ∧
            r.2.actionRefusal? gathering ⟨3⟩ (some ⟨0⟩) = some (.recoverable "refused") ∧
            element = ⟨0⟩ := by
          simpa [Except.toOption, hs] using hrun
        have hreaches := Procedure.reaches_history hr
        refine ⟨_, r.2, s', hreaches, ?_, hs, hrefusal, ?_⟩
        · rw [hcurrent]
          decide
        · exact (atomic_of_reaches hreaches ⟨3⟩ (some ⟨0⟩)).2.2 ⟨0⟩ s' hs

end ParseTree
