import ParseTree.Proofs.Session.Sound
import ParseTree.Proofs.Session.Sown

/-!
# Elements and the nodes they are bound to

An element is bound when it is made, to a node that has no other. From then on the binding only
moves when a composite is merged into the one above it, and the primary node of the element moves
with it. So an element finds its way back to the node that took the place of its first one.

## Main definitions

* `Transition.made?`: the element that an operation made and bound
* `Transition.heir`, `heir`: the node that has taken the place of another one, after an operation,
  after a history
* `Session.Clashes`: the node is bound to another element than the one that a rule is to have there
* `SameBindings`: nothing was bound between two sessions
* `Binds`: what an operation does to the bindings
* `Tied`: every element that is bound has a primary node

## Main results

* `binds_of_step`: every operation treats the bindings in one of three ways
* `Binds.semantic`, `Binds.primary?`: bindings and primary nodes pass to the heirs
* `bindings_of_parse`: what a completed parse says of elements and nodes
-/

namespace ParseTree

open Session

variable {σ γ : Type}

/-- The element that an operation made and bound to a node. -/
def Operation.made? : (op : Operation) → op.Answer → Option SemanticId
  | .create _ _, answer => answer.toOption
  | .createWrapper _ _, answer => answer.toOption
  | _, _ => none

/-- The element that was made and bound to a node. -/
def Transition.made? (tr : Transition σ γ) : Option SemanticId :=
  tr.op.made? tr.answer

/-- The node that takes the place of a node in an operation: the composite that it is merged into,
or the node itself. -/
def Operation.heir (env : Setting σ γ) (s : Session σ γ) (x : NodeId) : Operation → NodeId
  | .command .afterRuleCall => (s.absorbed? env).elim x fun child => redirect child s.current x
  | _ => x

/-- The node that took the place of a node. -/
def Transition.heir (env : Setting σ γ) (tr : Transition σ γ) (x : NodeId) : NodeId :=
  tr.op.heir env tr.before x

/-- The node that has taken the place of a node after a history, through any number of merges. -/
def heir (env : Setting σ γ) (ts : List (Transition σ γ)) (x : NodeId) : NodeId :=
  ts.foldl (fun x tr => tr.heir env x) x

/-- The element that the factory makes for a rule is not the one that the node is bound to. -/
def Session.Clashes (env : Setting σ γ) (s : Session σ γ) (rule : ElementId) (x : NodeId) : Prop :=
  ∃ classifier element other, env.grammar.ruleClassifier? rule = some classifier ∧
    (env.factory.create classifier s.factory).1 = .ok element ∧
      (s.tree.node x).semantic = some other ∧ other ≠ element

/-- The operation bound an element to a node when no node had it. -/
structure Transition.FirstBinds (tr : Transition σ γ) (e : SemanticId) (x : NodeId) : Prop where
  /-- No node had the element. -/
  before : ∀ y, (tr.before.tree.node y).semantic ≠ some e
  /-- The node has it now. -/
  after : (tr.after.tree.node x).semantic = some e

/-- Nothing was bound. -/
structure SameBindings (s s' : Session σ γ) : Prop where
  /-- The nodes are bound to the same elements. -/
  semantic : ∀ x, (s'.tree.node x).semantic = (s.tree.node x).semantic
  /-- The elements have the same primary nodes. -/
  primary : s'.primary = s.primary

/-! ## Operations that bind nothing -/

section SameBindings

variable {env : Setting σ γ} {s s' s'' : Session σ γ}

theorem sameBindings_of_eq (ht : s'.tree = s.tree) (hp : s'.primary = s.primary) :
    SameBindings s s' :=
  ⟨fun _ => ht ▸ rfl, hp⟩

theorem SameBindings.refl (s : Session σ γ) : SameBindings s s :=
  sameBindings_of_eq rfl rfl

theorem SameBindings.trans (h : SameBindings s s') (h' : SameBindings s' s'') :
    SameBindings s s'' :=
  ⟨fun x => (h'.semantic x).trans (h.semantic x), h'.primary.trans h.primary⟩

theorem sameBindings_createLeaf (env : Setting σ γ) (s : Session σ γ) (t : Token) (i : ℕ)
    (element : Option ElementId) (feature : Option String) :
    SameBindings s (s.createLeaf env t i element feature) := by
  refine ⟨fun x => ?_, rfl⟩
  rw [(sameButLookahead_createLeaf ..).semantic]
  exact Tree.semantic_addLeaf x

theorem leafClosed_sameBindings (env : Setting σ γ) : LeafClosed env SameBindings :=
  ⟨.refl, .trans, sameBindings_createLeaf env, fun _ _ _ => ⟨fun _ => rfl, rfl⟩⟩

theorem sameBindings_attachError (s : Session σ γ) (id : NodeId) (e : SyntaxError) :
    SameBindings s { s with tree := s.tree.attachError id e } :=
  ⟨Tree.semantic_attachError s.tree id e, rfl⟩

theorem sameBindings_report (env : Setting σ γ) (s : Session σ γ) (e : RecognitionError) :
    SameBindings s (s.report env e) := by
  obtain ⟨_, _, h⟩ := exists_report env s e
  rw [h]
  exact sameBindings_of_eq rfl rfl

theorem sameBindings_matchToken (env : Setting σ γ) (s : Session σ γ) (expected : TokenKind)
    (follow : TokenSet) : SameBindings s (s.matchToken env expected follow).2 := by
  obtain ⟨_, _, _, h⟩ := exists_matchToken env s expected follow
  rw [h]
  exact sameBindings_of_eq rfl rfl

theorem sameBindings_recover (env : Setting σ γ) (s : Session σ γ) (e : RecognitionError) :
    SameBindings s (s.recover env e) := by
  obtain ⟨_, _, _, h⟩ := exists_recover env s e
  rw [h]
  exact sameBindings_of_eq rfl rfl

theorem sameBindings_appendAll (env : Setting σ γ) (s : Session σ γ) :
    SameBindings s (s.appendAll env) := by
  have h := (leafClosed_sameBindings env).appendRest s s.nextToken
  rw [appendAll, flushPending]
  split
  · exact h.trans (sameBindings_of_eq rfl rfl)
  · next error _ =>
    have ha := sameBindings_attachError (s.appendRest env s.nextToken)
      (((s.appendRest env s.nextToken).tree.lastLeaf? (s.appendRest env s.nextToken).current).getD
        (s.appendRest env s.nextToken).current) error
    exact (h.trans ha).trans (sameBindings_of_eq rfl rfl)

theorem sameBindings_catchError (env : Setting σ γ) (s : Session σ γ) (e : ParseError) :
    SameBindings s (s.catchError env e).2 := by
  cases e with
  | recognition e =>
    exact (sameBindings_recover env s e).trans ((leafClosed_sameBindings env).appendSkipped _)
  | _ => exact .refl s

theorem sameBindings_offered (env : Setting σ γ) (s : Session σ γ) (factory : σ)
    (refusal? : Option ConversionError) :
    SameBindings s { s with factory, tree := s.offered env refusal? } :=
  ⟨semantic_offered env s refusal?, rfl⟩

theorem sameBindings_assignAt (env : Setting σ γ) (s : Session σ γ) (mode : AssignMode)
    (a : Assignment) (node : NodeId) : SameBindings s (s.assignAt env mode a node).2 := by
  obtain ⟨factory, h | ⟨e, -, h⟩⟩ := assignAt_cases env s mode a node
  · rw [h]
    exact sameBindings_offered env s factory _
  · rw [h]
    exact sameBindings_of_eq rfl rfl

theorem sameBindings_wrapCurrent (s : Session σ γ) (action : ElementId) :
    SameBindings s (s.wrapCurrent action) :=
  ⟨fun x => by rw [(sameButLookahead_wrapCurrent s action).semantic, Tree.semantic_wrap], rfl⟩

end SameBindings

/-! ## What an operation does to the bindings -/

/-- What an operation does to the bindings. -/
inductive Binds (env : Setting σ γ) (s : Session σ γ) :
    (op : Operation) → op.Answer → Session σ γ → Prop
  /-- Nothing was bound. -/
  | kept {op : Operation} {answer : op.Answer} {s' : Session σ γ} (h : SameBindings s s')
    (made : op.made? answer = none) (heir : ∀ x, op.heir env s x = x) : Binds env s op answer s'
  /-- An element was bound to a node, which had no other. Its first node is its primary node. -/
  | bound {op : Operation} {answer : op.Answer} {s' : Session σ γ} {x : NodeId} {e : SemanticId}
    (place : x = s'.current ∨ s'.tree.parent? s'.current = some x)
    (free : ∀ other, (s.tree.node x).semantic = some other → other = e)
    (semantic : ∀ y, (s'.tree.node y).semantic = if y = x then some e else (s.tree.node y).semantic)
    (primary : s'.primary = if (s.primary? e).isSome then s.primary else s.primary ++ [(e, x)])
    (made : op.made? answer = some e) (heir : ∀ x, op.heir env s x = x) : Binds env s op answer s'
  /-- A composite was merged into the open one. -/
  | merged {child p : NodeId} (h : s.absorbed? env = some child)
    (hp : s.tree.parent? s.current = some p) :
    Binds env s (.command .afterRuleCall) () { s.merge child with current := p }

section Step

variable {env : Setting σ γ} {s s' : Session σ γ} {op : Operation}

theorem Binds.of_same {answer : op.Answer} (h : SameBindings s s') (made : op.made? answer = none)
    (hop : op ≠ .command .afterRuleCall) : Binds env s op answer s' := by
  refine .kept h made fun x => ?_
  cases op with
  | command c => cases c <;> first | rfl | exact absurd rfl hop
  | _ => rfl

/-- An element is bound to a node, unless the node is bound to another one. -/
theorem associate_cases (s : Session σ γ) (node : NodeId) (element : SemanticId) :
    (∃ other, (s.tree.node node).semantic = some other ∧ other ≠ element ∧
      s.associate node element = (.error (.reassignment node), s)) ∨
    (∀ other, (s.tree.node node).semantic = some other → other = element) ∧
      ∃ tree, s.tree.bind? node element = some tree ∧
        s.associate node element = (.ok element, { s with
          tree
          primary := if (s.primary? element).isSome then s.primary
            else s.primary ++ [(element, node)] }) := by
  rw [associate, Tree.bind?]
  cases hs : (s.tree.node node).semantic with
  | none => exact Or.inr ⟨fun _ h => absurd h.symm (Option.some_ne_none _), _, rfl, rfl⟩
  | some bound =>
    dsimp only
    by_cases hb : bound = element
    · rw [if_pos hb]
      exact Or.inr ⟨fun _ h => (Option.some.inj h).symm.trans hb, _, rfl, rfl⟩
    · rw [if_neg hb]
      exact Or.inl ⟨bound, rfl, hb, rfl⟩

theorem binds_associate {t : Session σ γ} {node : NodeId} {element : SemanticId}
    {answer : op.Answer} (h : SameBindings s t) (hl : Linked t)
    (place : node = t.current ∨ t.tree.parent? t.current = some node)
    (made : op.made? answer = (t.associate node element).1.toOption)
    (heir : ∀ x, op.heir env s x = x) : Binds env s op answer (t.associate node element).2 := by
  have hprimary : t.primary? element = s.primary? element := by
    rw [primary?, primary?, h.primary]
  rcases associate_cases t node element with ⟨other, ho, hne, ha⟩ | ⟨hfree, tree, hbind, ha⟩
  · rw [ha] at made ⊢
    exact .kept h made heir
  · have hn := Tree.sameNodes_bind? hbind
    have hc : t.tree.Contains node := by
      rcases place with rfl | hp
      · exact hl.current.contains
      · exact Tree.contains_of_mem_children (hl.wellFormed.mem_of_parent? hp)
    rw [ha] at made ⊢
    refine .bound (x := node) (e := element) ?_ ?_ ?_ ?_ made heir
    · show node = t.current ∨ tree.parent? t.current = some node
      rwa [hn.parent?]
    · rwa [← h.semantic]
    · intro y
      rw [← h.semantic]
      exact Tree.semantic_bind? hbind hc y
    · rw [← hprimary, ← h.primary]

/-- The creation of an element fails, or makes an element and binds it. -/
theorem create_eq {site : BindingSite} {rule : ElementId} {answer : Except ParseError SemanticId}
    (h : s.create env site rule = .ok (answer, s')) :
    (env.grammar.ruleClassifier? rule = none ∧ (∃ name, answer = .error (.unknownRule name)) ∧
      s' = s) ∨
    ∃ classifier, env.grammar.ruleClassifier? rule = some classifier ∧
      ((∃ e, (s.make env classifier).1 = .error (.internal e) ∧ answer = .error (.internal e) ∧
          s' = (s.make env classifier).2) ∨
        ∃ element, (s.make env classifier).1 = .ok element ∧
          (answer, s') = (s.make env classifier).2.associate (s.siteNode site) element) := by
  obtain ⟨_, -, h⟩ := exists_of_bind_eq_ok h
  split at h
  · next hnone =>
    obtain ⟨name, -, h⟩ := exists_of_bind_eq_ok h
    obtain ⟨rfl, rfl⟩ := Prod.mk.inj (Except.ok.inj h)
    exact Or.inl ⟨hnone, ⟨name, rfl⟩, rfl⟩
  · next classifier hclassifier =>
    refine Or.inr ⟨classifier, hclassifier, ?_⟩
    split at h
    · next e t hmake =>
      obtain ⟨rfl, rfl⟩ := Prod.mk.inj (Except.ok.inj h)
      have hresult : ((env.factory.create classifier s.factory).1.mapError ParseError.internal) =
          .error e := congrArg Prod.fst hmake
      cases hf : (env.factory.create classifier s.factory).1 with
      | ok element =>
        rw [hf] at hresult
        cases hresult
      | error e' =>
        rw [hf] at hresult
        obtain rfl := Except.error.inj hresult
        exact Or.inl ⟨e', by rw [hmake], rfl, by rw [hmake]⟩
    · next element t hmake =>
      rw [hmake]
      exact Or.inr ⟨element, rfl, (Except.ok.inj h).symm⟩

theorem make_eq_ok_iff {classifier : String} {element : SemanticId} :
    (s.make env classifier).1 = .ok element ↔
      (env.factory.create classifier s.factory).1 = .ok element := by
  show (env.factory.create classifier s.factory).1.mapError ParseError.internal = _ ↔ _
  cases (env.factory.create classifier s.factory).1 <;> simp [Except.mapError]

/-- A creation is a reassignment if the node at the site has another element. -/
theorem reassignment_iff {site : BindingSite} {rule : ElementId}
    {answer : Except ParseError SemanticId} (h : s.create env site rule = .ok (answer, s'))
    (x : NodeId) :
    answer = .error (.reassignment x) ↔ x = s.siteNode site ∧ s.Clashes env rule x := by
  rcases create_eq h with ⟨hnone, ⟨name, rfl⟩, -⟩ |
    ⟨classifier, hclassifier, ⟨e, hmake, rfl, -⟩ | ⟨element, hmake, ha⟩⟩
  · refine ⟨nofun, ?_⟩
    rintro ⟨-, classifier, _, _, hsome, -⟩
    rw [hnone] at hsome
    cases hsome
  · refine ⟨nofun, ?_⟩
    rintro ⟨-, classifier', element, _, hsome, hcreate, -⟩
    obtain rfl := Option.some.inj (hclassifier.symm.trans hsome)
    rw [make_eq_ok_iff.mpr hcreate] at hmake
    cases hmake
  · have hanswer := congrArg Prod.fst ha
    dsimp only at hanswer
    rcases associate_cases (s.make env classifier).2 (s.siteNode site) element with
      ⟨other, ho, hne, hassoc⟩ | ⟨hfree, tree, -, hassoc⟩
    · rw [hanswer, hassoc]
      constructor
      · intro h
        obtain rfl := ParseError.reassignment.inj (Except.error.inj h)
        exact ⟨rfl, classifier, element, other, hclassifier, make_eq_ok_iff.mp hmake, ho, hne⟩
      · rintro ⟨rfl, -⟩
        rfl
    · rw [hanswer, hassoc]
      refine ⟨nofun, ?_⟩
      rintro ⟨rfl, classifier', element', other, hsome, hcreate, ho, hne⟩
      obtain rfl := Option.some.inj (hclassifier.symm.trans hsome)
      obtain rfl := Except.ok.inj ((make_eq_ok_iff.mp hmake).symm.trans hcreate)
      exact absurd (hfree other ho) hne

/-- A failed creation leaves the tree and the primary nodes alone. -/
theorem create_error {site : BindingSite} {rule : ElementId} {e : ParseError}
    (h : s.create env site rule = .ok (.error e, s')) :
    s'.tree = s.tree ∧ s'.primary = s.primary := by
  rcases create_eq h with ⟨-, -, rfl⟩ | ⟨classifier, -, ⟨_, -, -, rfl⟩ | ⟨element, -, ha⟩⟩
  · exact ⟨rfl, rfl⟩
  · exact ⟨rfl, rfl⟩
  · rcases associate_cases (s.make env classifier).2 (s.siteNode site) element with
      ⟨_, -, -, hassoc⟩ | ⟨-, _, -, hassoc⟩
    · obtain ⟨-, rfl⟩ := Prod.mk.inj (ha.trans hassoc)
      exact ⟨rfl, rfl⟩
    · cases (Prod.mk.inj (ha.trans hassoc)).1

/-- A wrapper is new and takes any element. -/
theorem associate_wrapCurrent (s : Session σ γ) (action : ElementId) (element : SemanticId) :
    ((s.wrapCurrent action).associate s.tree.nextId element).1 = .ok element := by
  have hnone : ((s.wrapCurrent action).tree.node s.tree.nextId).semantic = none := by
    rw [(sameBindings_wrapCurrent s action).semantic,
      Tree.node_of_not_contains s.tree.not_contains_nextId]
    rfl
  rcases associate_cases (s.wrapCurrent action) s.tree.nextId element with
    ⟨other, ho, -⟩ | ⟨-, tree, -, hok⟩
  · rw [hnone] at ho
    cases ho
  · exact congrArg Prod.fst hok

/-- An action fails, or it makes an element, wraps the open composite and binds the element to the
wrapper. -/
theorem createWrapper_eq {action : ElementId} {value : Option SemanticId}
    {answer : Except ParseError SemanticId} (hl : Linked s)
    (h : s.createWrapper env action value = .ok (answer, s')) :
    (∃ e, answer = .error e ∧ (∀ x, e ≠ .reassignment x) ∧ SameBindings s s' ∧ Steady s s') ∨
    ∃ element t, SameBindings s t ∧ Steady s t ∧
      (answer, s') = (t.wrapCurrent action).associate t.tree.nextId element := by
  rcases createWrapper_cases_offered h with
    ⟨e, factory, he, hne, -, rfl⟩ | ⟨element, factory, t, rfl, ha⟩
  · exact Or.inl ⟨e, he, hne, sameBindings_of_eq rfl rfl, steady_with ..⟩
  · exact Or.inr ⟨element, _, sameBindings_offered env s factory _,
      steady_offered env hl factory _, ha⟩

/-- An action binds a new node, so it never rebinds one. -/
theorem createWrapper_ne_reassignment {action : ElementId} {value : Option SemanticId}
    {answer : Except ParseError SemanticId} (hl : Linked s)
    (h : s.createWrapper env action value = .ok (answer, s')) (x : NodeId) :
    answer ≠ .error (.reassignment x) := by
  rintro rfl
  rcases createWrapper_eq hl h with ⟨e, he, hne, -⟩ | ⟨element, t, -, -, ha⟩
  · exact hne x (Except.error.inj he).symm
  · cases (congrArg Prod.fst ha).trans (associate_wrapCurrent t action element)

theorem binds_create {site : BindingSite} {rule : ElementId}
    {answer : Except ParseError SemanticId} (hl : Linked s)
    (h : s.create env site rule = .ok (answer, s')) :
    Binds env s (.create site rule) answer s' := by
  rcases create_eq h with ⟨-, ⟨name, rfl⟩, rfl⟩ |
    ⟨classifier, -, ⟨e, -, rfl, rfl⟩ | ⟨element, -, ha⟩⟩
  · exact .of_same (.refl _) rfl nofun
  · exact .of_same (sameBindings_of_eq rfl rfl) rfl nofun
  · obtain ⟨rfl, rfl⟩ := Prod.mk.inj ha
    have hm := steady_make env s classifier
    have hn := siteNode_cases s site
    rw [← hm.current, ← hm.nodes.parent?] at hn
    exact binds_associate (sameBindings_of_eq rfl rfl) (hm.linked hl) hn rfl fun _ => rfl

theorem binds_createWrapper {action : ElementId} {value : Option SemanticId}
    {answer : Except ParseError SemanticId} (hl : Linked s)
    (h : s.createWrapper env action value = .ok (answer, s')) :
    Binds env s (.createWrapper action value) answer s' := by
  rcases createWrapper_eq hl h with ⟨e, rfl, -, hs, -⟩ | ⟨element, t, hs, ht, ha⟩
  · exact .of_same hs rfl nofun
  · obtain ⟨rfl, rfl⟩ := Prod.mk.inj ha
    have hw := hs.trans (sameBindings_wrapCurrent t action)
    exact binds_associate hw (linked_wrapCurrent (ht.linked hl) action) (Or.inl rfl) rfl
      fun _ => rfl

theorem binds_afterRuleCall (env : Setting σ γ) (s : Session σ γ) :
    Binds env s (.command .afterRuleCall) () (s.afterRuleCall env) := by
  cases hp : s.tree.parent? s.current with
  | none =>
    rw [afterRuleCall_of_parent?_eq_none hp]
    refine .kept (.refl s) rfl fun x => ?_
    have hnone : s.absorbed? env = none := by
      rw [absorbed?, hp]
      exact if_neg fun h => absurd h.2 Bool.false_ne_true
    rw [Operation.heir, hnone]
    rfl
  | some p =>
    rw [afterRuleCall_eq hp]
    cases hc : s.absorbed? env with
    | none =>
      refine .kept (sameBindings_of_eq rfl rfl) rfl fun x => ?_
      rw [Operation.heir, hc]
      rfl
    | some child => exact .merged hc hp

theorem binds_perform {c : Command} (h : s.perform env c = .ok s') :
    Binds env s (.command c) () s' := by
  cases c with
  | afterRuleCall =>
    obtain rfl := Except.ok.inj h
    exact binds_afterRuleCall env s
  | enterRule =>
    obtain rfl := Except.ok.inj h
    exact .of_same ⟨(sameButLookahead_enterRule s).semantic, rfl⟩ rfl nofun
  | newComposite element =>
    obtain rfl := Except.ok.inj h
    exact .of_same ⟨Tree.semantic_addComposite, rfl⟩ rfl nofun
  | newLeaf t element =>
    exact .of_same ((leafClosed_sameBindings env).newLeaf h) rfl nofun
  | appendSkipped =>
    obtain rfl := Except.ok.inj h
    exact .of_same ((leafClosed_sameBindings env).appendSkipped s) rfl nofun
  | appendTrailing =>
    obtain rfl := Except.ok.inj h
    exact .of_same ((leafClosed_sameBindings env).appendTrailing s) rfl nofun
  | appendAll =>
    obtain rfl := Except.ok.inj h
    exact .of_same (sameBindings_appendAll env s) rfl nofun
  | report e =>
    obtain rfl := Except.ok.inj h
    exact .of_same (sameBindings_report env s e) rfl nofun
  | recover e =>
    obtain rfl := Except.ok.inj h
    exact .of_same (sameBindings_recover env s e) rfl nofun
  | leaveRule | pushFollow | popFollow | enterGroup | leaveGroup | selectMember
    | returnFromMember =>
    obtain rfl := Except.ok.inj h
    exact .of_same (sameBindings_of_eq rfl rfl) rfl nofun

theorem binds_of_step {answer : op.Answer} (hl : Linked s) (h : s.step env op = .ok (answer, s')) :
    Binds env s op answer s' := by
  cases op with
  | command c => exact binds_perform (perform_of_step h)
  | matchToken expected follow =>
    have hs := sameBindings_matchToken env s expected follow
    rw [Except.ok.inj h] at hs
    exact .of_same hs rfl nofun
  | groupFailure rule group =>
    obtain ⟨_, -, -, rfl⟩ := exists_report_of_groupFailure h
    exact .of_same (sameBindings_report ..) rfl nofun
  | catchError e =>
    have hs := sameBindings_catchError env s e
    rw [Except.ok.inj h] at hs
    exact .of_same hs rfl nofun
  | create site rule => exact binds_create hl h
  | createWrapper action value => exact binds_createWrapper hl h
  | assign source mode a =>
    have hs := sameBindings_assignAt env s mode a (s.sourceNode source)
    rw [assignAt_of_step h] at hs
    exact .of_same hs rfl nofun
  | lookAt | textOf | currentText | errorHere | canSelect | canLeave =>
    obtain ⟨-, rfl⟩ := Prod.mk.inj (Except.ok.inj h)
    exact .of_same (sameBindings_of_eq rfl rfl) rfl nofun

end Step

/-! ## Bindings pass to the heirs -/

/-- Every element that is bound has a primary node, and what was merged away is not bound. -/
structure Tied (A : NodeId → Prop) (s : Session σ γ) : Prop where
  /-- The elements of nodes have primary nodes. -/
  primary : ∀ x e, (s.tree.node x).semantic = some e → (s.primary? e).isSome
  /-- What was merged away has no element. -/
  absorbed : ∀ x, A x → (s.tree.node x).semantic = none

section Heirs

variable {env : Setting σ γ} {A : NodeId → Prop} {s s' : Session σ γ} {op : Operation}
  {answer : op.Answer} {x n child : NodeId} {e : SemanticId}

theorem heir_afterRuleCall (h : s.absorbed? env = some child) (x : NodeId) :
    (Operation.command .afterRuleCall).heir env s x = redirect child s.current x := by
  rw [Operation.heir, h]
  rfl

/-- The heir of a node has its element. -/
theorem Binds.semantic (h : Binds env s op answer s') (hl : Linked s)
    (hx : (s.tree.node x).semantic = some e) :
    (s'.tree.node (op.heir env s x)).semantic = some e := by
  cases h with
  | kept hs _ heir => rw [heir, hs.semantic, hx]
  | bound _ free semantic _ _ heir =>
    rw [heir, semantic]
    split_ifs with hxn
    · rw [free e (hxn ▸ hx)]
    · exact hx
  | merged hc _ =>
    rw [heir_afterRuleCall hc]
    exact semantic_redirect_merge hl (mergeable_of_absorbed? hc) hx

/-- A node that loses its element is merged away. -/
theorem Binds.kept_or_absorbed (h : Binds env s op answer s') (hl : Linked s)
    (hx : (s.tree.node x).semantic = some e) :
    (s'.tree.node x).semantic = some e ∨
      op = .command .afterRuleCall ∧ s.absorbed? env = some x := by
  have hheir := h.semantic hl hx
  cases h with
  | kept hs _ heir => exact Or.inl (by rwa [heir] at hheir)
  | bound _ _ _ _ _ heir => exact Or.inl (by rwa [heir] at hheir)
  | @merged child p hc _ =>
    rw [heir_afterRuleCall hc, redirect] at hheir
    by_cases hxc : x = child
    · exact Or.inr ⟨rfl, hxc ▸ hc⟩
    · exact Or.inl (by rwa [if_neg hxc] at hheir)

/-- The element of a node was that of a node before, or it was just made. -/
theorem Binds.origin (h : Binds env s op answer s') (hl : Linked s)
    (hx : (s'.tree.node x).semantic = some e) :
    (∃ y, (s.tree.node y).semantic = some e) ∨ op.made? answer = some e := by
  cases h with
  | kept hs _ _ => exact Or.inl ⟨x, (hs.semantic x).symm.trans hx⟩
  | bound _ _ semantic _ made _ =>
    rw [semantic] at hx
    split_ifs at hx
    · exact Or.inr (hx ▸ made)
    · exact Or.inl ⟨x, hx⟩
  | @merged child _ hc _ =>
    have hsem : ((s.merge child).tree.node x).semantic = some e := hx
    rw [semantic_merge hl (mergeable_of_absorbed? hc)] at hsem
    split_ifs at hsem
    · rcases Option.or_eq_some_iff.mp hsem with h | ⟨-, h⟩
      · exact Or.inl ⟨_, h⟩
      · exact Or.inl ⟨_, h⟩
    · exact Or.inl ⟨x, hsem⟩

/-- The first pair with a key, after a change that leaves the keys alone. -/
theorem lookup_map {f : SemanticId × NodeId → SemanticId × NodeId} (hf : ∀ p, (f p).1 = p.1)
    (l : List (SemanticId × NodeId)) (e : SemanticId) :
    (l.map f).lookup e = (l.lookup e).map fun n => (f (e, n)).2 := by
  induction l with
  | nil => rfl
  | cons p l ih =>
    obtain ⟨key, x⟩ := p
    have hkey : f (key, x) = (key, (f (key, x)).2) := Prod.ext (hf (key, x)) rfl
    rw [List.map_cons, hkey, List.lookup_cons, List.lookup_cons]
    by_cases he : e = key
    · rw [he, beq_self_eq_true]
      rfl
    · rw [beq_false_of_ne he]
      exact ih

theorem semantic_of_primary? (h : Sound A s) (hn : s.primary? e = some n) :
    (s.tree.node n).semantic = some e := by
  obtain ⟨l₁, l₂, hl, -⟩ := List.lookup_eq_some_iff.mp hn
  have hmem : (e, n) ∈ s.primary := by
    rw [hl]
    exact List.mem_append_right _ List.mem_cons_self
  exact (h.primary _ hmem).2.2

/-- The primary node of an element passes to its heir. -/
theorem Binds.primary? (h : Binds env s op answer s') (hs : Sound A s)
    (hn : s.primary? e = some n) : s'.primary? e = some (op.heir env s n) := by
  cases h with
  | kept h _ heir => rw [heir, Session.primary?, h.primary, ← Session.primary?, hn]
  | bound _ _ _ primary _ heir =>
    rw [heir, Session.primary?, primary]
    split_ifs
    · exact hn
    · rw [List.lookup_append]
      exact congrArg (Option.or · _) hn
  | @merged child p hc hp =>
    have hmap (a : SemanticId × NodeId) :
        (if some a.1 = (s.tree.node child).semantic then (a.1, redirect child s.current a.2)
          else a).1 = a.1 := by
      split_ifs <;> rfl
    have hlookup := lookup_map hmap s.primary e
    rw [← Session.primary?, hn] at hlookup
    refine hlookup.trans (congrArg some ?_)
    rw [heir_afterRuleCall hc]
    dsimp only
    split_ifs with he
    · rfl
    · have hne : n ≠ child := fun h => he (h ▸ (semantic_of_primary? hs hn).symm)
      exact (if_neg hne).symm

/-- The first node of an element becomes its primary node. -/
theorem Binds.first (h : Binds env s op answer s') (hs : Sound A s)
    (hbefore : ∀ y, (s.tree.node y).semantic ≠ some e) (hx : (s'.tree.node x).semantic = some e) :
    s'.primary? e = some x := by
  have hmade := (h.origin hs.toLinked hx).resolve_left fun ⟨y, hy⟩ => hbefore y hy
  have hnone : s.primary? e = none := by
    rw [Option.eq_none_iff_forall_ne_some]
    exact fun n hn => hbefore n (semantic_of_primary? hs hn)
  cases h with
  | kept _ made _ =>
    rw [made] at hmade
    cases hmade
  | bound _ _ semantic primary made _ =>
    obtain rfl := Option.some.inj (made.symm.trans hmade)
    have hxn := semantic x
    split_ifs at hxn with heq
    · rw [Session.primary?, primary, hnone, heq]
      rw [Session.primary?] at hnone
      simp [List.lookup_append, hnone]
    · exact absurd (hxn.symm.trans hx) (hbefore x)
  | merged => cases hmade

/-- An element that was made is bound. -/
theorem Binds.exists_of_made (h : Binds env s op answer s') (hmade : op.made? answer = some e) :
    ∃ y, (s'.tree.node y).semantic = some e := by
  cases h with
  | kept _ made _ =>
    rw [made] at hmade
    cases hmade
  | @bound _ _ _ y _ _ _ semantic _ made _ =>
    obtain rfl := Option.some.inj (made.symm.trans hmade)
    exact ⟨y, (semantic y).trans (if_pos rfl)⟩
  | merged => cases hmade

/-- What has an element was not merged away and has a primary node. -/
theorem Tied.step (ht : Tied A s) (hs : Sound A s) {A' : NodeId → Prop} (hs' : Sound A' s')
    (hA : ∀ y, A' y → A y ∨ op = .command .afterRuleCall ∧ s.absorbed? env = some y)
    (h : Binds env s op answer s') : Tied A' s' := by
  constructor
  · intro x e hx
    rcases h.origin hs.toLinked hx with ⟨y, hy⟩ | hmade
    · obtain ⟨n, hn⟩ := Option.isSome_iff_exists.mp (ht.primary y e hy)
      rw [h.primary? hs hn]
      rfl
    · cases h with
      | kept _ made _ =>
        rw [made] at hmade
        cases hmade
      | bound _ _ _ primary made _ =>
        obtain rfl := Option.some.inj (made.symm.trans hmade)
        rw [Session.primary?, primary]
        split_ifs with hsome
        · exact hsome
        · simp [List.lookup_append]
      | merged => cases hmade
  · intro y hy
    have hold (heir : ∀ x, op.heir env s x = x) : A y := by
      rcases hA y hy with hy | ⟨rfl, hc⟩
      · exact hy
      · have hself := heir y
        rw [heir_afterRuleCall hc, redirect, if_pos rfl] at hself
        exact absurd hself.symm ((mergeable_of_absorbed? hc).ne hs.wellFormed)
    cases h with
    | kept h _ heir => rw [h.semantic, ht.absorbed y (hold heir)]
    | @bound _ _ _ x _ place _ semantic _ _ heir =>
      have hyx : y ≠ x := by
        rintro rfl
        rcases place with rfl | hp
        · exact hs'.intact.current hy
        · exact hs'.intact.not_absorbed_of_mem_children (hs'.wellFormed.mem_of_parent? hp) hy
      rw [semantic, if_neg hyx, ht.absorbed y (hold heir)]
    | @merged child p hc hp =>
      show ((s.merge child).tree.node y).semantic = none
      rw [semantic_merge hs.toLinked (mergeable_of_absorbed? hc)]
      rcases hA y hy with hy | ⟨-, hy⟩
      · have hyc : y ≠ s.current := fun h => hs.intact.current (h ▸ hy)
        rw [if_neg hyc, ht.absorbed y hy]
        exact ite_self _
      · obtain rfl := Option.some.inj (hc.symm.trans hy)
        rw [if_neg ((mergeable_of_absorbed? hc).ne hs.wellFormed), if_pos rfl]

end Heirs

/-! ## Runs -/

section Reaches

variable {env : Setting σ γ} {s t : Session σ γ} {ts us vs : List (Transition σ γ)}
  {tr : Transition σ γ} {factory : σ} {groups : γ} {x n : NodeId} {e : SemanticId}

theorem semantic_start (env : Setting σ γ) (factory : σ) (groups : γ) (x : NodeId) :
    ((start env factory groups).tree.node x).semantic = none := by
  show (Tree.empty.node x).semantic = none
  rw [Tree.node_empty]
  rfl

/-- What is bound in a reachable session has a primary node and was not merged away. -/
theorem tied_of_reaches (h : Reaches env (start env factory groups) ts s) :
    Tied (Absorbed env ts) s := by
  induction h with
  | start =>
    have hfree := semantic_start env factory groups
    exact ⟨fun x e hx => absurd ((hfree x).symm.trans hx) (by simp), fun x _ => hfree x⟩
  | @step ts s s' op answer hrun hs ih =>
    have hsound := sound_of_reaches hrun
    refine ih.step hsound (sound_of_reaches (.step hrun hs)) ?_
      (binds_of_step hsound.toLinked hs)
    rintro y ⟨tr, htr, hop, hc⟩
    rcases List.mem_append.mp htr with htr | htr
    · exact Or.inl ⟨tr, htr, hop, hc⟩
    · obtain rfl := List.mem_singleton.mp htr
      exact Or.inr ⟨hop, hc⟩

theorem heir_concat : heir env (ts ++ [tr]) x = tr.heir env (heir env ts x) := by
  rw [heir, List.foldl_append]
  rfl

/-- An element stays with the heir of its node. -/
theorem semantic_heir (h : Reaches env (start env factory groups) us s) (h' : Reaches env s vs t)
    (hx : (s.tree.node x).semantic = some e) :
    (t.tree.node (heir env vs x)).semantic = some e := by
  induction h' with
  | start => exact hx
  | step hrun hs ih =>
    rw [heir_concat]
    have hl := (sound_of_reaches (h.trans hrun)).toLinked
    exact (binds_of_step hl hs).semantic hl ih

/-- The primary node of an element stays the heir of the first one. -/
theorem primary?_heir (h : Reaches env (start env factory groups) us s) (h' : Reaches env s vs t)
    (hn : s.primary? e = some n) : t.primary? e = some (heir env vs n) := by
  induction h' with
  | start => exact hn
  | step hrun hs ih =>
    rw [heir_concat]
    have hsound := sound_of_reaches (h.trans hrun)
    exact (binds_of_step hsound.toLinked hs).primary? hsound ih

/-- An element that is bound was bound to some node first. -/
theorem exists_firstBinds (h : Reaches env (start env factory groups) ts s)
    (hx : (s.tree.node x).semantic = some e) :
    ∃ us tr vs y, ts = us ++ tr :: vs ∧ tr.FirstBinds e y := by
  induction h generalizing x with
  | start => exact absurd ((semantic_start env factory groups x).symm.trans hx) (by simp)
  | @step ts s s' op answer hrun hs ih =>
    by_cases hold : ∃ y, (s.tree.node y).semantic = some e
    · obtain ⟨y, hy⟩ := hold
      obtain ⟨us, tr, vs, z, rfl, hz⟩ := ih hy
      exact ⟨us, tr, vs ++ [⟨s, op, answer, s'⟩], z, by simp, hz⟩
    · exact ⟨ts, _, [], x, rfl, fun y hy => hold ⟨y, hy⟩, hx⟩

/-- The operations of a history are called on well-formed trees. -/
theorem linked_of_mem (h : Reaches env (start env factory groups) ts s) (ht : tr ∈ ts) :
    Linked tr.before := by
  obtain ⟨us, vs, rfl⟩ := List.append_of_mem ht
  exact linked_of_reaches (linked_start env factory groups) h.split.1

/-- A node that was ever bound to an element has an heir in the tree with that element. -/
theorem mem_descendants_heir {d : ℕ}
    (h : Reaches env (start env factory groups) (us ++ tr :: vs) s) (hr : Rooted s d)
    (hx : (tr.after.tree.node x).semantic = some e) :
    heir env vs x ∈ s.tree.descendants Tree.root ∧
      (s.tree.node (heir env vs x)).semantic = some e := by
  obtain ⟨hus, hstep, hvs⟩ := h.split
  have hheir := semantic_heir (.step hus hstep) hvs hx
  have hcontains : s.tree.Contains (heir env vs x) := by
    by_contra hc
    rw [Tree.node_of_not_contains hc] at hheir
    cases hheir
  have hremains : ¬ Absorbed env (us ++ tr :: vs) (heir env vs x) := fun ha =>
    absurd (((tied_of_reaches h).absorbed _ ha).symm.trans hheir) (by simp)
  exact ⟨(Tree.mem_descendants_iff hr.wellFormed hr.contains_root).mpr
    ((sound_of_reaches h).intact.below_root hr.wellFormed hr.root hcontains hremains), hheir⟩

/-- The primary node of an element that was made is the heir of the node that was bound to it
first. -/
theorem primary?_of_made (h : Reaches env (start env factory groups) ts s) (ht : tr ∈ ts)
    (hm : tr.made? = some e) : ∃ us u vs x, ts = us ++ u :: vs ∧ u.FirstBinds e x ∧
      s.primary? e = some (heir env vs x) := by
  obtain ⟨us, vs, rfl⟩ := List.append_of_mem ht
  obtain ⟨hus, hstep, hvs⟩ := h.split
  obtain ⟨y, hy⟩ := (binds_of_step (sound_of_reaches hus).toLinked hstep).exists_of_made hm
  obtain ⟨us', u, vs', x, hsplit, hfirst⟩ :=
    exists_firstBinds h (semantic_heir (.step hus hstep) hvs hy)
  obtain ⟨hus', hstep', hvs'⟩ := (hsplit ▸ h).split
  have hsound := sound_of_reaches hus'
  have hprimary := (binds_of_step hsound.toLinked hstep').first hsound hfirst.before hfirst.after
  exact ⟨us', u, vs', x, hsplit, hfirst, primary?_heir (.step hus' hstep') hvs' hprimary⟩

end Reaches

section Parse

variable {env : Setting σ γ} {t : Session σ γ} {factory : σ} {groups : γ} {rule : ElementId}
  {p : RuleProcedure} {parse : Parse}

/-- In a completed parse of a procedure that closes no more composites than it opened, every element
that was made is that of a node of the tree, which is its primary node: the heir of the node that
was bound to it first. Every node that was ever bound to an element has an heir in the tree with
that element. No operation binds a bound node to another element: a creation that would answers so
and changes neither tree nor primary nodes, and an action binds a new node. -/
theorem bindings_of_parse
    (hb : Balanced (p.history env ((start env factory groups).openEntry env rule)))
    (h : (start env factory groups).parse env rule p = .ok (.ok parse, t)) :
    let ts := (topLevel rule p).history env (start env factory groups)
    Reaches env (start env factory groups) ts t ∧
      (∀ tr ∈ ts, ∀ e, tr.made? = some e → ∃ n, parse.syntaxTree.nodeFor? e = some n ∧
        n ∈ parse.syntaxTree.nodes ∧ (parse.syntaxTree.tree.node n).semantic = some e ∧
          ∃ us u vs x, ts = us ++ u :: vs ∧ u.FirstBinds e x ∧ n = heir env vs x) ∧
      (∀ us u vs x e, ts = us ++ u :: vs → (u.after.tree.node x).semantic = some e →
        heir env vs x ∈ parse.syntaxTree.nodes ∧
          (parse.syntaxTree.tree.node (heir env vs x)).semantic = some e) ∧
      (∀ tr ∈ ts, ∀ x e, (tr.before.tree.node x).semantic = some e →
        (tr.after.tree.node x).semantic = some e ∨
          tr.op = .command .afterRuleCall ∧ tr.before.absorbed? env = some x) ∧
      (∀ s site rule (answer : Except ParseError SemanticId) s',
        (⟨s, .create site rule, answer, s'⟩ : Transition σ γ) ∈ ts → ∀ x,
          (answer = .error (.reassignment x) ↔ x = s.siteNode site ∧ s.Clashes env rule x) ∧
            (answer = .error (.reassignment x) → s'.tree = s.tree ∧ s'.primary = s.primary)) ∧
      ∀ s action value (answer : Except ParseError SemanticId) s',
        (⟨s, .createWrapper action value, answer, s'⟩ : Transition σ γ) ∈ ts → ∀ x,
          answer ≠ .error (.reassignment x) := by
  intro ts
  obtain ⟨element, s, hr, rfl, rfl⟩ := exists_run_of_parse_eq_ok h
  have hrun : Reaches env (start env factory groups) ts (s.finish env) :=
    Procedure.reaches_history (run_topLevel hr)
  have hrooted := (rooted_of_reaches (rooted_openEntry env factory groups rule)
    (Procedure.reaches_history hr) hb).finish env
  refine ⟨hrun, ?_, ?_, ?_, ?_, ?_⟩
  · intro tr htr e hmade
    obtain ⟨us, u, vs, x, hsplit, hfirst, hprimary⟩ := primary?_of_made hrun htr hmade
    obtain ⟨hmem, hsem⟩ := mem_descendants_heir (hsplit ▸ hrun) hrooted hfirst.after
    exact ⟨_, hprimary, hmem, hsem, us, u, vs, x, hsplit, hfirst, rfl⟩
  · intro us u vs x e hsplit hx
    exact mem_descendants_heir (hsplit ▸ hrun) hrooted hx
  · intro tr htr x e hx
    have hl := linked_of_mem hrun htr
    exact (binds_of_step hl (step_of_mem hrun htr)).kept_or_absorbed hl hx
  · intro s₁ site rule answer s₂ htr x
    have hstep := step_of_mem hrun htr
    refine ⟨reassignment_iff hstep x, ?_⟩
    rintro rfl
    exact create_error hstep
  · intro s₁ action value answer s₂ htr x
    exact createWrapper_ne_reassignment (linked_of_mem hrun htr) (step_of_mem hrun htr) x

namespace Sample

/-- Makes an element in a composite that another one absorbs, and the same element again in the
composite of the entry rule. -/
def reuse : RuleProcedure :=
  (callRule ⟨0⟩ <| callRule ⟨0⟩ <| .call (.create .current ⟨0⟩) fun _ =>
    word ⟨5⟩ ⟨2⟩ (.pure (.ok none))).bind fun _ =>
  .call (.create .current ⟨0⟩) fun _ => word ⟨7⟩ ⟨4⟩ (.pure (.ok none))

end Sample

open Sample in
/-- In the sample the first node of the element is absorbed, and the one that absorbed it is the
primary node. -/
theorem bindings_of_reuse : ∃ parse t,
    session.parse setting ⟨0⟩ reuse = .ok (.ok parse, t) ∧
    heir setting ((topLevel ⟨0⟩ reuse).history setting session) ⟨3⟩ = ⟨2⟩ ∧
    parse.syntaxTree.nodeFor? ⟨0⟩ = some ⟨2⟩ ∧
    ∃ n, parse.syntaxTree.nodeFor? ⟨0⟩ = some n ∧ n ∈ parse.syntaxTree.nodes ∧
      (parse.syntaxTree.tree.node n).semantic = some ⟨0⟩ := by
  have hb : Balanced (reuse.history setting (session.openEntry setting ⟨0⟩)) := by decide +kernel
  have hmade : ∃ tr ∈ (topLevel ⟨0⟩ reuse).history setting session, tr.made? = some ⟨0⟩ := by
    decide +kernel
  have hcompleted : ((session.parse setting ⟨0⟩ reuse).toOption.bind (·.1.toOption)).any
      fun parse => parse.syntaxTree.nodeFor? ⟨0⟩ = some ⟨2⟩ := by
    decide +kernel
  obtain ⟨parse, t, hparse, hprimary⟩ := exists_parse_of_any hcompleted
  obtain ⟨tr, htr, htrmade⟩ := hmade
  obtain ⟨n, hn, hmem, hsem, -⟩ := (bindings_of_parse hb hparse).2.1 tr htr ⟨0⟩ htrmade
  exact ⟨parse, t, hparse, by decide +kernel, of_decide_eq_true hprimary, n, hn, hmem, hsem⟩

end Parse

end ParseTree
