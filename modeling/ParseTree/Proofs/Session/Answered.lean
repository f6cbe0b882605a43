import ParseTree.Proofs.Session.Abreast
import ParseTree.Proofs.Session.Lockstep
import ParseTree.Proofs.Session.Opened

/-!
# Answers in two streams

Two sessions that read streams with the same visible tokens are in step if recognition is abreast,
the same message waits, and the open composites are alike. Then every operation is answered the
same, and recognition stays abreast.

## Main definitions

* `Session.Counterpart`: the sessions are in step
* `Replied`: two computations fail alike, or answer the same and leave the sessions abreast

## Main results

* `Session.Counterpart.replied`: every operation is answered the same
-/

namespace ParseTree

open Session TokenStream

variable {σ γ : Type}

/-- The open composites of the sessions are alike, with nodes renumbered. -/
structure Opened (ts ts' : TokenStream) (R : NodeId → NodeId → Prop) (s u : Session σ γ) :
    Prop where
  /-- The open composites and those above them cannot be told apart. -/
  alike : OpenAlike ts ts' R s.tree u.tree s.current u.current
  /-- Nodes are renumbered. -/
  order : PreservesOrder R
  /-- They are nodes of the trees. -/
  contains : ∀ x y, R x y → s.tree.Contains x ∧ u.tree.Contains y

/-- The sessions are in step. -/
structure Session.Counterpart (ts ts' : TokenStream) (R : NodeId → NodeId → Prop)
    (s u : Session σ γ) : Prop where
  /-- They are at the same place and expect the same. -/
  abreast : Abreast ts ts' s.bearings u.bearings
  /-- As many visible tokens have their leaves. -/
  nextToken : ts.rank s.nextToken = ts'.rank u.nextToken
  /-- The same message waits for a leaf. -/
  pending : s.pending = u.pending
  /-- The open composites are alike. -/
  opened : Opened ts ts' R s u

/-- The operations fail alike, or they answer the same and leave the sessions abreast. -/
inductive Replied (ts ts' : TokenStream) (R : NodeId → NodeId → Prop) (op op' : Operation) :
    Except WalkFault (op.Answer × Session σ γ) → Except WalkFault (op'.Answer × Session σ γ) →
      Prop
  /-- Both fail. -/
  | fault (fault : WalkFault) : Replied ts ts' R op op' (.error fault) (.error fault)
  /-- Both answer. -/
  | answer {a : op.Answer} {a' : op'.Answer} {s u : Session σ γ}
    (ha : Operation.Reply ts ts' R op op' a a') (hb : Abreast ts ts' s.bearings u.bearings)
    (hn : ts.rank s.nextToken = ts'.rank u.nextToken) :
    Replied ts ts' R op op' (.ok (a, s)) (.ok (a', u))

section Replied

variable {env : Setting σ γ} {ts ts' : TokenStream} {R : NodeId → NodeId → Prop}
  {s s' u u' : Session σ γ} {op op' : Operation}

/-- Operations that make no leaves. -/
theorem Replied.of_lastToken {a : op.Answer} {a' : op'.Answer}
    (hn : ts.rank s.nextToken = ts'.rank u.nextToken) (ha : Operation.Reply ts ts' R op op' a a')
    (hb : Abreast ts ts' s'.bearings u'.bearings) (hs : s'.lastToken = s.lastToken)
    (hu : u'.lastToken = u.lastToken) : Replied ts ts' R op op' (.ok (a, s')) (.ok (a', u')) :=
  .answer ha hb (by rw [nextToken_congr hs, nextToken_congr hu, hn])

/-- Composites that are alike take the same elements. -/
theorem NodeAlike.associate {x y : NodeId} (h : NodeAlike ts ts' R s.tree u.tree x y)
    (element : SemanticId) :
    Outcomes (ParseError.Counterpart ts ts' R) Eq (s.associate x element).1
      (u.associate y element).1 := by
  have hs := associate_cases s x element
  rw [h.semantic] at hs
  rcases hs with ⟨other, ho, hne, ha⟩ | ⟨hfree, _, -, ha⟩ <;>
    rcases associate_cases u y element with ⟨other', ho', hne', ha'⟩ | ⟨hfree', _, -, ha'⟩ <;>
    rw [ha, ha']
  · exact .error h.related
  · exact absurd (hfree' other ho) hne
  · exact absurd (hfree other' ho') hne'
  · exact .ok rfl

/-- The element of a rule is bound to composites that are alike. -/
theorem OpenAlike.siteNode (h : OpenAlike ts ts' R s.tree u.tree s.current u.current)
    (site : BindingSite) :
    NodeAlike ts ts' R s.tree u.tree (s.siteNode site) (u.siteNode site) := by
  cases site with
  | current => exact h.nodeAlike
  | parent =>
    rw [Session.siteNode, Session.siteNode]
    cases h with
    | root h hx hy =>
      rw [hx, hy]
      exact h
    | child _ hx hy up =>
      rw [hx, hy]
      exact up.nodeAlike

theorem lastToken_associate (s : Session σ γ) (node : NodeId) (element : SemanticId) :
    (s.associate node element).2.lastToken = s.lastToken := by
  rw [Session.associate]
  split <;> rfl

theorem Abreast.associate (h : Abreast ts ts' s.bearings u.bearings) (x y : NodeId)
    (element : SemanticId) :
    Abreast ts ts' (s.associate x element).2.bearings (u.associate y element).2.bearings := by
  rw [bearings_associate, bearings_associate]
  exact h

/-- A wrapper is new and takes any element. -/
theorem Replied.wrapCurrent (h : Abreast ts ts' s.bearings u.bearings)
    (hn : ts.rank s.nextToken = ts'.rank u.nextToken) (action : ElementId)
    (value : Option SemanticId) (element : SemanticId) :
    Replied ts ts' R (.createWrapper action value) (.createWrapper action value)
      (.ok ((s.wrapCurrent action).associate s.tree.nextId element))
      (.ok ((u.wrapCurrent action).associate u.tree.nextId element)) := by
  have hw : Abreast ts ts' (s.wrapCurrent action).bearings (u.wrapCurrent action).bearings := h
  have hb := hw.associate s.tree.nextId u.tree.nextId element
  have hs := lastToken_associate (s.wrapCurrent action) s.tree.nextId element
  have hu := lastToken_associate (u.wrapCurrent action) u.tree.nextId element
  have ha := associate_wrapCurrent s action element
  have ha' := associate_wrapCurrent u action element
  generalize (s.wrapCurrent action).associate s.tree.nextId element = r at hb hs ha ⊢
  generalize (u.wrapCurrent action).associate u.tree.nextId element = r' at hb hu ha' ⊢
  obtain ⟨result, t⟩ := r
  obtain ⟨result', t'⟩ := r'
  obtain rfl : result = .ok element := ha
  obtain rfl : result' = .ok element := ha'
  exact .of_lastToken hn (.ok rfl) hb hs hu

end Replied

/-! ## Semantic actions -/

section Actions

variable {env : Setting σ γ} {ts : TokenStream} {R : NodeId → NodeId → Prop} {s u : Session σ γ}

/-- The factories make the same of a classifier. -/
theorem Abreast.make (h : Abreast env.stream ts s.bearings u.bearings) (classifier : String) :
    ∃ (result : Except ConversionError SemanticId) (factory : σ),
      s.make env classifier = (result.mapError .internal, { s with factory }) ∧
      u.make (env.reading ts) classifier = (result.mapError .internal, { u with factory }) ∧
      Abreast env.stream ts { s with factory }.bearings { u with factory }.bearings := by
  have hfactory : s.factory = u.factory := h.factory
  refine ⟨(env.factory.create classifier s.factory).1, (env.factory.create classifier s.factory).2,
    rfl, ?_, { h with factory := rfl }⟩
  rw [hfactory]
  rfl

namespace Session.Counterpart

variable (hc : Session.Counterpart env.stream ts R s u)

include hc

/-- The creation of an element is answered the same. -/
theorem replied_create (site : BindingSite) (rule : ElementId) :
    Replied env.stream ts R (.create site rule) (.create site rule) (s.create env site rule)
      (u.create (env.reading ts) site rule) := by
  rw [Session.create, Session.create, show (env.reading ts).grammar = env.grammar from rfl]
  cases env.grammar.visit rule with
  | error fault => exact .fault fault
  | ok _ =>
    cases env.grammar.ruleClassifier? rule with
    | none =>
      cases env.grammar.describe rule with
      | error fault => exact .fault fault
      | ok name => exact .answer (.error rfl) hc.abreast hc.nextToken
    | some classifier =>
      obtain ⟨result, factory, hs, hu, hb⟩ := hc.abreast.make classifier
      dsimp only [bind, Except.bind]
      rw [hs, hu]
      cases result with
      | error e => exact .answer (.error rfl) hb hc.nextToken
      | ok element =>
        have halike : NodeAlike env.stream ts R { s with factory }.tree { u with factory }.tree
          (s.siteNode site) (u.siteNode site) := hc.opened.alike.siteNode site
        exact .of_lastToken hc.nextToken (halike.associate element)
          (hb.associate _ _ element) (lastToken_associate ..) (lastToken_associate ..)

end Session.Counterpart

end Actions

/-! ## Values -/

section Values

variable {env : Setting Model γ} {ts : TokenStream} {R : NodeId → NodeId → Prop}
  {s u : Session Model γ}

theorem bearings_refuse (env : Setting σ γ) (s : Session σ γ) (e : ConversionError) :
    (s.refuse env e).2.bearings = s.bearings := by
  rw [refuse]
  split_ifs <;> rfl

/-- Values that are read from different nodes have the same fate in a model. -/
theorem Abreast.assignAt (hmod : env.modelled = env)
    (h : Abreast env.stream ts s.bearings u.bearings) (mode : AssignMode) (a : Assignment)
    (x y : NodeId) :
    Outcomes (ParseError.Counterpart env.stream ts R) Eq (s.assignAt env mode a x).1
        (u.assignAt (env.reading ts) mode a y).1 ∧
      Abreast env.stream ts (s.assignAt env mode a x).2.bearings
        (u.assignAt (env.reading ts) mode a y).2.bearings := by
  have hfactory : s.factory = u.factory := h.factory
  have hrename := Model.store_rename u.factory a (mode.edit a) x fun _ => y
  rw [← hmod, show (env.modelled.reading ts) = (env.reading ts).modelled from rfl,
    assignAt_modelled, assignAt_modelled, hfactory, hrename]
  cases hstore : u.factory.store a (mode.edit a) x with
  | ok factory => exact ⟨.ok rfl, { h with factory := rfl }⟩
  | error e =>
    refine ⟨?_, ?_⟩
    · have hinternal : (e.rename fun _ => y).isInternal = e.isInternal := rfl
      dsimp only [Except.mapError]
      rw [refuse, refuse, hinternal]
      split_ifs with hi
      · obtain ⟨message, node, isInternal⟩ := e
        obtain rfl : node = none := Model.node_eq_none_of_store hstore hi
        exact .error rfl
      · exact .ok rfl
    · dsimp only [Except.mapError]
      rw [bearings_refuse, bearings_refuse]
      exact h

theorem Abreast.assignAction (hmod : env.modelled = env)
    (h : Abreast env.stream ts s.bearings u.bearings) (element : SemanticId)
    (assigned : Option (String × AssignOp)) (value : Option SemanticId) :
    Outcomes (ParseError.Counterpart env.stream ts R) Eq
        (s.assignAction env element assigned value).1
        (u.assignAction (env.reading ts) element assigned value).1 ∧
      Abreast env.stream ts (s.assignAction env element assigned value).2.bearings
        (u.assignAction (env.reading ts) element assigned value).2.bearings := by
  unfold Session.assignAction
  split
  · exact h.assignAt hmod ..
  · exact ⟨.ok rfl, h⟩

namespace Session.Counterpart

variable (hmod : env.modelled = env) (hl : Linked s) (hl' : Linked u)
  (hc : Session.Counterpart env.stream ts R s u)

include hmod hl hl' hc

theorem replied_assign (source : ValueSource) (mode : AssignMode) (a : Assignment) :
    Replied env.stream ts R (.assign source mode a) (.assign source mode a)
      (.ok (s.assign env source mode a)) (.ok (u.assign (env.reading ts) source mode a)) := by
  obtain ⟨ha, hb⟩ := hc.abreast.assignAt (R := R) hmod mode a (s.sourceNode source)
    (u.sourceNode source)
  exact .of_lastToken hc.nextToken ha hb (steady_assignAt env hl ..).lastToken
    (steady_assignAt (env.reading ts) hl' ..).lastToken

/-- An action is answered the same. -/
theorem replied_createWrapper (action : ElementId) (value : Option SemanticId) :
    Replied env.stream ts R (.createWrapper action value) (.createWrapper action value)
      (s.createWrapper env action value) (u.createWrapper (env.reading ts) action value) := by
  rw [Session.createWrapper, Session.createWrapper,
    show (env.reading ts).grammar = env.grammar from rfl]
  cases env.grammar.visit action with
  | error fault => exact .fault fault
  | ok entry =>
    dsimp only [bind, Except.bind]
    split
    · next classifier assigned _ =>
      obtain ⟨result, factory, hs, hu, hb⟩ := hc.abreast.make classifier
      rw [hs, hu]
      cases result with
      | error e => exact .answer (.error rfl) hb hc.nextToken
      | ok element =>
        have hm := steady_make env s classifier
        have hm' := steady_make (env.reading ts) u classifier
        rw [hs] at hm
        rw [hu] at hm'
        have hassign : Steady s (Session.assignAction env { s with factory } element assigned
            value).2 := hm.trans (steady_assignAction env (hm.linked hl))
        have hassign' : Steady u (Session.assignAction (env.reading ts) { u with factory } element
            assigned value).2 := hm'.trans (steady_assignAction (env.reading ts) (hm'.linked hl'))
        obtain ⟨ha, hb⟩ := hb.assignAction (R := R) hmod element assigned value
        dsimp only [Except.mapError] at ha hb hassign hassign' ⊢
        generalize Session.assignAction env { s with factory } element assigned value = r
          at ha hb hassign ⊢
        generalize Session.assignAction (env.reading ts) { u with factory } element assigned value =
          r' at ha hb hassign' ⊢
        obtain ⟨result, s'⟩ := r
        obtain ⟨result', u'⟩ := r'
        have hlast : s'.lastToken = s.lastToken := hassign.lastToken
        have hlast' : u'.lastToken = u.lastToken := hassign'.lastToken
        cases ha with
        | error he => exact .of_lastToken hc.nextToken (.error he) hb hlast hlast'
        | ok _ =>
          have hn : env.stream.rank s'.nextToken = ts.rank u'.nextToken := by
            rw [nextToken_congr hlast, nextToken_congr hlast', hc.nextToken]
          exact .wrapCurrent hb hn action value element
    · cases env.grammar.describe action with
      | error fault => exact .fault fault
      | ok name => exact .answer (.error rfl) hc.abreast hc.nextToken

end Session.Counterpart

end Values

/-! ## All operations -/

section Step

variable {ts : TokenStream} {R : NodeId → NodeId → Prop}

section Recognition

variable {env : Setting σ γ} {s u : Session σ γ} (h : env.stream.Agrees ts)
  (hc : Session.Counterpart env.stream ts R s u)

include h hc

namespace Session.Counterpart

omit h in
theorem currentText : s.currentText env = u.currentText (env.reading ts) := by
  rw [currentText_eq, currentText_eq, hc.opened.alike.nodeAlike.wording]
  rfl

theorem replied_newLeaf {t t' : Token} (ht : Token.Counterpart env.stream ts t t')
    (element : ElementId) :
    Replied env.stream ts R (.command (.newLeaf t element)) (.command (.newLeaf t' element))
      (s.step env (.command (.newLeaf t element)))
      (u.step (env.reading ts) (.command (.newLeaf t' element))) := by
  rcases rank_newLeaf h hc.nextToken ht element with ⟨fault, hs, hu⟩ | ⟨s', u', hs, hu, hn⟩
  · rw [step, step, perform, perform, hs, hu]
    exact .fault fault
  · rw [step, step, perform, perform, hs, hu]
    have hbs : s'.bearings = s.bearings := (leafClosed_bearings env).newLeaf hs
    have hbu : u'.bearings = u.bearings := (leafClosed_bearings (env.reading ts)).newLeaf hu
    exact .answer trivial (hbs ▸ hbu ▸ hc.abreast) hn

/-- A recovery is answered the same, and the skipped tokens get their leaves. -/
theorem replied_catchError {e e' : ParseError} (he : ParseError.Counterpart env.stream ts R e e') :
    Replied env.stream ts R (.catchError e) (.catchError e') (.ok (s.catchError env e))
      (.ok (u.catchError (env.reading ts) e')) := by
  cases e with
  | recognition e =>
    cases e' with
    | recognition e' =>
      have hb := hc.abreast.recover h e e'
      have hn : env.stream.rank (s.recover env e).nextToken =
          ts.rank (u.recover (env.reading ts) e').nextToken := by
        rw [nextToken_congr (steady_recover env s e).lastToken,
          nextToken_congr (steady_recover (env.reading ts) u e').lastToken, hc.nextToken]
      exact .answer (.ok rfl) hb.appendSkipped (rank_appendSkipped h hn hb.cursor)
    | _ => cases he
  | reassignment x =>
    cases e' with
    | reassignment y => exact .answer (.error he) hc.abreast hc.nextToken
    | _ => cases he
  | internal | unknownRule | duplicateRule | invariant =>
    cases he
    exact .answer (.error rfl) hc.abreast hc.nextToken

/-- A command that says nothing of tokens. -/
theorem replied_command {c : Command} (hop : Operation.IsPlain (.command c))
    (ht : c = .appendTrailing → Operation.IsTidy env s (.command c)) :
    Replied env.stream ts R (.command c) (.command c) (s.step env (.command c))
      (u.step (env.reading ts) (.command c)) := by
  have hb := hc.abreast
  have hn := hc.nextToken
  cases c with
  | newLeaf | report | recover => exact hop.elim
  | enterRule | leaveRule =>
    exact .of_lastToken hn trivial (hb.withCursor hb.cursor.forget) rfl rfl
  | newComposite => exact .of_lastToken hn trivial hb rfl rfl
  | afterRuleCall =>
    refine .of_lastToken hn trivial ?_ (lastToken_afterRuleCall ..) (lastToken_afterRuleCall ..)
    rw [bearings_afterRuleCall, bearings_afterRuleCall]
    exact hb
  | pushFollow set =>
    exact .of_lastToken hn trivial { hb with follow := congrArg (set :: ·) hb.follow } rfl rfl
  | popFollow =>
    exact .of_lastToken hn trivial { hb with follow := congrArg List.tail hb.follow } rfl rfl
  | appendSkipped =>
    exact .answer trivial hb.appendSkipped (rank_appendSkipped h hn hb.cursor)
  | appendTrailing =>
    exact .answer trivial hb.appendTrailing (rank_appendTrailing h hn hb.cursor (ht rfl))
  | appendAll =>
    refine .answer trivial ?_ (rank_appendAll h s u)
    rw [bearings_appendAll, bearings_appendAll]
    exact hb.withCursor (hb.cursor.finish h)
  | enterGroup group =>
    exact .of_lastToken hn trivial
      { hb with groups := congrArg (env.groups.enter group) hb.groups } rfl rfl
  | leaveGroup group =>
    exact .of_lastToken hn trivial
      { hb with groups := congrArg (env.groups.leave group) hb.groups } rfl rfl
  | selectMember group member =>
    exact .of_lastToken hn trivial
      { hb with groups := congrArg (env.groups.select group member) hb.groups } rfl rfl
  | returnFromMember group =>
    exact .of_lastToken hn trivial
      { hb with groups := congrArg (env.groups.returnFrom group) hb.groups } rfl rfl

theorem replied_groupFailure (rule group : ElementId) :
    Replied env.stream ts R (.groupFailure rule group) (.groupFailure rule group)
      (s.groupFailure env rule group) (u.groupFailure (env.reading ts) rule group) := by
  rw [Session.groupFailure, Session.groupFailure,
    show (env.reading ts).grammar = env.grammar from rfl]
  cases env.grammar.visit rule with
  | error fault => exact .fault fault
  | ok _ =>
    cases env.grammar.describe group with
    | error fault => exact .fault fault
    | ok description =>
      exact .of_lastToken hc.nextToken (hc.abreast.errorHere h rfl) (hc.abreast.report ..)
        (steady_report ..).lastToken (steady_report ..).lastToken

end Session.Counterpart

end Recognition

/-- Every operation is answered the same and leaves the sessions abreast. -/
theorem Session.Counterpart.replied {env : Setting Model γ} {s u : Session Model γ}
    {op op' : Operation} (h : env.stream.Agrees ts) (hmod : env.modelled = env)
    (hl : Linked s) (hl' : Linked u) (hc : Session.Counterpart env.stream ts R s u)
    (hop : op.Counterpart env.stream ts R op')
    (ht : op = .command .appendTrailing → op.IsTidy env s) :
    Replied env.stream ts R op op' (s.step env op) (u.step (env.reading ts) op') := by
  have hb := hc.abreast
  have hn := hc.nextToken
  cases hop with
  | newLeaf htoken element => exact hc.replied_newLeaf h htoken element
  | report _ =>
    exact .of_lastToken hn trivial (hb.report ..) (steady_report ..).lastToken
      (steady_report ..).lastToken
  | recover _ =>
    exact .of_lastToken hn trivial (hb.recover h ..) (steady_recover ..).lastToken
      (steady_recover ..).lastToken
  | textOf htoken => exact .answer (htoken.textOf h) hb hn
  | errorHere hfault => exact .answer (hb.errorHere h hfault) hb hn
  | catchError he => exact hc.replied_catchError h he
  | plain hplain =>
    cases op with
    | command c => exact hc.replied_command h hplain fun hc => ht (congrArg _ hc)
    | textOf | errorHere | catchError => exact hplain.elim
    | lookAt steps =>
      exact .of_lastToken hn (hb.cursor.peek h steps) (hb.withCursor (hb.cursor.lookAt h steps))
        rfl rfl
    | currentText => exact .answer hc.currentText hb hn
    | matchToken expected follow =>
      obtain ⟨ha, hb⟩ := hb.matchToken h expected follow
      exact .of_lastToken hn ha hb (steady_matchToken ..).lastToken
        (steady_matchToken ..).lastToken
    | groupFailure rule group => exact hc.replied_groupFailure h rule group
    | canSelect group member =>
      exact .answer (congrArg (env.groups.canSelect group member) hb.groups) hb hn
    | canLeave group => exact .answer (congrArg (env.groups.canLeave group) hb.groups) hb hn
    | create site rule => exact hc.replied_create site rule
    | createWrapper action value => exact hc.replied_createWrapper hmod hl hl' action value
    | assign source mode a => exact hc.replied_assign hmod hl hl' source mode a

end Step

end ParseTree
