import ParseTree.Proofs.Session.Answered
import ParseTree.Proofs.Session.Frontier

/-!
# Sessions that stay in step

Operations that are answered the same in two streams do the same to what can be observed: the open
composites remain alike, and the same message waits. So the sessions stay in step. The nodes that
an operation makes are the last ones of both trees, hence the renumbering of nodes goes on in order.

## Main definitions

* `InStep`: sessions in step whose trees are rooted and cover the same tokens

## Main results

* `exists_opened_of_step`: open composites remain alike
* `pending_of_step`: the same message waits afterwards
* `InStep.step`: sessions stay in step
-/

namespace ParseTree

open Session TokenStream

variable {σ γ : Type}

/-! ## Open composites -/

section Opened

variable {ts ts' : TokenStream} {R : NodeId → NodeId → Prop} {t t' : Tree}
  {s s' u u' : Session σ γ} {d d' : ℕ} {words : List String}

/-- Nodes that are made last come last. -/
theorem PreservesOrder.fresh (h : PreservesOrder R)
    (hc : ∀ x y, R x y → t.Contains x ∧ t'.Contains y) :
    PreservesOrder fun x y => R x y ∨ x = t.nextId ∧ y = t'.nextId := by
  rintro x x' y y' (hx | ⟨rfl, rfl⟩) (hy | ⟨rfl, rfl⟩)
  · exact h x x' y y' hx hy
  · exact iff_of_true (hc x x' hx).1 (hc x x' hx).2
  · exact iff_of_false (Nat.not_lt_of_gt (hc y y' hy).1) (Nat.not_lt_of_gt (hc y y' hy).2)
  · exact iff_of_false (Nat.lt_irrefl _) (Nat.lt_irrefl _)

/-- The trees with the nodes made last contain the renumbered nodes. -/
theorem contains_fresh {t₁ t₁' : Tree} (hc : ∀ x y, R x y → t.Contains x ∧ t'.Contains y)
    (ht : t₁.size = t.size + 1) (ht' : t₁'.size = t'.size + 1) (x y : NodeId)
    (h : R x y ∨ x = t.nextId ∧ y = t'.nextId) : t₁.Contains x ∧ t₁'.Contains y := by
  rw [Tree.Contains, Tree.Contains, ht, ht']
  rcases h with hR | ⟨rfl, rfl⟩
  · exact ⟨Nat.lt_succ_of_lt (hc x y hR).1, Nat.lt_succ_of_lt (hc x y hR).2⟩
  · exact ⟨Nat.lt_succ_self _, Nat.lt_succ_self _⟩

theorem Opened.extend (h : Opened ts ts' R s u)
    (hs : s.tree.Extends ts s'.tree s.current words)
    (hu : u.tree.Extends ts' u'.tree u.current words) (hcs : s'.current = s.current)
    (hcu : u'.current = u.current) (hms : ∀ x, s.tree.Contains x → s'.tree.Contains x)
    (hmu : ∀ x, u.tree.Contains x → u'.tree.Contains x) : Opened ts ts' R s' u' where
  alike := by
    rw [hcs, hcu]
    exact h.alike.extend hs hu fun _ _ hR => hR
  order := h.order
  contains x y hR := ⟨hms x (h.contains x y hR).1, hmu y (h.contains x y hR).2⟩

/-- Leaves that say the same may be made below the open composites. -/
theorem Opened.growth {env : Setting σ γ} {us us' : List Token} (h : Opened env.stream ts R s u)
    (hr : Rooted s d) (hr' : Rooted u d') (hg : Growth env s us s') (hb : SameBindings s s')
    (hg' : Growth (env.reading ts) u us' u') (hb' : SameBindings u u')
    (hw : env.stream.wording us = ts.wording us') : Opened env.stream ts R s' u' := by
  have hs := hg.extends hb hr
  have hu : u.tree.Extends ts u'.tree u.current (ts.wording us') := hg'.extends hb' hr'
  rw [hw] at hs
  exact h.extend hs hu hg.current hg'.current (fun _ hx => (hg.parent? hr.toLinked hx).2)
    fun _ hx => (hg'.parent? hr'.toLinked hx).2

theorem Opened.steady {env : Setting σ γ} (h : Opened env.stream ts R s u) (hr : Rooted s d)
    (hr' : Rooted u d') (hs : Steady s s') (hb : SameBindings s s') (hu : Steady u u')
    (hb' : SameBindings u u') : Opened env.stream ts R s' u' :=
  h.growth hr hr' (Growth.done.rest hs.toSimilar) hb (Growth.done.rest hu.toSimilar) hb' rfl

theorem Opened.enterRule {env : Setting σ γ} (h : Opened env.stream ts R s u) (hr : Rooted s d)
    (hr' : Rooted u d') : Opened env.stream ts R s.enterRule u.enterRule := by
  have hs : s.tree.Extends env.stream s.enterRule.tree s.current [] := extends_enterRule hr
  have hu : u.tree.Extends (env.reading ts).stream u.enterRule.tree u.current [] :=
    extends_enterRule hr'
  exact h.extend hs hu rfl rfl
    (fun x => ((sameButLookahead_enterRule s).contains_iff x).mpr)
    fun x => ((sameButLookahead_enterRule u).contains_iff x).mpr

/-- Composites may be opened below those that are open. -/
theorem Opened.newComposite {env : Setting σ γ} (h : Opened env.stream ts R s u) (hr : Rooted s d)
    (hr' : Rooted u d') (element : ElementId) :
    Opened env.stream ts (fun x y => R x y ∨ x = s.tree.nextId ∧ y = u.tree.nextId)
      (s.newComposite env element) (u.newComposite (env.reading ts) element) where
  alike := by
    have hs := extends_newComposite env hr element
    have hu := extends_newComposite (env.reading ts) hr' element
    refine .child ⟨Or.inr ⟨rfl, rfl⟩, ?_, ?_⟩
      ((parent?_newComposite hr.toLinked element _).trans (if_pos rfl))
      ((parent?_newComposite hr'.toLinked element _).trans (if_pos rfl))
      (h.alike.extend hs hu fun _ _ => Or.inl)
    · have hs := semantic_nextId s
      have hu := semantic_nextId u
      rw [← Tree.semantic_addComposite] at hs hu
      exact hs.trans hu.symm
    · exact (wording_newComposite env hr element).trans
        (wording_newComposite (env.reading ts) hr' element).symm
  order := h.order.fresh h.contains
  contains := contains_fresh h.contains (Tree.size_addComposite ..) (Tree.size_addComposite ..)

/-- Whether a composite that is closed is merged with its child does not show above it. -/
theorem extends_afterRuleCall (env : Setting σ γ) {p : NodeId} (hr : Rooted s d)
    (hp : s.tree.parent? s.current = some p) :
    s.tree.Extends env.stream (s.afterRuleCall env).tree p [] ∧ (s.afterRuleCall env).current = p ∧
      ∀ x, s.tree.Contains x → (s.afterRuleCall env).tree.Contains x := by
  rw [afterRuleCall_eq hp]
  cases hc : s.absorbed? env with
  | none =>
    exact ⟨⟨fun _ _ => rfl, fun _ _ => rfl, fun _ _ => (List.append_nil _).symm⟩, rfl,
      fun _ hx => hx⟩
  | some child =>
    exact ⟨extends_merge hr (mergeable_of_absorbed? hc) hp, rfl, fun x => (contains_merge x).mpr⟩

/-- The composites above those that are closed are alike. -/
theorem Opened.afterRuleCall {env : Setting σ γ} (h : Opened env.stream ts R s u)
    (hr : Rooted s d) (hr' : Rooted u d') :
    Opened env.stream ts R (s.afterRuleCall env) (u.afterRuleCall (env.reading ts)) := by
  obtain ⟨p, -, hp⟩ := hr.exists_parent
  cases h.alike with
  | root _ hx _ => rw [hp] at hx; cases hx
  | child _ hx hy up =>
    obtain ⟨hs, hcs, hms⟩ := extends_afterRuleCall env hr hx
    obtain ⟨hu, hcu, hmu⟩ := extends_afterRuleCall (env.reading ts) hr' hy
    refine ⟨?_, h.order, fun x y hR => ⟨hms x (h.contains x y hR).1, hmu y (h.contains x y hR).2⟩⟩
    rw [hcs, hcu]
    exact up.extend hs hu fun _ _ hR => hR

/-- An element may be bound to nodes that stand for each other. -/
theorem Opened.associate {a b : NodeId} {e : SemanticId} (h : Opened ts ts' R s u) (hl : Linked s)
    (hl' : Linked u) (hab : R a b) (hs : (s.associate a e).1 = .ok e)
    (hu : (u.associate b e).1 = .ok e) :
    Opened ts ts' R (s.associate a e).2 (u.associate b e).2 := by
  rcases associate_cases s a e with ⟨_, -, -, ha⟩ | ⟨-, t, hbind, ha⟩
  · rw [ha] at hs
    cases hs
  rcases associate_cases u b e with ⟨_, -, -, hb⟩ | ⟨-, t', hbind', hb⟩
  · rw [hb] at hu
    cases hu
  rw [ha, hb]
  refine ⟨?_, h.order, fun x y hR => ?_⟩
  · exact h.alike.bind h.order h.contains hab hl.wellFormed hl'.wellFormed hbind hbind'
  · exact ⟨((Tree.sameNodes_bind? hbind).contains_iff x).mpr (h.contains x y hR).1,
      ((Tree.sameNodes_bind? hbind').contains_iff y).mpr (h.contains x y hR).2⟩

/-- The open composites may be wrapped. -/
theorem Opened.wrapCurrent {env : Setting σ γ} (h : Opened env.stream ts R s u) (hr : Rooted s d)
    (hr' : Rooted u d') (action : ElementId) :
    Opened env.stream ts (fun x y => R x y ∨ x = s.tree.nextId ∧ y = u.tree.nextId)
      (s.wrapCurrent action) (u.wrapCurrent action) where
  alike := by
    obtain ⟨p, -, hp⟩ := hr.exists_parent
    have hwording := h.alike.nodeAlike.wording
    cases h.alike with
    | root _ hx _ => rw [hp] at hx; cases hx
    | @child _ _ p q _ hx hy up =>
      have hs := extends_wrapCurrent env.stream hr hx action
      have hu := extends_wrapCurrent ts hr' hy action
      refine .child ⟨Or.inr ⟨rfl, rfl⟩, ?_, ?_⟩
        ((parent?_wrapCurrent hr.toLinked action _).trans ((if_pos rfl).trans hx))
        ((parent?_wrapCurrent hr'.toLinked action _).trans ((if_pos rfl).trans hy))
        (up.extend hs hu fun _ _ => Or.inl)
      · show ((s.wrapCurrent action).tree.node s.tree.nextId).semantic =
          ((u.wrapCurrent action).tree.node u.tree.nextId).semantic
        rw [(sameBindings_wrapCurrent s action).semantic,
          (sameBindings_wrapCurrent u action).semantic, semantic_nextId, semantic_nextId]
      · exact (wording_wrapCurrent _ hr action).trans
          (hwording.trans (wording_wrapCurrent _ hr' action).symm)
  order := h.order.fresh h.contains
  contains := contains_fresh h.contains (size_wrapCurrent ..) (size_wrapCurrent ..)

end Opened

/-! ## Operations -/

section Step

variable {env : Setting σ γ} {ts : TokenStream} {R : NodeId → NodeId → Prop}
  {s s' u u' : Session σ γ} {op op' : Operation} {d d' : ℕ}

/-- An operation that binds nothing and neither opens nor closes a composite makes leaves of the
next tokens at most. -/
theorem growth_of_step {answer : op.Answer} (hl : Linked s) (hc : env.stream.Contract)
    (hq : op.IsQuiet) (hmade : op.made? answer = none) (ht : op.IsTidy env s)
    (hs : s.step env op = .ok (answer, s')) :
    ∃ us, Growth env s us s' ∧ SameBindings s s' ∧ InOrder env.stream s s' us := by
  have hb : SameBindings s s' := by
    cases binds_of_step hl hs with
    | kept h _ _ => exact h
    | bound _ _ _ _ made _ =>
      rw [hmade] at made
      cases made
    | merged => exact hq.elim
  cases step_change hl hs with
  | enter | opened | closed => exact hq.elim
  | grown _ hg ho => exact ⟨_, hg, hb, ho hc ht⟩
  | @wrapped action _ _ _ _ _ =>
    rcases createWrapper_eq hl hs with ⟨_, -, -, -, hst⟩ | ⟨element, t, -, -, ha⟩
    · exact ⟨[], Growth.done.rest hst.toSimilar, hb, inOrder_of_lastToken hst.lastToken⟩
    · have hok : answer = .ok element :=
        (congrArg Prod.fst ha).trans (associate_wrapCurrent t action element)
      rw [hok] at hmade
      cases hmade

theorem eq_of_associate {node : NodeId} {element e : SemanticId}
    (h : (s.associate node element).1 = .ok e) : element = e := by
  rcases associate_cases s node element with ⟨_, -, -, ha⟩ | ⟨-, _, -, ha⟩
  · rw [ha] at h
    cases h
  · rw [ha] at h
    exact Except.ok.inj h

/-- An element is made and bound by a rule. -/
theorem exists_associate_of_create {site : BindingSite} {rule : ElementId} {e : SemanticId}
    (h : s.create env site rule = .ok (.ok e, s')) :
    ∃ factory, ({ s with factory }.associate (s.siteNode site) e).1 = .ok e ∧
      s' = ({ s with factory }.associate (s.siteNode site) e).2 := by
  rcases create_eq h with ⟨-, ⟨_, he⟩, -⟩ | ⟨classifier, -, ⟨_, -, he, -⟩ | ⟨element, -, ha⟩⟩
  · cases he
  · cases he
  · obtain rfl := eq_of_associate (congrArg Prod.fst ha).symm
    exact ⟨(s.make env classifier).2.factory, (congrArg Prod.fst ha).symm, congrArg Prod.snd ha⟩

/-- An action binds its element to the wrapper. -/
theorem exists_associate_of_createWrapper {action : ElementId} {value : Option SemanticId}
    {e : SemanticId} (hl : Linked s) (h : s.createWrapper env action value = .ok (.ok e, s')) :
    ∃ t, SameBindings s t ∧ Steady s t ∧
      ((t.wrapCurrent action).associate t.tree.nextId e).1 = .ok e ∧
      s' = ((t.wrapCurrent action).associate t.tree.nextId e).2 := by
  rcases createWrapper_eq hl h with ⟨_, he, -⟩ | ⟨element, t, hb, hst, ha⟩
  · cases he
  · obtain rfl := eq_of_associate (congrArg Prod.fst ha).symm
    exact ⟨t, hb, hst, (congrArg Prod.fst ha).symm, congrArg Prod.snd ha⟩

variable (h : env.stream.Agrees ts) (hr : Rooted s d) (hr' : Rooted u d')
  (ho : Opened env.stream ts R s u)

include hr hr' ho

/-- Open composites remain alike where leaves are made for the same visible tokens. -/
theorem Opened.quiet {answer : op.Answer} {answer' : op'.Answer} (h : env.stream.Agrees ts)
    (hn : env.stream.rank s.nextToken = ts.rank u.nextToken)
    (hn' : env.stream.rank s'.nextToken = ts.rank u'.nextToken)
    (hq : op.IsQuiet) (hq' : op'.IsQuiet) (hmade : op.made? answer = none)
    (hmade' : op'.made? answer' = none) (ht : op.IsTidy env s)
    (ht' : op'.IsTidy (env.reading ts) u) (hs : s.step env op = .ok (answer, s'))
    (hu : u.step (env.reading ts) op' = .ok (answer', u')) : Opened env.stream ts R s' u' := by
  obtain ⟨us, hg, hb, hi⟩ := growth_of_step hr.toLinked h.left hq hmade ht hs
  obtain ⟨us', hg', hb', hi'⟩ := growth_of_step hr'.toLinked h.right hq' hmade' ht' hu
  refine ho.growth hr hr' hg hb hg' hb' ?_
  rw [hi.tokens, hi'.tokens]
  exact h.wording_slice hi.le hi'.le hn hn'

theorem Opened.create {site : BindingSite} {rule : ElementId} {e : SemanticId}
    (hs : s.create env site rule = .ok (.ok e, s'))
    (hu : u.create (env.reading ts) site rule = .ok (.ok e, u')) :
    Opened env.stream ts R s' u' := by
  obtain ⟨factory, ha, rfl⟩ := exists_associate_of_create hs
  obtain ⟨factory', ha', rfl⟩ := exists_associate_of_create hu
  have ho : Opened env.stream ts R { s with factory } { u with factory := factory' } :=
    ⟨ho.alike, ho.order, ho.contains⟩
  have hl : Linked { s with factory } := ⟨hr.wellFormed, hr.current⟩
  have hl' : Linked { u with factory := factory' } := ⟨hr'.wellFormed, hr'.current⟩
  exact ho.associate hl hl' (ho.alike.siteNode site).related ha ha'

theorem Opened.createWrapper {action : ElementId} {value : Option SemanticId} {e : SemanticId}
    (hs : s.createWrapper env action value = .ok (.ok e, s'))
    (hu : u.createWrapper (env.reading ts) action value = .ok (.ok e, u')) :
    ∃ R', (∀ x y, R x y → R' x y) ∧ Opened env.stream ts R' s' u' := by
  obtain ⟨t, hb, hst, ha, rfl⟩ := exists_associate_of_createWrapper hr.toLinked hs
  obtain ⟨t', hb', hst', ha', rfl⟩ := exists_associate_of_createWrapper hr'.toLinked hu
  have hrt := hr.similar hst.toSimilar
  have hrt' := hr'.similar hst'.toSimilar
  have hw := (ho.steady hr hr' hst hb hst' hb').wrapCurrent hrt hrt' action
  exact ⟨_, fun _ _ => Or.inl, hw.associate (linked_wrapCurrent hrt.toLinked action)
    (linked_wrapCurrent hrt'.toLinked action) (Or.inr ⟨rfl, rfl⟩) ha ha'⟩

end Step

/-! ### What the operations have in common -/

section Counterpart

variable {env : Setting σ γ} {ts : TokenStream} {R : NodeId → NodeId → Prop}
  {s s' u u' : Session σ γ} {op op' : Operation} (h : env.stream.Agrees ts)

theorem Token.Counterpart.token? {ts ts' : TokenStream} {t t' : Token} (h : ts.Agrees ts')
    (ht : Token.Counterpart ts ts' t t') : (∀ i, t.index = some i → ts.token? i = some t) ∧
      ∀ i, t'.index = some i → ts'.token? i = some t' := by
  cases ht with
  | synthetic =>
    constructor <;>
    · intro i hi
      cases hi
  | twins ht =>
    obtain ⟨j, j', hj, hj', htoken, htoken', -⟩ := ht.exists_index h.left h.right
    refine ⟨fun i hi => ?_, fun i hi => ?_⟩
    · rwa [Option.some.inj (hi.symm.trans hj)]
    · rwa [Option.some.inj (hi.symm.trans hj')]

include h

/-- Operations on counterparts are tidy in both sessions or in none. -/
theorem Session.Counterpart.isTidy (hc : Session.Counterpart env.stream ts R s u)
    (hop : op.Counterpart env.stream ts R op')
    (ht : op = .command .appendTrailing → op.IsTidy env s) :
    op.IsTidy env s ∧ op'.IsTidy (env.reading ts) u := by
  cases hop with
  | newLeaf htoken element => exact htoken.token? h
  | plain hplain =>
    cases op with
    | command c =>
      cases c with
      | newLeaf => exact hplain.elim
      | appendTrailing =>
        have hs := ht rfl
        refine ⟨hs, ?_⟩
        have hlast := hc.abreast.cursor.previous? h
        change ∀ last, (s.bearings.cursor.previous? env.stream).bind (·.index) = some last →
          last < s.nextToken at hs
        change ∀ last, (u.bearings.cursor.previous? ts).bind (·.index) = some last →
          last < u.nextToken
        generalize s.bearings.cursor.previous? env.stream = a at hlast hs
        generalize u.bearings.cursor.previous? ts = b at hlast ⊢
        cases hlast with
        | none =>
          intro last hlast
          cases hlast
        | some ht =>
          obtain ⟨i, i', hi, hi', -⟩ := ht.exists_index h.left h.right
          intro last hlast
          obtain rfl := Option.some.inj (hi'.symm.trans hlast)
          exact (lt_nextToken_iff h hc.nextToken ht hi hi').mp (hs i hi)
      | _ => exact ⟨trivial, trivial⟩
    | _ => exact ⟨trivial, trivial⟩
  | _ => exact ⟨trivial, trivial⟩

/-- The same error is repaired by passing over a token or making one up. -/
theorem Abreast.matchError? (ha : Abreast env.stream ts s.bearings u.bearings)
    (expected : TokenKind) (follow : TokenSet) :
    Option.Rel (RecognitionError.Counterpart env.stream ts) (s.matchError? env expected follow)
      (u.matchError? (env.reading ts) expected follow) := by
  have htoken := ha.currentToken h
  rw [Session.matchError?, Session.matchError?, ha.matchRepair? h]
  split
  · exact .some ⟨rfl, htoken, ha.cursor.place⟩
  · exact .some ⟨⟨rfl, .synthetic expected htoken.sameOffset⟩, htoken, ha.cursor.place⟩
  · exact .none

omit h in
/-- Only recognition errors are reported and repaired when a rule has failed. -/
theorem catchError_of_ne {e : ParseError} (he : ∀ r, e ≠ .recognition r) :
    (∀ a, Operation.reported? env s (.catchError e) a = none) ∧
      Operation.repair? env s (.catchError e) = none := by
  cases e with
  | recognition r => exact absurd rfl (he r)
  | _ => exact ⟨fun _ => rfl, rfl⟩

/-- The same error is reported. -/
theorem Abreast.reported? {answer : op.Answer} {answer' : op'.Answer}
    (hb : Abreast env.stream ts s.bearings u.bearings)
    (hop : op.Counterpart env.stream ts R op')
    (ha : Operation.Reply env.stream ts R op op' answer answer') :
    Option.Rel (RecognitionError.Counterpart env.stream ts) (op.reported? env s answer)
      (op'.reported? (env.reading ts) u answer') := by
  have hrecovering : s.isRecovering = u.isRecovering := hb.isRecovering
  cases hop with
  | recover he => exact .some he
  | report he =>
    rw [Operation.reported?, Operation.reported?, hrecovering]
    split_ifs
    · exact .none
    · exact .some he
  | @catchError e e' he =>
    rcases he.cases with ⟨r, r', rfl, rfl, hr⟩ | ⟨he, he'⟩
    · exact .some hr
    · rw [(catchError_of_ne he).1, (catchError_of_ne he').1]
      exact .none
  | plain hplain =>
    cases op with
    | command c =>
      cases c with
      | report | recover => exact hplain.elim
      | _ => exact .none
    | catchError => exact hplain.elim
    | matchToken expected follow =>
      rw [Operation.reported?, Operation.reported?, hrecovering]
      split_ifs
      · exact .none
      · exact hb.matchError? h expected follow
    | groupFailure rule group =>
      rw [Operation.reported?, Operation.reported?, hrecovering]
      split_ifs
      · exact .none
      · exact .some ha
    | _ => exact .none
  | _ => exact .none

omit h in
theorem Operation.Counterpart.eq_appendAll_iff (hop : op.Counterpart env.stream ts R op') :
    op = .command .appendAll ↔ op' = .command .appendAll := by
  cases hop with
  | plain => exact Iff.rfl
  | _ => exact iff_of_false (by simp) (by simp)

omit h in
/-- The leaves that an operation made take the message if one of their tokens is visible. -/
theorem isSome_find?_newLeaves (ls : List (NodeId × Leaf)) :
    (ls.find? fun p => !p.2.isHidden).isSome =
      (ls.map (·.2.toToken)).any fun t => !t.isHidden := by
  induction ls with
  | nil => rfl
  | cons p ls ih =>
    have hhidden : p.2.toToken.isHidden = p.2.isHidden := by
      rw [Leaf.toToken, Token.isHidden]
      cases p.2.isHidden <;> rfl
    rw [List.find?_cons, List.map_cons, List.any_cons, hhidden, ← ih]
    cases p.2.isHidden <;> rfl

/-- Between places of the same ranks there is a visible token in both streams or in none. -/
theorem TokenStream.Agrees.any_slice {i i' j j' : ℕ} (hij : i ≤ j) (hij' : i' ≤ j')
    (hi : env.stream.rank i = ts.rank i') (hj : env.stream.rank j = ts.rank j') :
    ((env.stream.slice i j).any fun t => !t.isHidden) =
      (ts.slice i' j').any fun t => !t.isHidden := by
  have hlength := (h.twins_slice hij hij' hi hj).length_eq
  rw [Bool.eq_iff_iff, List.any_eq_true, List.any_eq_true, ← List.countP_pos_iff,
    ← List.countP_pos_iff, List.countP_eq_length_filter, List.countP_eq_length_filter, hlength]

/-- The same message is put into the slot. -/
theorem Session.Counterpart.message? {answer : op.Answer} {answer' : op'.Answer}
    (hm : env.messages = .standard) (hc : Session.Counterpart env.stream ts R s u)
    (hop : op.Counterpart env.stream ts R op')
    (ha : Operation.Reply env.stream ts R op op' answer answer') :
    (⟨s, op, answer, s'⟩ : Transition σ γ).message? env =
      (⟨u, op', answer', u'⟩ : Transition σ γ).message? (env.reading ts) := by
  rw [Transition.message?, Transition.message?, Transition.posted?, Transition.posted?]
  dsimp only
  have hreported := hc.abreast.reported? h hop ha
  generalize op.reported? env s answer = e at hreported ⊢
  generalize op'.reported? (env.reading ts) u answer' = e' at hreported ⊢
  rw [hc.pending]
  cases hreported with
  | none => rw [ite_self, Option.map_none, Option.map_none]
  | some he =>
    split_ifs
    · rfl
    · rw [Option.map_some, Option.map_some, syntaxError_reading h hm hc.abreast.groups he]

/-- The same message waits in both sessions after an operation. -/
theorem Session.Counterpart.pending_of_step {answer : op.Answer} {answer' : op'.Answer}
    (hc : Session.Counterpart env.stream ts R s u)
    (hmessage : (⟨s, op, answer, s'⟩ : Transition σ γ).message? env =
      (⟨u, op', answer', u'⟩ : Transition σ γ).message? (env.reading ts))
    (hl : Linked s) (hl' : Linked u) (hop : op.Counterpart env.stream ts R op')
    (ht : op.IsTidy env s) (ht' : op'.IsTidy (env.reading ts) u)
    (hs : s.step env op = .ok (answer, s')) (hu : u.step (env.reading ts) op' = .ok (answer', u'))
    (hn : env.stream.rank s'.nextToken = ts.rank u'.nextToken) : s'.pending = u'.pending := by
  have hi := slice_newLeaves hl h.left ht hs
  have hi' := slice_newLeaves hl' h.right ht' hu
  have htaken := h.any_slice hi.le hi'.le hc.nextToken hn
  rw [← hi.tokens, show ts.slice u.nextToken u'.nextToken = _ from hi'.tokens.symm,
    ← isSome_find?_newLeaves, ← isSome_find?_newLeaves] at htaken
  have hslot : (⟨s, op, answer, s'⟩ : Transition σ γ).slot env =
      (⟨u, op', answer', u'⟩ : Transition σ γ).slot (env.reading ts) := by
    rw [Transition.slot, Transition.slot, hmessage]
    exact congrArg (Option.or · _) hc.pending
  have hp := (delivers_of_step hl hs).pending
  have hp' := (delivers_of_step hl' hu).pending
  rw [Transition.rest, foldl_left, htaken, hslot] at hp
  rw [Transition.rest, foldl_left] at hp'
  exact hp.trans ((if_congr hop.eq_appendAll_iff rfl rfl).trans hp'.symm)

/-- The same repair is made. -/
theorem Abreast.repair? (hb : Abreast env.stream ts s.bearings u.bearings)
    (hop : op.Counterpart env.stream ts R op') :
    op.repair? env s = op'.repair? (env.reading ts) u := by
  cases hop with
  | @catchError e e' he =>
    rcases he.cases with ⟨r, r', rfl, rfl, -⟩ | ⟨he, he'⟩
    · rfl
    · rw [(catchError_of_ne he).2, (catchError_of_ne he').2]
  | plain hplain =>
    cases op with
    | matchToken expected follow => exact hb.matchRepair? h expected follow
    | command c =>
      cases c with
      | recover => exact hplain.elim
      | _ => rfl
    | catchError => exact hplain.elim
    | _ => rfl
  | _ => rfl

/-- Open composites remain alike. -/
theorem Session.Counterpart.exists_opened_of_step {answer : op.Answer} {answer' : op'.Answer}
    {d d' : ℕ} (hc : Session.Counterpart env.stream ts R s u) (hr : Rooted s d)
    (hr' : Rooted u d') (hop : op.Counterpart env.stream ts R op') (ht : op.IsTidy env s)
    (ht' : op'.IsTidy (env.reading ts) u) (hs : s.step env op = .ok (answer, s'))
    (hu : u.step (env.reading ts) op' = .ok (answer', u'))
    (ha : Operation.Reply env.stream ts R op op' answer answer')
    (hn : env.stream.rank s'.nextToken = ts.rank u'.nextToken) :
    ∃ R', (∀ x y, R x y → R' x y) ∧ Opened env.stream ts R' s' u' := by
  have ho := hc.opened
  have hquiet (hq : op.IsQuiet) (hq' : op'.IsQuiet) (hmade : op.made? answer = none)
      (hmade' : op'.made? answer' = none) :
      ∃ R', (∀ x y, R x y → R' x y) ∧ Opened env.stream ts R' s' u' :=
    ⟨R, fun _ _ hR => hR, ho.quiet hr hr' h hc.nextToken hn hq hq' hmade hmade' ht ht' hs hu⟩
  cases hop with
  | plain hplain =>
    cases op with
    | command c =>
      cases c with
      | enterRule =>
        obtain ⟨-, rfl⟩ := Prod.mk.inj (Except.ok.inj hs)
        obtain ⟨-, rfl⟩ := Prod.mk.inj (Except.ok.inj hu)
        exact ⟨R, fun _ _ hR => hR, ho.enterRule hr hr'⟩
      | newComposite element =>
        obtain ⟨-, rfl⟩ := Prod.mk.inj (Except.ok.inj hs)
        obtain ⟨-, rfl⟩ := Prod.mk.inj (Except.ok.inj hu)
        exact ⟨_, fun _ _ => Or.inl, ho.newComposite hr hr' element⟩
      | afterRuleCall =>
        obtain ⟨-, rfl⟩ := Prod.mk.inj (Except.ok.inj hs)
        obtain ⟨-, rfl⟩ := Prod.mk.inj (Except.ok.inj hu)
        exact ⟨R, fun _ _ hR => hR, ho.afterRuleCall hr hr'⟩
      | _ => exact hquiet trivial trivial rfl rfl
    | create site rule =>
      cases ha with
      | error => exact hquiet trivial trivial rfl rfl
      | ok he =>
        subst he
        exact ⟨R, fun _ _ hR => hR, ho.create hr hr' hs hu⟩
    | createWrapper action value =>
      cases ha with
      | error => exact hquiet trivial trivial rfl rfl
      | ok he =>
        subst he
        exact ho.createWrapper hr hr' hs hu
    | _ => exact hquiet trivial trivial rfl rfl
  | _ => exact hquiet trivial trivial rfl rfl

end Counterpart

/-! ## Steps -/

/-- The sessions are in step, with the same number of composites open, and their trees cover the
tokens before the same place. -/
structure InStep (env : Setting σ γ) (ts : TokenStream) (R : NodeId → NodeId → Prop) (d : ℕ)
    (s u : Session σ γ) : Prop extends Session.Counterpart env.stream ts R s u where
  /-- So many composites are open in the one. -/
  left : Rooted s d
  /-- As many are open in the other. -/
  right : Rooted u d
  /-- The leaves of the one are the first tokens of its stream. -/
  covered : Covered env s
  /-- So are those of the other. -/
  covered_right : Covered (env.reading ts) u

section InStep

variable {env : Setting Model γ} {ts : TokenStream} {R : NodeId → NodeId → Prop}
  {s u : Session Model γ} {op op' : Operation} {d : ℕ}

theorem Operation.Counterpart.opens_eq {ts ts' : TokenStream}
    (hop : op.Counterpart ts ts' R op') : op'.opens = op.opens ∧ op'.closes = op.closes := by
  cases hop <;> exact ⟨rfl, rfl⟩

/-- Sessions in step fault alike, or they answer the same and stay in step. -/
theorem InStep.step (h : env.stream.Agrees ts) (hmod : env.modelled = env)
    (hc : InStep env ts R d s u) (hop : op.Counterpart env.stream ts R op')
    (ht : op = .command .appendTrailing → op.IsTidy env s) (hd : op.closes → 0 < d) :
    Outcomes Eq (fun r r' => ∃ R', (∀ x y, R x y → R' x y) ∧
        (⟨s, op, r.1, r.2⟩ : Transition Model γ).Counterpart env ts R' ⟨u, op', r'.1, r'.2⟩ ∧
        InStep env ts R' (d + op.opens.toNat - op.closes.toNat) r.2 r'.2)
      (s.step env op) (u.step (env.reading ts) op') := by
  have hl := hc.left.toLinked
  have hl' := hc.right.toLinked
  have hm : env.messages = .standard := (congrArg Setting.messages hmod).symm
  obtain ⟨htidy, htidy'⟩ := hc.toCounterpart.isTidy h hop ht
  have hreplied := hc.toCounterpart.replied h hmod hl hl' hop ht
  generalize hs : s.step env op = result at hreplied ⊢
  generalize hu : u.step (env.reading ts) op' = result' at hreplied ⊢
  cases hreplied with
  | fault => exact .error rfl
  | @answer a a' s' u' ha hb hn =>
    obtain ⟨R', hR, ho⟩ := hc.exists_opened_of_step h hc.left hc.right hop htidy htidy' hs hu ha hn
    have hmessage : (⟨s, op, a, s'⟩ : Transition Model γ).message? env =
        (⟨u, op', a', u'⟩ : Transition Model γ).message? (env.reading ts) :=
      hc.message? h hm hop ha
    have hp := hc.pending_of_step h hmessage hl hl' hop htidy htidy' hs hu hn
    have hchange := step_change hl hs
    have hchange' := step_change hl' hu
    have hdepth' := hc.right.change hchange' (hop.opens_eq.2 ▸ hd)
    rw [hop.opens_eq.1, hop.opens_eq.2] at hdepth'
    refine .ok ⟨R', hR, ?_, ⟨⟨hb, hn, hp, ho⟩, hc.left.change hchange hd, hdepth',
      hc.covered.change hc.left hchange h.left htidy,
      hc.covered_right.change hc.right hchange' h.right htidy'⟩⟩
    exact ⟨hop.mono hR, ha.mono hR, hc.abreast.repair? h hop, hc.abreast.cursor.place,
      hb.cursor.place, hmessage, hp⟩

end InStep

end ParseTree
