import ParseTree.Proofs.Session.Matching
import ParseTree.Proofs.Tree.Yield
import ParseTree.Session.Operation

/-!
# Sessions with the same nodes

Most operations leave the nodes, the open composite and the lookahead bookkeeping of a session alone
and at most add errors and elements.

## Main definitions

* `Linked`: the tree is well-formed and a composite is open
* `Similar`: the sessions differ in errors, elements and positions at most
* `Steady`: they have made the same leaves, too

## Main results

* `Similar.linked`: a session stays linked
* `steady_matchToken`, `steady_recover`: recognition leaves the nodes alone
* `steady_create`, `steady_assignAt`: so do semantic actions that wrap nothing
* `similar_flushPending`: an error that waits goes to a node below the open composite
-/

namespace ParseTree

open Session

/-- A computation that succeeds succeeds at every step. -/
theorem exists_of_bind_eq_ok {ε α β : Type} {x : Except ε α} {f : α → Except ε β} {b : β}
    (h : x >>= f = .ok b) : ∃ a, x = .ok a ∧ f a = .ok b := by
  cases x with
  | error e => cases h
  | ok a => exact ⟨a, rfl, h⟩

variable {σ γ : Type}

section Step

variable {env : Setting σ γ} {s s' : Session σ γ}

/-! ## Operations that succeed -/

theorem perform_of_step {c : Command} {answer : (Operation.command c).Answer}
    (h : s.step env (.command c) = .ok (answer, s')) : s.perform env c = .ok s' := by
  obtain ⟨t, ht, h⟩ := exists_of_bind_eq_ok h
  obtain ⟨-, rfl⟩ := Prod.mk.inj (Except.ok.inj h)
  exact ht

theorem catchError_of_step {e : ParseError} {answer : (Operation.catchError e).Answer}
    (h : s.step env (.catchError e) = .ok (answer, s')) : s.catchError env e = (answer, s') :=
  Except.ok.inj h

theorem assignAt_of_step {source : ValueSource} {mode : AssignMode} {a : Assignment}
    {answer : (Operation.assign source mode a).Answer}
    (h : s.step env (.assign source mode a) = .ok (answer, s')) :
    s.assignAt env mode a (s.sourceNode source) = (answer, s') :=
  Except.ok.inj h

/-- The failure of leaving a group is an error at the current token, which is reported. -/
theorem exists_report_of_groupFailure {rule group : ElementId} {e : RecognitionError}
    (h : s.groupFailure env rule group = .ok (e, s')) :
    ∃ description, env.grammar.describe group = .ok description ∧
      e = s.errorHere env (.failedPredicate ((env.grammar.ruleName? rule).getD "")
        ("canLeave(" ++ description ++ ")") (some group)) ∧
      s' = s.report env e := by
  obtain ⟨_, -, h⟩ := exists_of_bind_eq_ok h
  obtain ⟨description, hd, h⟩ := exists_of_bind_eq_ok h
  obtain ⟨rfl, rfl⟩ := Prod.mk.inj (Except.ok.inj h)
  exact ⟨description, hd, rfl, rfl⟩

end Step

/-- The tree is well-formed and the open node is a composite of it. -/
structure Linked (s : Session σ γ) : Prop where
  /-- The links of the tree agree. -/
  wellFormed : s.tree.shape.WellFormed
  /-- A composite is open. -/
  current : s.tree.IsComposite s.current

theorem linked_start (env : Setting σ γ) (factory : σ) (groups : γ) :
    Linked (Session.start env factory groups) := by
  refine ⟨⟨?_, ?_, fun _ => 0, ?_⟩, Nat.zero_lt_one, rfl⟩
  · intro p c
    show c ∈ Tree.empty.shape.children p ↔ Tree.empty.shape.parent? c = some p
    rw [(Tree.isolated_empty p).children, (Tree.isolated_empty c).parent]
    simp
  · intro p
    show (Tree.empty.shape.children p).Nodup
    rw [(Tree.isolated_empty p).children]
    exact List.nodup_nil
  · intro p c hp
    exact absurd ((Tree.isolated_empty c).parent.symm.trans hp) (by simp)

/-- The sessions have the same nodes, open composite and lookahead. Errors and elements may be
added, and a waiting error may have been attached below the open composite. -/
structure Similar (s s' : Session σ γ) : Prop where
  /-- The nodes are the same. -/
  nodes : s.tree.SameNodes s'.tree
  /-- So are their lookahead leaves. -/
  lookahead : ∀ x, s'.tree.lookaheadLeaves x = s.tree.lookaheadLeaves x
  /-- So are the leaves made so far and what waits for others. -/
  attribution : s'.attribution = s.attribution
  /-- The same composite is open. -/
  current : s'.current = s.current
  /-- No error is lost. -/
  error : ∀ x, (s.tree.node x).error.isSome → (s'.tree.node x).error.isSome
  /-- An error waits no more only if it was attached. -/
  pending : s.pending.isSome → s'.pending.isSome ∨
    ∃ x, s.tree.shape.Below x s.current ∧ (s'.tree.node x).error.isSome
  /-- No element is lost. -/
  semantic : ∀ x e, (s.tree.node x).semantic = some e → (s'.tree.node x).semantic = some e
  /-- New elements are bound to the open composite or the node above it. -/
  primary : ∀ p ∈ s'.primary, p ∈ s.primary ∨
    (p.2 = s.current ∨ s.tree.parent? s.current = some p.2) ∧
      (s'.tree.node p.2).semantic = some p.1
  /-- Another node that was finished last is the open composite or has a node above it. -/
  lastNode : ∀ x, s'.lastNode = some x →
    s.lastNode = some x ∨ x = s.current ∨ s.tree.parent? x ≠ none

section Similar

variable {s s' s'' : Session σ γ}

theorem Similar.trans (h : Similar s s') (h' : Similar s' s'') : Similar s s'' where
  nodes := h.nodes.trans h'.nodes
  lookahead x := (h'.lookahead x).trans (h.lookahead x)
  attribution := h'.attribution.trans h.attribution
  current := h'.current.trans h.current
  error x hx := h'.error x (h.error x hx)
  pending hp := by
    -- What the first step took from the slot is still at its node after the second.
    rcases h.pending hp with hp | ⟨x, hx, he⟩
    · rcases h'.pending hp with hp | ⟨x, hx, he⟩
      · exact Or.inl hp
      · rw [h.nodes.shape, h.current] at hx
        exact Or.inr ⟨x, hx, he⟩
    · exact Or.inr ⟨x, hx, h'.error x he⟩
  semantic x e hx := h'.semantic x e (h.semantic x e hx)
  primary p hp := by
    rcases h'.primary p hp with hp | ⟨hx, he⟩
    · rcases h.primary p hp with hp | ⟨hx, he⟩
      · exact Or.inl hp
      · exact Or.inr ⟨hx, h'.semantic _ _ he⟩
    · rw [h.current, h.nodes.parent?] at hx
      exact Or.inr ⟨hx, he⟩
  lastNode x hx := by
    rcases h'.lastNode x hx with hx | hx | hx
    · exact h.lastNode x hx
    · exact Or.inr (Or.inl (hx.trans h.current))
    · exact Or.inr (Or.inr (h.nodes.parent? x ▸ hx))

/-- A session in which the tree and what refers to it are the same. -/
theorem similar_of_eq (ht : s'.tree = s.tree) (ha : s'.attribution = s.attribution)
    (hc : s'.current = s.current) (hp : s.pending.isSome → s'.pending.isSome)
    (hs : s'.primary = s.primary) (hn : s'.lastNode = s.lastNode ∨ s'.lastNode = some s.current) :
    Similar s s' where
  nodes := ht ▸ .refl _
  lookahead x := by rw [ht]
  attribution := ha
  current := hc
  error x hx := by rwa [ht]
  pending h := Or.inl (hp h)
  semantic x e hx := by rwa [ht]
  primary p h := Or.inl (hs ▸ h)
  lastNode x hx := by
    rcases hn with hn | hn
    · exact Or.inl (hn ▸ hx)
    · exact Or.inr (Or.inl (Option.some.inj (hx.symm.trans hn)))

theorem Similar.refl (s : Session σ γ) : Similar s s :=
  similar_of_eq rfl rfl rfl id rfl (Or.inl rfl)

/-- One more error was attached. -/
theorem similar_attachError (id : NodeId) (e : SyntaxError) (hid : s.tree.Contains id) :
    Similar s { s with tree := s.tree.attachError id e } where
  nodes := Tree.sameNodes_attachError s.tree id e
  lookahead := Tree.lookaheadLeaves_attachError s.tree id e
  attribution := rfl
  current := rfl
  error x hx := (Tree.isSome_error_attachError hid e x).mpr (Or.inr hx)
  pending h := Or.inl h
  semantic x _ hx := (Tree.semantic_attachError s.tree id e x).trans hx
  primary _ h := Or.inl h
  lastNode _ hx := Or.inl hx

theorem Similar.linked (h : Similar s s') (hl : Linked s) : Linked s' where
  wellFormed := h.nodes.shape ▸ hl.wellFormed
  current := by
    rw [h.current]
    exact (h.nodes.isComposite_iff s.current).mpr hl.current

end Similar

/-- A similar session that has made the same leaves. -/
structure Steady (s s' : Session σ γ) : Prop extends Similar s s' where
  /-- The last token with a leaf is the same. -/
  lastToken : s'.lastToken = s.lastToken

section Steady

variable {s s' s'' : Session σ γ}

theorem Steady.refl (s : Session σ γ) : Steady s s :=
  ⟨.refl s, rfl⟩

theorem Steady.trans (h : Steady s s') (h' : Steady s' s'') : Steady s s'' :=
  ⟨h.toSimilar.trans h'.toSimilar, h'.lastToken.trans h.lastToken⟩

/-- The positions, the expectations and the states of the replaceable parts are changed freely. -/
theorem steady_with (s : Session σ γ) (cursor : Cursor) (follow : List TokenSet)
    (isRecovering : Bool) (lastErrorIndex : Option ℕ) (factory : σ) (groups : γ) :
    Steady s { s with cursor, follow, isRecovering, lastErrorIndex, factory, groups } :=
  ⟨similar_of_eq rfl rfl rfl id rfl (Or.inl rfl), rfl⟩

end Steady

/-! ## Operations that leave the nodes alone -/

namespace Session

variable {env : Setting σ γ} {s s' : Session σ γ}

theorem steady_postpone (env : Setting σ γ) (s : Session σ γ) (e : RecognitionError) :
    Steady s (s.postpone env e) := by
  refine ⟨similar_of_eq rfl rfl rfl ?_ rfl (Or.inl rfl), rfl⟩
  intro _
  simp [postpone]

theorem steady_report (env : Setting σ γ) (s : Session σ γ) (e : RecognitionError) :
    Steady s (s.report env e) := by
  rw [report]
  split_ifs
  · exact .refl s
  · exact (steady_postpone env s e).trans (steady_with _ _ _ true _ _ _)

theorem steady_matchCurrent (env : Setting σ γ) (s : Session σ γ) (token : Token)
    (expected : TokenKind) (follow : TokenSet) :
    Steady s (s.matchCurrent env token expected follow).2 := by
  rw [matchCurrent]
  split_ifs
  · exact steady_with ..
  · exact ((steady_with ..).trans (steady_report env (s.advance env) _)).trans (steady_with ..)
  · exact steady_report env s _
  · exact .refl s

theorem steady_matchToken (env : Setting σ γ) (s : Session σ γ) (expected : TokenKind)
    (follow : TokenSet) : Steady s (s.matchToken env expected follow).2 := by
  rw [matchToken_eq]
  exact steady_matchCurrent ..

theorem steady_recover (env : Setting σ γ) (s : Session σ γ) (e : RecognitionError) :
    Steady s (s.recover env e) := by
  rw [recover]
  have h (s : Session σ γ) : Steady s (if s.lastErrorIndex = some s.cursor.position then
      s.advance env else s) := by
    split_ifs
    · exact steady_with ..
    · exact .refl s
  exact ((steady_postpone env s e).trans (h _)).trans (steady_with ..)

theorem steady_groupFailure {rule group : ElementId} {e : RecognitionError}
    (h : s.groupFailure env rule group = .ok (e, s')) : Steady s s' := by
  obtain ⟨_, -, -, rfl⟩ := exists_report_of_groupFailure h
  exact steady_report ..

theorem steady_leaveRule (s : Session σ γ) : Steady s s.leaveRule :=
  ⟨similar_of_eq rfl rfl rfl id rfl (Or.inr rfl), rfl⟩

theorem contains_refusalTarget (hl : Linked s) (e : ConversionError) :
    s.tree.Contains (s.refusalTarget e) := by
  rw [refusalTarget]
  cases h : (e.node.filter fun id => decide (s.tree.Contains id)).or
    (s.tree.children s.current).getLast? with
  | none => exact hl.current.contains
  | some id =>
    rw [Option.getD_some]
    rcases Option.or_eq_some_iff.mp h with h | ⟨-, h⟩
    · simpa using (Option.filter_eq_some_iff.mp h).2
    · have hid := List.mem_of_getLast? h
      exact Tree.contains_of_parent? (hl.wellFormed.parent?_of_mem hid)

theorem steady_refuse (env : Setting σ γ) (hl : Linked s) (e : ConversionError) :
    Steady s (s.refuse env e).2 := by
  rw [refuse]
  split_ifs
  · exact .refl s
  · exact ⟨similar_attachError _ _ (contains_refusalTarget hl e), rfl⟩

theorem steady_assignAt (env : Setting σ γ) (hl : Linked s) (mode : AssignMode) (a : Assignment)
    (node : NodeId) : Steady s (s.assignAt env mode a node).2 := by
  have h (factory : σ) : Steady s { s with factory } := steady_with ..
  unfold assignAt
  dsimp only
  split
  · exact h _
  · exact (h _).trans (steady_refuse env ((h _).linked hl) _)

theorem steady_make (env : Setting σ γ) (s : Session σ γ) (classifier : String) :
    Steady s (s.make env classifier).2 :=
  steady_with ..

/-- An element is bound to the open composite or the node above it. -/
theorem steady_associate {node : NodeId} (hl : Linked s)
    (hn : node = s.current ∨ s.tree.parent? s.current = some node) (element : SemanticId) :
    Steady s (s.associate node element).2 := by
  rw [associate]
  cases h : s.tree.bind? node element with
  | none => exact .refl s
  | some tree =>
    have hc : s.tree.Contains node := by
      rcases hn with rfl | hp
      · exact hl.current.contains
      · exact Tree.contains_of_mem_children (hl.wellFormed.mem_of_parent? hp)
    refine ⟨⟨Tree.sameNodes_bind? h, Tree.lookaheadLeaves_bind? h, rfl, rfl, ?_,
      fun hp => Or.inl hp, fun _ _ => Tree.semantic_of_bind? h, ?_,
      fun _ hx => Or.inl hx⟩, rfl⟩
    · intro x hx
      rwa [Tree.error_bind? h]
    · intro p hp
      dsimp only at hp
      split_ifs at hp
      · exact Or.inl hp
      · rcases List.mem_append.mp hp with hp | hp
        · exact Or.inl hp
        · obtain rfl := List.mem_singleton.mp hp
          exact Or.inr ⟨hn, by rw [Tree.semantic_bind? h hc, if_pos rfl]⟩

theorem siteNode_cases (s : Session σ γ) (site : BindingSite) :
    s.siteNode site = s.current ∨ s.tree.parent? s.current = some (s.siteNode site) := by
  cases site with
  | current => exact Or.inl rfl
  | parent =>
    rw [siteNode]
    cases s.tree.parent? s.current with
    | none => exact Or.inl rfl
    | some p => exact Or.inr rfl

/-- A creation that succeeds makes an element and binds it, or stops before. -/
theorem create_cases {site : BindingSite} {rule : ElementId}
    {answer : Except ParseError SemanticId} (h : s.create env site rule = .ok (answer, s')) :
    s' = s ∨ ∃ classifier, s' = (s.make env classifier).2 ∨
      ∃ element, s' = ((s.make env classifier).2.associate (s.siteNode site) element).2 := by
  obtain ⟨_, -, h⟩ := exists_of_bind_eq_ok h
  split at h
  · obtain ⟨_, -, h⟩ := exists_of_bind_eq_ok h
    obtain ⟨-, rfl⟩ := Prod.mk.inj (Except.ok.inj h)
    exact Or.inl rfl
  · next classifier _ =>
    refine Or.inr ⟨classifier, ?_⟩
    split at h
    · next hmake =>
      obtain ⟨-, rfl⟩ := Prod.mk.inj (Except.ok.inj h)
      rw [hmake]
      exact Or.inl rfl
    · next element t hmake =>
      rw [hmake]
      exact Or.inr ⟨element, (congrArg Prod.snd (Except.ok.inj h)).symm⟩

theorem steady_create {site : BindingSite} {rule : ElementId}
    {answer : Except ParseError SemanticId} (hl : Linked s)
    (h : s.create env site rule = .ok (answer, s')) : Steady s s' := by
  rcases create_cases h with rfl | ⟨classifier, rfl | ⟨element, rfl⟩⟩
  · exact .refl _
  · exact steady_make env s classifier
  · have hm := steady_make env s classifier
    have hn := siteNode_cases s site
    rw [← hm.current, ← hm.nodes.parent?] at hn
    exact hm.trans (steady_associate (hm.linked hl) hn element)

theorem steady_assignAction {element : SemanticId} {assigned : Option (String × AssignOp)}
    {value : Option SemanticId} (env : Setting σ γ) (hl : Linked s) :
    Steady s (s.assignAction env element assigned value).2 := by
  unfold assignAction
  split
  · exact steady_assignAt env hl ..
  · exact .refl s

/-- The last leaf of the open composite lies below it, and so does the composite itself. -/
theorem below_lastLeaf (hl : Linked s) :
    s.tree.shape.Below ((s.tree.lastLeaf? s.current).getD s.current) s.current := by
  cases h : s.tree.lastLeaf? s.current with
  | none => exact Relation.ReflTransGen.refl
  | some x => exact Tree.below_of_lastLeafWithin? hl.wellFormed h

/-- An error that waits goes to a node below the open composite. -/
theorem similar_flushPending (hl : Linked s) : Similar s s.flushPending := by
  rw [flushPending]
  cases hp : s.pending with
  | none => exact .refl s
  | some error =>
    set target := (s.tree.lastLeaf? s.current).getD s.current with htarget
    have hbelow : s.tree.shape.Below target s.current := below_lastLeaf hl
    have hc := Tree.contains_of_below hl.current.contains hbelow
    have h := similar_attachError (s := s) target error hc
    refine ⟨h.nodes, h.lookahead, rfl, rfl, h.error, fun _ => Or.inr ⟨target, hbelow, ?_⟩,
      h.semantic, fun _ => Or.inl, fun _ => Or.inl⟩
    exact (Tree.isSome_error_attachError hc error target).mpr (Or.inl rfl)

end Session

end ParseTree
