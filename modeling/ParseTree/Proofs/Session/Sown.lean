import ParseTree.Proofs.Session.Offered

/-!
# What operations say

Making leaves gives them what waits in the slot and what the lexer says of them. Of the other
operations some put a message into the slot, some give a refusal to a node, and most say nothing.

## Main definitions

* `Gives`: messages were given to nodes
* `Noted`, `Sown`: with the slot left alone, with leaves that took from it
* `Transition.Delivers`: an operation gives its messages to nodes and keeps the rest in the slot

## Main results

* `sown_createLeaf`: a new leaf gets its messages
* `noted_offered`: a refusal is given to its node
* `delivers_of_step`: every operation gives its messages to nodes and keeps the rest in the slot
-/

namespace ParseTree

open Session

variable {σ γ : Type}

/-- Messages were given to nodes; no leaf that was there before changed. -/
structure Gives (s s' : Session σ γ) (ds : List Delivery) : Prop where
  /-- No node is lost. -/
  size : s.tree.size ≤ s'.tree.size
  /-- No leaf is lost. -/
  leaf? : ∀ x, s.tree.Contains x → (s'.tree.node x).leaf? = (s.tree.node x).leaf?
  /-- Each message is merged into the error of its node. -/
  error : ∀ x, (s'.tree.node x).error =
    (given ds x).foldl SyntaxError.mergeInto (s.tree.node x).error

/-- Messages were given to nodes; no leaf was made, and the slot was left alone. -/
structure Noted (s s' : Session σ γ) (ds : List Delivery) : Prop extends Gives s s' ds where
  /-- The leaves are the same. -/
  leaves : ∀ x, (s'.tree.node x).leaf? = (s.tree.node x).leaf?
  /-- So is the slot. -/
  pending : s'.pending = s.pending

/-- Leaves were made and got their messages; nothing else was said. -/
structure Sown (env : Setting σ γ) (s s' : Session σ γ) : Prop extends
    Gives s s' (leavesDeliveries env.stream s.pending (s'.tree.leavesFrom s.tree.size)) where
  /-- The first visible leaf empties the slot. -/
  pending : s'.pending =
    (s'.tree.leavesFrom s.tree.size).foldl (fun slot x => left slot x.2) s.pending

section Gives

variable {env : Setting σ γ} {s s' s'' : Session σ γ} {ds ds' : List Delivery}

theorem Gives.trans (h : Gives s s' ds) (h' : Gives s' s'' ds') : Gives s s'' (ds ++ ds') where
  size := h.size.trans h'.size
  leaf? x hx := (h'.leaf? x (Nat.lt_of_lt_of_le hx h.size)).trans (h.leaf? x hx)
  error x := by rw [h'.error, h.error, given_append, List.foldl_append]

theorem Noted.trans (h : Noted s s' ds) (h' : Noted s' s'' ds') : Noted s s'' (ds ++ ds') where
  toGives := h.toGives.trans h'.toGives
  leaves x := (h'.leaves x).trans (h.leaves x)
  pending := h'.pending.trans h.pending

theorem noted_nil (hs : s.tree.size ≤ s'.tree.size)
    (hl : ∀ x, (s'.tree.node x).leaf? = (s.tree.node x).leaf?)
    (he : ∀ x, (s'.tree.node x).error = (s.tree.node x).error) (hp : s'.pending = s.pending) :
    Noted s s' [] :=
  ⟨⟨hs, fun x _ => hl x, he⟩, hl, hp⟩

theorem noted_of_eq (ht : s'.tree = s.tree) (hp : s'.pending = s.pending) : Noted s s' [] :=
  noted_nil (ht ▸ le_rfl) (fun _ => ht ▸ rfl) (fun _ => ht ▸ rfl) hp

theorem Tree.SameButLookahead.noted (h : s.tree.SameButLookahead s'.tree)
    (hp : s'.pending = s.pending) : Noted s s' [] :=
  noted_nil h.size.ge h.leaf? h.error hp

/-- Where nothing is said, nothing is said to new leaves. -/
theorem Noted.sown (h : Noted s s' []) : Sown env s s' := by
  have hnil := leavesFrom_eq_nil h.leaves
  constructor
  · rw [hnil]
    exact h.toGives
  · rw [hnil]
    exact h.pending

theorem Sown.refl (s : Session σ γ) : Sown env s s :=
  (noted_of_eq rfl rfl).sown

theorem Sown.trans (h : Sown env s s') (h' : Sown env s' s'') : Sown env s s'' := by
  have hleaves := leavesFrom_append h.size h'.size h'.leaf?
  have hg := h.toGives.trans h'.toGives
  rw [h.pending, ← leavesDeliveries_append, ← hleaves] at hg
  refine ⟨hg, ?_⟩
  rw [h'.pending, h.pending, hleaves, List.foldl_append]

theorem Sown.noted (h : Sown env s s') (h' : Noted s' s'' []) : Sown env s s'' :=
  h.trans h'.sown

/-! ### Leaves -/

theorem leafError_eq (env : Setting σ γ) (s : Session σ γ) (t : Token) (i : ℕ)
    (feature : Option String) : s.leafError env t i =
      (given (leafDeliveries env.stream s.pending
        (s.tree.nextId, ⟨i, t.kind, t.span, t.isHidden, feature⟩)) s.tree.nextId).foldl
          SyntaxError.mergeInto none := by
  rw [given_leafDeliveries, leafError, taken, lexerError?]
  dsimp only
  generalize (if t.isHidden then none else s.pending) = slot
  split_ifs <;> cases slot <;> rfl

theorem leavesFrom_createLeaf (env : Setting σ γ) (s : Session σ γ) (t : Token) (i : ℕ)
    (element : Option ElementId) (feature : Option String) :
    (s.createLeaf env t i element feature).tree.leavesFrom s.tree.size =
      [(s.tree.nextId, ⟨i, t.kind, t.span, t.isHidden, feature⟩)] := by
  have hself := (leaf?_createLeaf env s t i element feature s.tree.nextId).trans (if_pos rfl)
  rw [Tree.leavesFrom, size_createLeaf, Nat.add_sub_cancel_left]
  exact List.filterMap_cons_some (congrArg (Option.map (s.tree.nextId, ·)) hself)

theorem sown_createLeaf (env : Setting σ γ) (s : Session σ γ) (t : Token) (i : ℕ)
    (element : Option ElementId) (feature : Option String) :
    Sown env s (s.createLeaf env t i element feature) := by
  have hnew := leavesFrom_createLeaf env s t i element feature
  constructor
  · rw [hnew, leavesDeliveries, leavesDeliveries, List.append_nil]
    refine ⟨(size_createLeaf ..).ge.trans' (Nat.le_succ _), ?_, ?_⟩
    · intro x hx
      rw [leaf?_createLeaf, if_neg (Tree.ne_nextId_of_contains hx)]
    · intro x
      rw [(sameButLookahead_createLeaf ..).error, leafTree, Tree.error_addLeaf]
      split_ifs with hx
      · rw [hx, Tree.node_of_not_contains s.tree.not_contains_nextId]
        exact leafError_eq env s t i feature
      · have hnone : given (leafDeliveries env.stream s.pending
            (s.tree.nextId, ⟨i, t.kind, t.span, t.isHidden, feature⟩)) x = [] := by
          simp [given, leafDeliveries, Ne.symm hx]
        rw [hnone]
        rfl
  · rw [hnew]
    rfl

theorem leafClosed_sown (env : Setting σ γ) : LeafClosed env (Sown env) where
  refl := Sown.refl
  trans := Sown.trans
  createLeaf := sown_createLeaf env
  note s lastToken lastNode :=
    have h : Noted s { s with lastToken, lastNode } [] := noted_of_eq rfl rfl
    h.sown

/-! ### Composites and elements -/

theorem noted_newComposite (env : Setting σ γ) (s : Session σ γ) (element : ElementId) :
    Noted s (s.newComposite env element) [] := by
  refine noted_nil ?_ Tree.leaf?_addComposite Tree.error_addComposite rfl
  show s.tree.size ≤ (s.tree.addComposite ..).size
  rw [Tree.size_addComposite]
  exact Nat.le_succ _

theorem noted_merge {child : NodeId} (hl : Linked s) (hm : s.tree.Mergeable s.current child) :
    Noted s (s.merge child) [] := by
  have ht := sameButLookahead_merge s child
  refine noted_nil ?_ (leaf?_merge hl hm) ?_ rfl
  · rw [ht.size, Tree.size_absorb]
  · intro x
    rw [ht.error, Tree.error_absorb hl.wellFormed hm]

theorem noted_afterRuleCall (hl : Linked s) : Noted s (s.afterRuleCall env) [] := by
  cases hp : s.tree.parent? s.current with
  | none =>
    rw [afterRuleCall_of_parent?_eq_none hp]
    exact noted_of_eq rfl rfl
  | some p =>
    rw [afterRuleCall_eq hp]
    cases hc : s.absorbed? env with
    | none => exact noted_of_eq rfl rfl
    | some child => exact (noted_merge hl (mergeable_of_absorbed? hc)).trans (noted_of_eq rfl rfl)

theorem noted_wrapCurrent (s : Session σ γ) (action : ElementId) :
    Noted s (s.wrapCurrent action) [] := by
  refine noted_nil ?_ (leaf?_wrapCurrent s action) ?_ rfl
  · rw [size_wrapCurrent]
    exact Nat.le_succ _
  · intro x
    rw [(sameButLookahead_wrapCurrent s action).error, Tree.error_wrap]

theorem noted_associate (s : Session σ γ) (node : NodeId) (element : SemanticId) :
    Noted s (s.associate node element).2 [] := by
  rw [associate]
  cases h : s.tree.bind? node element with
  | none => exact noted_of_eq rfl rfl
  | some tree =>
    have hn := Tree.sameNodes_bind? h
    exact noted_nil hn.size.ge hn.leaf? (Tree.error_bind? h) rfl

theorem noted_make (env : Setting σ γ) (s : Session σ γ) (classifier : String) :
    Noted s (s.make env classifier).2 [] :=
  noted_of_eq rfl rfl

theorem noted_create {site : BindingSite} {rule : ElementId} {answer : Except ParseError SemanticId}
    (h : s.create env site rule = .ok (answer, s')) : Noted s s' [] := by
  rcases create_cases h with rfl | ⟨classifier, rfl | ⟨element, rfl⟩⟩
  · exact noted_of_eq rfl rfl
  · exact noted_make env s classifier
  · exact (noted_make env s classifier).trans (noted_associate ..)

theorem noted_attachError {id : NodeId} (hid : s.tree.Contains id) (e : SyntaxError)
    (origin : Origin) :
    Noted s { s with tree := s.tree.attachError id e } [⟨id, e, origin⟩] := by
  have hn := Tree.sameNodes_attachError s.tree id e
  refine ⟨⟨hn.size.ge, fun x _ => hn.leaf? x, ?_⟩, hn.leaf?, rfl⟩
  intro x
  show ((s.tree.attachError id e).node x).error = _
  rw [Tree.attachError, Tree.node_modify]
  by_cases hx : x = id
  · rw [if_pos ⟨hx, hid⟩]
    simp [given, hx]
  · rw [if_neg fun h => hx h.1]
    simp [given, Ne.symm hx]

/-- A refusal is given to its node. -/
theorem noted_offered (env : Setting σ γ) (hl : Linked s) (factory : σ)
    (refusal? : Option ConversionError) :
    Noted s { s with factory, tree := s.offered env refusal? }
      (refusal?.map (s.refusal env)).toList := by
  have hf : Noted s { s with factory } [] := noted_of_eq rfl rfl
  cases refusal? with
  | none => exact hf
  | some e =>
    exact hf.trans (noted_attachError (s := { s with factory }) (contains_refusalTarget hl e) _ _)

theorem noted_assignAt (env : Setting σ γ) (hl : Linked s) (mode : AssignMode) (a : Assignment)
    (node : NodeId) : Noted s (s.assignAt env mode a node).2
      ((s.refusal? env mode a node).map (s.refusal env)).toList := by
  obtain ⟨factory, h | ⟨e, hnone, h⟩⟩ := assignAt_cases env s mode a node
  · rw [h]
    exact noted_offered env hl factory _
  · rw [h, hnone]
    exact noted_of_eq rfl rfl

/-- An action does not tell whether its value was refused: it goes on all the same. -/
theorem noted_createWrapper {action : ElementId} {value : Option SemanticId}
    {answer : Except ParseError SemanticId} (hl : Linked s)
    (h : s.createWrapper env action value = .ok (answer, s')) :
    Noted s s' ((s.actionRefusal? env action value).map (s.refusal env)).toList := by
  rcases createWrapper_cases_offered h with
    ⟨e, factory, -, -, hnone, rfl⟩ | ⟨element, factory, t, ht, ha⟩
  · rw [hnone]
    exact noted_of_eq rfl rfl
  · have ho := noted_offered env hl factory (s.actionRefusal? env action value)
    have hb := noted_associate (t.wrapCurrent action) t.tree.nextId element
    rw [← ha] at hb
    rw [← ht] at ho
    have hw := ho.trans ((noted_wrapCurrent t action).trans hb)
    rwa [List.append_nil, List.append_nil] at hw

end Gives

/-! ## Steps -/

section Slot

variable {env : Setting σ γ} {s s' : Session σ γ}

theorem pending_report (env : Setting σ γ) (s : Session σ γ) (e : RecognitionError) :
    (s.report env e).pending =
      s.pending.or ((if s.isRecovering then none else some e).map (s.syntaxError env)) := by
  rw [report]
  split_ifs
  · rw [Option.map_none, Option.or_none]
  · rfl

theorem tree_report (env : Setting σ γ) (s : Session σ γ) (e : RecognitionError) :
    (s.report env e).tree = s.tree := by
  obtain ⟨_, _, h⟩ := exists_report env s e
  rw [h]

theorem slot_eq (env : Setting σ γ) (tr : Transition σ γ) : tr.slot env =
    tr.before.pending.or
      ((tr.op.reported? env tr.before tr.answer).map (tr.before.syntaxError env)) := by
  rw [Transition.slot, Transition.message?, Transition.posted?]
  cases tr.before.pending <;> rfl

/-- The message of the error that is reported, if any is. -/
theorem pending_matchCurrent (env : Setting σ γ) (s : Session σ γ) (expected : TokenKind)
    (follow : TokenSet) :
    (s.matchCurrent env (s.currentToken env) expected follow).2.pending = s.pending.or
      ((if s.isRecovering then none else s.matchError? env expected follow).map
        (s.syntaxError env)) := by
  have hnone : s.pending = s.pending.or
      ((if s.isRecovering then none else none).map (s.syntaxError env)) := by
    simp
  rw [matchCurrent, matchError?, matchRepair?]
  by_cases hcurrent : (s.currentToken env).kind = expected
  · simp only [if_pos hcurrent]
    exact hnone
  by_cases hnext : (s.cursor.peek env.stream 2).kind = expected
  · simp only [if_neg hcurrent, if_pos hnext]
    exact pending_report env (s.advance env) _
  by_cases hfollow : s.mayFollow env follow
  · simp only [if_neg hcurrent, if_neg hnext, if_pos hfollow]
    exact pending_report env s _
  · simp only [if_neg hcurrent, if_neg hnext, if_neg hfollow]
    exact hnone

theorem pending_matchToken (env : Setting σ γ) (s : Session σ γ) (expected : TokenKind)
    (follow : TokenSet) :
    (s.matchToken env expected follow).2.pending = s.pending.or
      ((if s.isRecovering then none else s.matchError? env expected follow).map
        (s.syntaxError env)) := by
  rw [matchToken_eq]
  exact pending_matchCurrent ..

theorem tree_matchToken (env : Setting σ γ) (s : Session σ γ) (expected : TokenKind)
    (follow : TokenSet) : (s.matchToken env expected follow).2.tree = s.tree := by
  obtain ⟨_, _, _, h⟩ := exists_matchToken env s expected follow
  rw [h]

theorem pending_recover (env : Setting σ γ) (s : Session σ γ) (e : RecognitionError) :
    (s.recover env e).pending = s.pending.or (some (s.syntaxError env e)) := by
  rw [recover]
  dsimp only
  split_ifs <;> rfl

theorem tree_recover (env : Setting σ γ) (s : Session σ γ) (e : RecognitionError) :
    (s.recover env e).tree = s.tree := by
  obtain ⟨_, _, _, h⟩ := exists_recover env s e
  rw [h]

end Slot

/-- An operation gives its messages to nodes and keeps in the slot what no leaf has taken. -/
structure Transition.Delivers (env : Setting σ γ) (tr : Transition σ γ) : Prop extends
    Gives tr.before tr.after (tr.deliveries env) where
  /-- The last operation of a parse empties the slot. -/
  pending : tr.after.pending = if tr.op = .command .appendAll then none else tr.rest env

section Delivers

variable {env : Setting σ γ} {s s' : Session σ γ} {op : Operation} {answer : op.Answer}

theorem refusal?_eq_none (hr : op.refused? env s = none) :
    (⟨s, op, answer, s'⟩ : Transition σ γ).refusal? env = none := by
  rw [Transition.refusal?, hr]
  rfl

theorem sweep?_eq_none (hop : op ≠ .command .appendAll) :
    (⟨s, op, answer, s'⟩ : Transition σ γ).sweep? env = none :=
  if_neg hop

/-- Leaves take from the slot, in which the operation has put its message. -/
theorem delivers_of_sown (hop : op ≠ .command .appendAll) (hr : op.refused? env s = none)
    (h : Sown env { s with pending := (⟨s, op, answer, s'⟩ : Transition σ γ).slot env } s') :
    (⟨s, op, answer, s'⟩ : Transition σ γ).Delivers env := by
  refine ⟨⟨h.size, h.leaf?, ?_⟩, h.pending.trans (if_neg hop).symm⟩
  rw [Transition.deliveries, refusal?_eq_none hr, sweep?_eq_none hop, Option.toList_none,
    List.append_nil, List.append_nil]
  exact h.error

theorem slot_of_reported?_eq_none (h : op.reported? env s answer = none) :
    (⟨s, op, answer, s'⟩ : Transition σ γ).slot env = s.pending := by
  rw [slot_eq]
  dsimp only
  rw [h, Option.map_none, Option.or_none]

theorem delivers_of_sown_of_none (hop : op ≠ .command .appendAll) (hr : op.refused? env s = none)
    (hn : op.reported? env s answer = none) (h : Sown env s s') :
    (⟨s, op, answer, s'⟩ : Transition σ γ).Delivers env := by
  refine delivers_of_sown hop hr ?_
  rw [slot_of_reported?_eq_none hn]
  exact h

/-- Where the slot holds the message and the tree is the same, no leaf was made. -/
theorem sown_of_reported {t : Session σ γ} (ht : t.tree = s.tree) (hp : t.pending =
      s.pending.or ((op.reported? env s answer).map (s.syntaxError env))) :
    Sown env { s with pending := (⟨s, op, answer, s'⟩ : Transition σ γ).slot env } t := by
  apply Noted.sown
  refine noted_of_eq ht ?_
  rw [slot_eq]
  exact hp

/-- Where the slot is left alone, only a refusal is given to a node. -/
theorem delivers_of_noted (hop : op ≠ .command .appendAll)
    (hn : op.reported? env s answer = none)
    (h : Noted s s' ((op.refused? env s).map (s.refusal env)).toList) :
    (⟨s, op, answer, s'⟩ : Transition σ γ).Delivers env := by
  have hnil : (⟨s, op, answer, s'⟩ : Transition σ γ).newLeaves = [] := leavesFrom_eq_nil h.leaves
  refine ⟨⟨h.size, h.leaf?, ?_⟩, ?_⟩
  · rw [Transition.deliveries, hnil, sweep?_eq_none hop, leavesDeliveries, List.nil_append,
      Option.toList_none, List.append_nil]
    exact h.error
  · rw [if_neg hop, Transition.rest, hnil, slot_of_reported?_eq_none hn]
    exact h.pending

theorem delivers_of_quiet (hop : op ≠ .command .appendAll) (hn : op.reported? env s answer = none)
    (hr : op.refused? env s = none) (h : Noted s s' []) :
    (⟨s, op, answer, s'⟩ : Transition σ γ).Delivers env :=
  delivers_of_sown_of_none hop hr hn h.sown

/-- Where the last leaf is depends on the links and on the leaves only. -/
theorem Tree.SameNodes.lastLeaf? {t t' : Tree} (h : t.SameNodes t') (id : NodeId) :
    t'.lastLeaf? id = t.lastLeaf? id := by
  have hwithin (n : ℕ) : t'.lastLeafWithin? n = t.lastLeafWithin? n := by
    induction n with
    | zero => rfl
    | succ n ih =>
      funext x
      rw [Tree.lastLeafWithin?, Tree.lastLeafWithin?, ih, Tree.isLeaf, Tree.isLeaf, h.leaf?,
        ← Tree.children_shape, h.shape, Tree.children_shape]
  rw [Tree.lastLeaf?, Tree.lastLeaf?, h.size, hwithin]

/-- What waits in the slot is given to the last leaf of the open composite. -/
theorem gives_flushPending (hl : Linked s) : Gives s s.flushPending
    (s.pending.map (⟨(s.tree.lastLeaf? s.current).getD s.current, ·, .swept⟩)).toList := by
  rw [flushPending]
  cases hp : s.pending with
  | none => exact (noted_of_eq rfl rfl).toGives
  | some e =>
    have hc := Tree.contains_of_below hl.current.contains (below_lastLeaf hl)
    have h := noted_attachError hc e .swept
    exact ⟨h.size, h.leaf?, h.error⟩

theorem pending_flushPending (s : Session σ γ) : s.flushPending.pending = none := by
  rw [flushPending]
  cases hp : s.pending with
  | none => exact hp
  | some e => rfl

theorem delivers_appendAll (hl : Linked s) :
    (⟨s, .command .appendAll, (), s.appendAll env⟩ : Transition σ γ).Delivers env := by
  have hslot : (⟨s, .command .appendAll, (), s.appendAll env⟩ : Transition σ γ).slot env =
      s.pending := slot_of_reported?_eq_none rfl
  obtain ⟨s₁, h₁, hs₁⟩ : ∃ s₁, s.appendAll env = s₁.flushPending ∧
      s₁ = { s.appendRest env s.nextToken with
        cursor := (s.appendRest env s.nextToken).cursor.finish env.stream } := ⟨_, rfl, rfl⟩
  have hsown : Sown env s s₁ :=
    hs₁ ▸ ((leafClosed_sown env).appendRest s _).noted (noted_of_eq rfl rfl)
  have hl₁ : Linked s₁ := by
    obtain ⟨ts, hg, -⟩ := growth_appendRest env s s.nextToken
    exact hs₁ ▸ (steady_with _ ..).linked (hg.linked hl)
  have hsame := similar_flushPending hl₁
  have hleaves : s₁.flushPending.tree.leavesFrom s.tree.size = s₁.tree.leavesFrom s.tree.size :=
    leavesFrom_congr hsame.nodes.size hsame.nodes.leaf? _
  have hrest : (⟨s, .command .appendAll, (), s.appendAll env⟩ : Transition σ γ).rest env =
      s₁.pending := by
    rw [Transition.rest, Transition.newLeaves, hslot, hsown.pending, h₁, hleaves]
  have hsweep : (⟨s, .command .appendAll, (), s.appendAll env⟩ : Transition σ γ).sweep? env =
      s₁.pending.map (⟨(s₁.tree.lastLeaf? s₁.current).getD s₁.current, ·, .swept⟩) := by
    rw [Transition.sweep?, if_pos rfl, hrest, h₁, hsame.nodes.lastLeaf?, hsame.current]
  have hrefusal : (⟨s, .command .appendAll, (), s.appendAll env⟩ : Transition σ γ).refusal? env =
      none := rfl
  constructor
  · rw [Transition.deliveries, hsweep, hrefusal, Transition.newLeaves, hslot, h₁, hleaves,
      Option.toList_none, List.append_nil]
    exact hsown.toGives.trans (gives_flushPending hl₁)
  · rw [if_pos rfl, h₁]
    exact pending_flushPending s₁

theorem delivers_of_perform {c : Command} (hl : Linked s) (h : s.perform env c = .ok s') :
    (⟨s, .command c, (), s'⟩ : Transition σ γ).Delivers env := by
  cases c with
  | newLeaf t element =>
    exact delivers_of_sown_of_none (by simp) rfl rfl ((leafClosed_sown env).newLeaf h)
  | appendSkipped =>
    obtain rfl := Except.ok.inj h
    exact delivers_of_sown_of_none (by simp) rfl rfl ((leafClosed_sown env).appendSkipped s)
  | appendTrailing =>
    obtain rfl := Except.ok.inj h
    exact delivers_of_sown_of_none (by simp) rfl rfl ((leafClosed_sown env).appendTrailing s)
  | appendAll =>
    obtain rfl := Except.ok.inj h
    exact delivers_appendAll hl
  | report e =>
    obtain rfl := Except.ok.inj h
    exact delivers_of_sown (by simp) rfl (sown_of_reported (tree_report ..) (pending_report ..))
  | recover e =>
    obtain rfl := Except.ok.inj h
    exact delivers_of_sown (by simp) rfl (sown_of_reported (tree_recover ..) (pending_recover ..))
  | enterRule =>
    obtain rfl := Except.ok.inj h
    exact delivers_of_quiet (by simp) rfl rfl ((sameButLookahead_enterRule s).noted rfl)
  | newComposite element =>
    obtain rfl := Except.ok.inj h
    exact delivers_of_quiet (by simp) rfl rfl (noted_newComposite env s element)
  | afterRuleCall =>
    obtain rfl := Except.ok.inj h
    exact delivers_of_quiet (by simp) rfl rfl (noted_afterRuleCall hl)
  | leaveRule | pushFollow | popFollow | enterGroup | leaveGroup | selectMember
  | returnFromMember =>
    obtain rfl := Except.ok.inj h
    exact delivers_of_quiet (by simp) rfl rfl (noted_of_eq rfl rfl)

theorem delivers_of_step (hl : Linked s) (h : s.step env op = .ok (answer, s')) :
    (⟨s, op, answer, s'⟩ : Transition σ γ).Delivers env := by
  cases op with
  | command c => exact delivers_of_perform hl (perform_of_step h)
  | matchToken expected follow =>
    obtain ⟨rfl, rfl⟩ := Prod.mk.inj (Except.ok.inj h)
    exact delivers_of_sown (by simp) rfl
      (sown_of_reported (tree_matchToken ..) (pending_matchToken ..))
  | groupFailure rule group =>
    obtain ⟨_, -, -, rfl⟩ := exists_report_of_groupFailure h
    exact delivers_of_sown (by simp) rfl (sown_of_reported (tree_report ..) (pending_report ..))
  | catchError e =>
    obtain ⟨rfl, rfl⟩ := Prod.mk.inj (Except.ok.inj h)
    cases e with
    | recognition e =>
      have hr : Sown env _ (s.recover env e) :=
        @sown_of_reported _ _ env s (s.resume env e) (.catchError (.recognition e)) (.ok ()) _
          (tree_recover ..) (pending_recover ..)
      exact delivers_of_sown (by simp) rfl (hr.trans ((leafClosed_sown env).appendSkipped _))
    | _ => exact delivers_of_quiet (by simp) rfl rfl (noted_of_eq rfl rfl)
  | create site rule => exact delivers_of_quiet (by simp) rfl rfl (noted_create h)
  | createWrapper action value =>
    exact delivers_of_noted (by simp) rfl (noted_createWrapper hl h)
  | assign source mode a =>
    have hs := noted_assignAt env hl mode a (s.sourceNode source)
    rw [assignAt_of_step h] at hs
    exact delivers_of_noted (by simp) rfl hs
  | lookAt | textOf | currentText | errorHere | canSelect | canLeave =>
    obtain ⟨rfl, rfl⟩ := Prod.mk.inj (Except.ok.inj h)
    exact delivers_of_quiet (by simp) rfl rfl (noted_of_eq rfl rfl)

/-- A leaf is not merged away. -/
theorem leaf?_of_absorbed {ts : List (Transition σ γ)} {factory : σ} {groups : γ} {x : NodeId}
    (h : Reaches env (start env factory groups) ts s)
    (hx : Absorbed env ts x) : (s.tree.node x).leaf? = none := by
  induction h with
  | start =>
    obtain ⟨tr, htr, -⟩ := hx
    cases htr
  | @step ts s s' op answer hrun hs ih =>
    have hsound := sound_of_reaches hrun
    have hd := delivers_of_step hsound.toLinked hs
    have hold : s.tree.Contains x ∧ (s.tree.node x).leaf? = none := by
      obtain ⟨tr, htr, hop, ha⟩ := hx
      rcases List.mem_append.mp htr with htr | htr
      · have hx : Absorbed env ts x := ⟨tr, htr, hop, ha⟩
        exact ⟨(hsound.intact.absorbed x hx).1, ih hx⟩
      · obtain rfl := List.mem_singleton.mp htr
        have hm := mergeable_of_absorbed? ha
        exact ⟨hm.contains hsound.wellFormed, hm.leaf?⟩
    exact (hd.leaf? x hold.1).trans hold.2

end Delivers

end ParseTree
