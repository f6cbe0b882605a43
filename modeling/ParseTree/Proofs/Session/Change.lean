import ParseTree.Proofs.Session.Growth

/-!
# What a step changes

An operation makes leaves, hands lookahead to the open composite, opens a composite, closes one or
wraps one. Whatever else it does leaves the nodes alone.

## Main definitions

* `Session.absorbed?`: the composite that closing the open one merges away
* `Session.merge`: the session after a merge
* `Operation.IsQuiet`: the operation neither hands out lookahead nor opens or closes a composite
* `Change`: what an operation did to a session

## Main results

* `step_change`: every operation changes a session in one of these ways
* `Change.linked`: a session stays linked
-/

namespace ParseTree

open Session

variable {σ γ : Type}

namespace Session

/-- The only child that closing the open composite merges with it, if it does. -/
def absorbed? (env : Setting σ γ) (s : Session σ γ) : Option NodeId :=
  if env.config.compressNodes ∧ (s.tree.parent? s.current).isSome then
    s.tree.mergeableChild? s.current
  else none

/-- The session in which the open composite has taken over its only child. -/
def merge (s : Session σ γ) (child : NodeId) : Session σ γ :=
  { s with
    attribution := (s.attribution.transfer (s.tree.absorb s.current child) child s.current).1
    tree := (s.attribution.transfer (s.tree.absorb s.current child) child s.current).2
    primary := s.primary.map fun p =>
      if some p.1 = (s.tree.node child).semantic then (p.1, redirect child s.current p.2) else p
    lastNode := s.lastNode.map (redirect child s.current) }

section Merge

variable {env : Setting σ γ} {s : Session σ γ} {child p : NodeId}

theorem mergeable_of_absorbed? (h : s.absorbed? env = some child) :
    s.tree.Mergeable s.current child := by
  rw [absorbed?] at h
  split_ifs at h
  exact Tree.mergeable_of_mergeableChild? h

theorem exists_parent_of_absorbed? (h : s.absorbed? env = some child) :
    ∃ p, s.tree.parent? s.current = some p := by
  rw [absorbed?] at h
  split_ifs at h with hc
  exact Option.isSome_iff_exists.mp hc.2

theorem compress_eq (s : Session σ γ) :
    s.compress = (s.tree.mergeableChild? s.current).elim s s.merge := by
  rw [compress, Tree.compress?]
  cases s.tree.mergeableChild? s.current <;> rfl

/-- A composite that is closed may be merged with its only child first. -/
theorem afterRuleCall_eq (hp : s.tree.parent? s.current = some p) :
    s.afterRuleCall env = { (s.absorbed? env).elim s s.merge with current := p } := by
  rw [afterRuleCall, hp, absorbed?, hp, compress_eq]
  cases env.config.compressNodes <;> rfl

theorem afterRuleCall_of_parent?_eq_none (hp : s.tree.parent? s.current = none) :
    s.afterRuleCall env = s := by
  rw [afterRuleCall, hp]

/-- A merge moves lookahead leaves and contracts the tree. -/
theorem sameButLookahead_merge (s : Session σ γ) (child : NodeId) :
    (s.tree.absorb s.current child).SameButLookahead (s.merge child).tree :=
  Tree.sameButLookahead_moveLookaheadLeaves _ child s.current

theorem shape_merge (hl : Linked s) (hm : s.tree.Mergeable s.current child) :
    (s.merge child).tree.shape = s.tree.shape.contract s.current child := by
  rw [(sameButLookahead_merge s child).shape, Tree.shape_absorb hl.wellFormed hm]

theorem leaf?_merge (hl : Linked s) (hm : s.tree.Mergeable s.current child) (x : NodeId) :
    ((s.merge child).tree.node x).leaf? = (s.tree.node x).leaf? := by
  rw [(sameButLookahead_merge s child).leaf?, Tree.leaf?_absorb hl.wellFormed hm]

theorem semantic_merge (hl : Linked s) (hm : s.tree.Mergeable s.current child) (x : NodeId) :
    ((s.merge child).tree.node x).semantic =
      if x = s.current then (s.tree.node s.current).semantic.or (s.tree.node child).semantic
      else if x = child then none else (s.tree.node x).semantic := by
  rw [(sameButLookahead_merge s child).semantic, Tree.semantic_absorb hl.wellFormed hm]

/-- The element of the child is now that of the open composite, which had no other. -/
theorem semantic_redirect_merge (hl : Linked s) (hm : s.tree.Mergeable s.current child) {x : NodeId}
    {e : SemanticId} (he : (s.tree.node x).semantic = some e) :
    ((s.merge child).tree.node (redirect child s.current x)).semantic = some e := by
  rw [redirect, semantic_merge hl hm]
  by_cases hxc : x = child
  · rw [if_pos hxc, if_pos rfl, ← hxc, he]
    cases ho : (s.tree.node s.current).semantic with
    | none => rfl
    | some outer => rw [hm.semantic outer e ho (hxc ▸ he), Option.some_or]
  · rw [if_neg hxc, if_neg hxc]
    split_ifs with hxs
    · rw [← hxs, he, Option.some_or]
    · exact he

theorem contains_merge (x : NodeId) : (s.merge child).tree.Contains x ↔ s.tree.Contains x := by
  rw [(sameButLookahead_merge s child).contains_iff, Tree.Contains, Tree.size_absorb]
  rfl

theorem isComposite_merge (hl : Linked s) (hm : s.tree.Mergeable s.current child) (x : NodeId) :
    (s.merge child).tree.IsComposite x ↔ s.tree.IsComposite x :=
  ⟨fun h => ⟨(contains_merge x).mp h.contains, (leaf?_merge hl hm x).symm.trans h.leaf?⟩,
    fun h => ⟨(contains_merge x).mpr h.contains, (leaf?_merge hl hm x).trans h.leaf?⟩⟩

theorem linked_afterRuleCall (hl : Linked s) : Linked (s.afterRuleCall env) := by
  cases hp : s.tree.parent? s.current with
  | none => rwa [afterRuleCall_of_parent?_eq_none hp]
  | some p =>
    have hpc := Tree.isComposite_of_mem_children (hl.wellFormed.mem_of_parent? hp)
    rw [afterRuleCall_eq hp]
    cases hc : s.absorbed? env with
    | none => exact ⟨hl.wellFormed, hpc⟩
    | some child =>
      have hm := mergeable_of_absorbed? hc
      refine ⟨?_, (isComposite_merge hl hm p).mpr hpc⟩
      show (s.merge child).tree.shape.WellFormed
      rw [shape_merge hl hm]
      exact hl.wellFormed.contract hm.children

end Merge

section Wrap

variable {s : Session σ γ} {action : ElementId}

/-- A wrapper takes over the lookahead leaves of the composite that it wraps. -/
theorem sameButLookahead_wrapCurrent (s : Session σ γ) (action : ElementId) :
    (s.tree.wrap action s.current).SameButLookahead (s.wrapCurrent action).tree :=
  Tree.sameButLookahead_moveLookaheadLeaves _ s.current s.tree.nextId

theorem shape_wrapCurrent (hl : Linked s) (action : ElementId) :
    (s.wrapCurrent action).tree.shape = s.tree.shape.interpose s.current s.tree.nextId := by
  rw [(sameButLookahead_wrapCurrent s action).shape,
    Tree.shape_wrap hl.wellFormed hl.current.contains]

theorem leaf?_wrapCurrent (s : Session σ γ) (action : ElementId) (x : NodeId) :
    ((s.wrapCurrent action).tree.node x).leaf? = (s.tree.node x).leaf? := by
  rw [(sameButLookahead_wrapCurrent s action).leaf?, Tree.leaf?_wrap]

theorem size_wrapCurrent (s : Session σ γ) (action : ElementId) :
    (s.wrapCurrent action).tree.size = s.tree.size + 1 := by
  rw [(sameButLookahead_wrapCurrent s action).size, Tree.size_wrap]

theorem linked_wrapCurrent (hl : Linked s) (action : ElementId) :
    Linked (s.wrapCurrent action) := by
  have h := (sameButLookahead_wrapCurrent s action).toSameNodes
  refine ⟨?_, (h.isComposite_iff _).mpr Tree.isComposite_wrap_nextId⟩
  rw [shape_wrapCurrent hl]
  exact hl.wellFormed.interpose s.tree.isolated_nextId
    (Tree.ne_nextId_of_contains hl.current.contains)

end Wrap

section Open

variable {env : Setting σ γ} {s : Session σ γ}

theorem linked_newComposite (hl : Linked s) (element : ElementId) :
    Linked (s.newComposite env element) := by
  refine ⟨?_, Tree.isComposite_addComposite_nextId⟩
  show (s.tree.addComposite ..).shape.WellFormed
  rw [Tree.shape_addComposite hl.current]
  exact hl.wellFormed.append s.tree.isolated_nextId
    (Tree.ne_nextId_of_contains hl.current.contains)

/-- Handing out lookahead changes no more of the tree than lookahead leaves. -/
theorem sameButLookahead_enterRule (s : Session σ γ) :
    s.tree.SameButLookahead s.enterRule.tree :=
  Attribution.sameButLookahead_claimAll ..

theorem linked_enterRule (hl : Linked s) : Linked s.enterRule := by
  have h := (sameButLookahead_enterRule s).toSameNodes
  exact ⟨h.shape ▸ hl.wellFormed, (h.isComposite_iff _).mpr hl.current⟩

end Open

end Session

/-! ## Changes -/

/-- The operation neither hands out lookahead nor opens or closes a composite. -/
def Operation.IsQuiet : Operation → Prop
  | .command .enterRule | .command (.newComposite _) | .command .afterRuleCall => False
  | _ => True

/-- What an operation did to a session. -/
inductive Change (env : Setting σ γ) (s : Session σ γ) : Operation → Session σ γ → Prop
  /-- The recorded lookahead was handed to the open composite. -/
  | enter : Change env s (.command .enterRule) s.enterRule
  /-- A composite was opened. -/
  | opened (element : ElementId) :
    Change env s (.command (.newComposite element)) (s.newComposite env element)
  /-- The open composite was closed. -/
  | closed : Change env s (.command .afterRuleCall) (s.afterRuleCall env)
  /-- The open composite was wrapped. -/
  | wrapped {action : ElementId} {value : Option SemanticId} {s₁ s' : Session σ γ}
    (h : Steady s s₁) (h' : Steady (s₁.wrapCurrent action) s') :
    Change env s (.createWrapper action value) s'
  /-- Leaves were made; in most cases, none. -/
  | grown {op : Operation} {ts : List Token} {s' : Session σ γ} (hop : op.IsQuiet)
    (h : Growth env s ts s')
    (hts : env.stream.Contract → op.IsTidy env s → InOrder env.stream s s' ts) : Change env s op s'

section Change

variable {env : Setting σ γ} {s s' : Session σ γ} {op : Operation}

theorem Change.of_steady (hop : op.IsQuiet) (h : Steady s s') : Change env s op s' :=
  .grown hop (Growth.done.rest h.toSimilar) fun _ _ => inOrder_of_lastToken h.lastToken

theorem Change.linked (h : Change env s op s') (hl : Linked s) : Linked s' := by
  cases h with
  | enter => exact linked_enterRule hl
  | opened element => exact linked_newComposite hl element
  | closed => exact linked_afterRuleCall hl
  | wrapped h h' => exact h'.linked (linked_wrapCurrent (h.linked hl) _)
  | grown _ h _ => exact h.linked hl

/-- An action makes an element, stores the value in it, wraps the open composite and binds the
element to the wrapper, or stops before. -/
theorem createWrapper_cases {action : ElementId} {value : Option SemanticId}
    {answer : Except ParseError SemanticId}
    (h : s.createWrapper env action value = .ok (answer, s')) :
    s' = s ∨ ∃ classifier, s' = (s.make env classifier).2 ∨ ∃ element assigned t,
      t = ((s.make env classifier).2.assignAction env element assigned value).2 ∧
        (s' = t ∨ s' = ((t.wrapCurrent action).associate t.tree.nextId element).2) := by
  obtain ⟨entry, -, h⟩ := exists_of_bind_eq_ok h
  split at h
  · next classifier assigned _ =>
    refine Or.inr ⟨classifier, ?_⟩
    split at h
    · next hmake =>
      obtain ⟨-, rfl⟩ := Prod.mk.inj (Except.ok.inj h)
      rw [hmake]
      exact Or.inl rfl
    · next element _ hmake =>
      rw [hmake]
      refine Or.inr ⟨element, assigned, _, rfl, ?_⟩
      split at h
      · next hassign =>
        obtain ⟨-, rfl⟩ := Prod.mk.inj (Except.ok.inj h)
        rw [hassign]
        exact Or.inl rfl
      · next hassign =>
        rw [hassign]
        exact Or.inr (congrArg Prod.snd (Except.ok.inj h)).symm
  · obtain ⟨_, -, h⟩ := exists_of_bind_eq_ok h
    obtain ⟨-, rfl⟩ := Prod.mk.inj (Except.ok.inj h)
    exact Or.inl rfl

theorem createWrapper_change {action : ElementId} {value : Option SemanticId}
    {answer : Except ParseError SemanticId} (hl : Linked s)
    (h : s.createWrapper env action value = .ok (answer, s')) :
    Change env s (.createWrapper action value) s' := by
  rcases createWrapper_cases h with
    rfl | ⟨classifier, rfl | ⟨element, assigned, t, ht, hs'⟩⟩
  · exact .of_steady trivial (.refl _)
  · exact .of_steady trivial (steady_make env s classifier)
  · have hm := steady_make env s classifier
    have ha : Steady s t := ht ▸ hm.trans (steady_assignAction env (hm.linked hl))
    rcases hs' with rfl | rfl
    · exact .of_steady trivial ha
    · have hw := linked_wrapCurrent (ha.linked hl) action
      exact .wrapped ha (steady_associate hw (Or.inl rfl) element)

theorem perform_change {c : Command} (hl : Linked s) (h : s.perform env c = .ok s') :
    Change env s (.command c) s' := by
  cases c with
  | enterRule =>
    obtain rfl := Except.ok.inj h
    exact .enter
  | newComposite element =>
    obtain rfl := Except.ok.inj h
    exact .opened element
  | afterRuleCall =>
    obtain rfl := Except.ok.inj h
    exact .closed
  | leaveRule =>
    obtain rfl := Except.ok.inj h
    exact .of_steady trivial (steady_leaveRule s)
  | newLeaf t element =>
    obtain ⟨ts, hg, hts⟩ := growth_newLeaf hl h
    exact .grown trivial hg hts
  | appendSkipped =>
    obtain rfl := Except.ok.inj h
    obtain ⟨ts, hg, hts⟩ := growth_appendSkipped env s
    exact .grown trivial hg fun hc _ => hts hc
  | appendTrailing =>
    obtain rfl := Except.ok.inj h
    obtain ⟨ts, hg, hts⟩ := growth_appendTrailing env s
    exact .grown trivial hg hts
  | appendAll =>
    obtain rfl := Except.ok.inj h
    obtain ⟨ts, hg, hts⟩ := growth_appendAll env hl
    exact .grown trivial hg fun hc _ => hts hc
  | report e =>
    obtain rfl := Except.ok.inj h
    exact .of_steady trivial (steady_report env s e)
  | recover e =>
    obtain rfl := Except.ok.inj h
    exact .of_steady trivial (steady_recover env s e)
  | pushFollow | popFollow | enterGroup | leaveGroup | selectMember | returnFromMember =>
    obtain rfl := Except.ok.inj h
    exact .of_steady trivial (steady_with ..)

theorem step_change {answer : op.Answer} (hl : Linked s)
    (h : s.step env op = .ok (answer, s')) : Change env s op s' := by
  cases op with
  | command c => exact perform_change hl (perform_of_step h)
  | matchToken expected follow =>
    have hs := steady_matchToken env s expected follow
    rw [Except.ok.inj h] at hs
    exact .of_steady trivial hs
  | groupFailure rule group => exact .of_steady trivial (steady_groupFailure h)
  | catchError e =>
    obtain ⟨ts, hg, hts⟩ := growth_catchError env s e
    rw [Except.ok.inj h] at hg hts
    exact .grown trivial hg fun hc _ => hts hc
  | create site rule => exact .of_steady trivial (steady_create hl h)
  | createWrapper action value => exact createWrapper_change hl h
  | assign source mode a =>
    have hs := steady_assignAt env hl mode a (s.sourceNode source)
    rw [assignAt_of_step h] at hs
    exact .of_steady trivial hs
  | lookAt | textOf | currentText | errorHere | canSelect | canLeave =>
    obtain ⟨-, rfl⟩ := Prod.mk.inj (Except.ok.inj h)
    exact .of_steady trivial (steady_with ..)

end Change

end ParseTree
