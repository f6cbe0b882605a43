import ParseTree.Proofs.Session.Delivery

/-!
# Values that are offered to a factory

The factory stores a value, refuses it, or ends the parse. A refusal leaves a message in the tree;
otherwise only the factory changes. So an action that fails has changed nothing but the factory, and
one that goes on has left one message at most before it wraps the open composite.

## Main definitions

* `Session.offered`: the tree with the message about a refused value

## Main results

* `assignAt_cases`: a value is stored or refused, or ends the parse
* `createWrapper_cases_offered`: an action fails, or comes to wrap the open composite
-/

namespace ParseTree

open Session

variable {σ γ : Type}

/-- The tree after a value was stored or refused. A refusal leaves a message. -/
def Session.offered (env : Setting σ γ) (s : Session σ γ) (refusal? : Option ConversionError) :
    Tree :=
  refusal?.elim s.tree fun e =>
    s.tree.attachError (s.refusal env e).node (s.refusal env e).error

section Offered

variable {env : Setting σ γ} {s s' : Session σ γ} {action : ElementId} {value : Option SemanticId}

theorem semantic_offered (env : Setting σ γ) (s : Session σ γ)
    (refusal? : Option ConversionError) (x : NodeId) :
    ((s.offered env refusal?).node x).semantic = (s.tree.node x).semantic := by
  cases refusal? with
  | none => rfl
  | some e => exact Tree.semantic_attachError ..

theorem steady_offered (env : Setting σ γ) (hl : Linked s) (factory : σ)
    (refusal? : Option ConversionError) :
    Steady s { s with factory, tree := s.offered env refusal? } := by
  have hf : Steady s { s with factory } := steady_with ..
  cases refusal? with
  | none => exact hf
  | some e =>
    exact hf.trans ⟨similar_attachError (s := { s with factory }) _ _ (contains_refusalTarget hl e),
      rfl⟩

/-- A value is stored or refused, or it ends the parse and only the factory knows of it. -/
theorem assignAt_cases (env : Setting σ γ) (s : Session σ γ) (mode : AssignMode) (a : Assignment)
    (node : NodeId) : ∃ factory,
      s.assignAt env mode a node =
          (.ok (), { s with factory, tree := s.offered env (s.refusal? env mode a node) }) ∨
        ∃ e, s.refusal? env mode a node = none ∧
          s.assignAt env mode a node = (.error (.internal e), { s with factory }) := by
  rw [Session.refusal?]
  cases hoffer : s.offer env mode a node with
  | mk answer factory =>
    refine ⟨factory, ?_⟩
    cases answer with
    | ok _ =>
      refine Or.inl ?_
      cases mode <;> simp only [offer] at hoffer <;> simp only [assignAt, hoffer] <;> rfl
    | error e =>
      have hassign : s.assignAt env mode a node = refuse env { s with factory } e := by
        cases mode <;> simp only [offer] at hoffer <;> simp only [assignAt, hoffer]
      rw [hassign, refuse]
      dsimp only
      by_cases he : e.isInternal
      · rw [if_pos he, if_pos he]
        exact Or.inr ⟨e, rfl, rfl⟩
      · rw [if_neg he, if_neg he]
        exact Or.inl rfl

theorem assignAction_cases (env : Setting σ γ) (s : Session σ γ) (element : SemanticId)
    (assigned : Option (String × AssignOp)) (value : Option SemanticId) : ∃ factory,
      s.assignAction env element assigned value = (.ok (),
          { s with factory, tree := s.offered env (s.assignedRefusal? env element assigned value) }) ∨
        ∃ e, s.assignedRefusal? env element assigned value = none ∧
          s.assignAction env element assigned value = (.error (.internal e), { s with factory }) := by
  cases assigned with
  | none => exact ⟨s.factory, Or.inl rfl⟩
  | some assigned =>
    cases value with
    | none => exact ⟨s.factory, Or.inl rfl⟩
    | some value => exact assignAt_cases env s ..

/-- An action fails with the factory as the only thing that changed, or comes to wrap the open
composite. -/
theorem createWrapper_cases_offered {answer : Except ParseError SemanticId}
    (h : s.createWrapper env action value = .ok (answer, s')) :
    (∃ e factory, answer = .error e ∧ (∀ x, e ≠ .reassignment x) ∧
        s.actionRefusal? env action value = none ∧ s' = { s with factory }) ∨
      ∃ element factory t,
        t = { s with factory, tree := s.offered env (s.actionRefusal? env action value) } ∧
        (answer, s') = (t.wrapCurrent action).associate t.tree.nextId element := by
  obtain ⟨entry, hv, h⟩ := exists_of_bind_eq_ok h
  simp only [actionRefusal?, hv, Except.toOption, Option.map_some]
  split at h
  · next classifier assigned helement =>
    rw [helement]
    cases hcreate : env.factory.create classifier s.factory with
    | mk result factory =>
      have hmake : s.make env classifier = (result.mapError .internal, { s with factory }) := by
        rw [make, hcreate]
      rw [hmake] at h
      dsimp only
      rw [hmake]
      cases result with
      | error e =>
        obtain ⟨rfl, rfl⟩ := Prod.mk.inj (Except.ok.inj h)
        exact Or.inl ⟨_, factory, rfl, by simp, rfl, rfl⟩
      | ok element =>
        dsimp only [Except.mapError] at h ⊢
        obtain ⟨factory', hassign | ⟨e, hnone, hassign⟩⟩ :=
          assignAction_cases env { s with factory } element assigned value
        · rw [hassign] at h
          exact Or.inr ⟨element, factory', _, rfl, (Except.ok.inj h).symm⟩
        · rw [hassign] at h
          obtain ⟨rfl, rfl⟩ := Prod.mk.inj (Except.ok.inj h)
          exact Or.inl ⟨_, factory', rfl, by simp, hnone, rfl⟩
  · next hother =>
    obtain ⟨name, -, h⟩ := exists_of_bind_eq_ok h
    obtain ⟨rfl, rfl⟩ := Prod.mk.inj (Except.ok.inj h)
    refine Or.inl ⟨_, s.factory, rfl, by simp, ?_, rfl⟩
    split
    · next helement => exact absurd (Option.some.inj helement) (hother _ _)
    · rfl

end Offered

end ParseTree
