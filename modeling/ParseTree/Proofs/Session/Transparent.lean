import ParseTree.Proofs.Session.Lockstep
import ParseTree.Proofs.Session.Sound

/-!
# Merging composites is transparent

With the standard messages and a model, a procedure cannot tell whether composites are merged when
they are closed. What it is answered, the model that it builds and the leaves of the tree are the
same; the tree itself is that of the other run with chains of composites contracted.

## Main definitions

* `Transition.exchange`: an operation with its answer
* `Parse.Contracts`: a parse is another one with chains of composites contracted

## Main results

* `alike_run`: a procedure is answered the same with merges and without
* `parse_compressing`: so parses end alike, and the one contracts the other
-/

namespace ParseTree

open Session Relation

variable {γ : Type}

/-- An operation that was called and its answer. -/
def Transition.exchange {σ : Type} (tr : Transition σ γ) : (op : Operation) × op.Answer :=
  ⟨tr.op, tr.answer⟩

/-- A parse is another one with chains of composites contracted, each into its first node. -/
structure Parse.Contracts (a b : Parse) : Prop where
  /-- The entry rules produced the same element. -/
  element : a.element = b.element
  /-- The same composite was open at the end. -/
  entry : a.entry = b.entry
  /-- The leaves are the same, in the same order. -/
  leaves : a.syntaxTree.leaves = b.syntaxTree.leaves
  /-- They say the same. -/
  leaf : ∀ x ∈ a.syntaxTree.leaves,
    (a.syntaxTree.tree.node x).leaf? = (b.syntaxTree.tree.node x).leaf? ∧
      (a.syntaxTree.tree.node x).grammar = (b.syntaxTree.tree.node x).grammar ∧
      (a.syntaxTree.tree.node x).error = (b.syntaxTree.tree.node x).error
  /-- Each node stands for a chain in which the next one is a composite and the only child. -/
  nodes : ∃ chain : NodeId → List NodeId,
    b.syntaxTree.nodes = a.syntaxTree.nodes.flatMap chain ∧
    ∀ x ∈ a.syntaxTree.nodes,
      (∃ rest, chain x = x :: rest) ∧
      ((chain x).IsChain fun p c =>
        b.syntaxTree.tree.children p = [c] ∧ b.syntaxTree.tree.IsComposite c) ∧
      a.syntaxTree.tree.children x =
        (chain x).getLast?.elim [] b.syntaxTree.tree.children ∧
      (a.syntaxTree.tree.node x).grammar =
        (chain x).flatMap (fun c => (b.syntaxTree.tree.node c).grammar) ∧
      (∀ y, y ∈ a.syntaxTree.tree.lookaheadLeaves x ↔
        ∃ c ∈ chain x, y ∈ b.syntaxTree.tree.lookaheadLeaves c) ∧
      ∀ e, (a.syntaxTree.tree.node x).semantic = some e ↔
        ∃ c ∈ chain x, (b.syntaxTree.tree.node c).semantic = some e

/-- Both parses fail with the same error, or both complete and the one contracts the other. -/
def EndAlike : Except ParseError Parse → Except ParseError Parse → Prop
  | .error e, .error e' => e = e'
  | .ok a, .ok b => a.Contracts b
  | _, _ => False

section Run

variable {env : Setting Model γ} {factory : Model} {groups : γ} {h : Chains}
  {s u : Session Model γ} {ts : List (Transition Model γ)} {α : Type}

theorem parallel_start (env : Setting Model γ) (factory : Model) (groups : γ) :
    Parallel .single (start env factory groups) (start env factory groups) where
  left := linked_start ..
  right := linked_start ..
  root := Nat.zero_lt_one
  tree := Tree.contracts_refl _
  opened _ _ := rfl
  attribution := Attribution.contracts_start ..
  lastNode := rfl
  primary := rfl
  rest := rfl

/-- A procedure is answered the same with merges and without. -/
theorem alike_run (hr : Reaches (env.compressing true).modelled (start env factory groups) ts s)
    (hp : Parallel h s u) (p : Procedure α) :
    Alike (p.run (env.compressing true).modelled s) (p.run (env.compressing false).modelled u) ∧
      (p.history (env.compressing true).modelled s).map Transition.exchange =
        (p.history (env.compressing false).modelled u).map Transition.exchange := by
  induction p generalizing h s u ts with
  | pure a => exact ⟨.answer a hp, rfl⟩
  | call op next ih =>
    have hsound : Sound _ s := sound_of_reaches hr
    have hstep := hp.step env hsound.intact op
    rw [Procedure.run, Procedure.run, Procedure.history, Procedure.history]
    cases hs : s.step (env.compressing true).modelled op with
    | error fault =>
      rw [hs] at hstep
      generalize u.step (env.compressing false).modelled op = result at hstep
      cases hstep
      exact ⟨.fault fault, rfl⟩
    | ok r =>
      obtain ⟨answer, s'⟩ := r
      rw [hs] at hstep
      generalize u.step (env.compressing false).modelled op = result at hstep
      cases hstep with
      | answer _ hp' =>
        obtain ⟨hrun, hhistory⟩ := ih answer (hr.step hs) hp'
        refine ⟨hrun, ?_⟩
        exact congrArg (List.cons (⟨op, answer⟩ : (op : Operation) × op.Answer)) hhistory

/-- Every element of a sound session has its node below the root, unless something is above it. -/
theorem Sound.below_root {σ : Type} {A : NodeId → Prop} {s : Session σ γ} (hs : Sound A s)
    (hr : s.tree.parent? Tree.root = none) :
    ∀ x ∈ s.primary.map (·.2), s.tree.shape.Below x Tree.root := by
  intro x hx
  obtain ⟨q, hq, rfl⟩ := List.mem_map.mp hx
  obtain ⟨hcontains, hremains, -⟩ := hs.primary q hq
  exact hs.intact.below_root hs.wellFormed hr hcontains hremains

section Result

variable {A B : NodeId → Prop} (hp : Parallel h s u) (env env' : Setting Model γ)

include hp

theorem Parallel.head_root : h.head Tree.root = Tree.root :=
  Chains.head_of_single (hp.opened _ (Or.inr ReflTransGen.refl))

/-- The check of the tree finds the same in sessions in parallel. -/
theorem Parallel.violation? (hs : Sound A s) (hu : Sound B u) (hstream : env'.stream = env.stream) :
    (s.syntaxTree env').violation? = (u.syntaxTree env).violation? := by
  rw [SyntaxTree.violation?, SyntaxTree.violation?, syntaxTree, syntaxTree, hstream]
  refine hp.tree.violation? hp.left.wellFormed hp.right.wellFormed hp.root ?_ hs.below_root
    hu.below_root
  intro x hx
  exact hp.opened x (Or.inr hx)

/-- Parses that sessions in parallel stand for. -/
theorem Parallel.contracts {st st' : Statistics} (element : Option SemanticId) :
    Parse.Contracts ⟨element, s.syntaxTree env', s.current, st⟩
      ⟨element, u.syntaxTree env, u.current, st'⟩ := by
  have ht := hp.left.wellFormed
  have hu := hp.right.wellFormed
  have hroot := hp.head_root
  refine ⟨rfl, hp.current, hp.tree.leaves ht hu hp.root hroot, ?_, h.chain,
    hp.tree.descendants ht hu hp.root hroot, ?_⟩
  · intro x hx
    have hleaf := Option.isSome_iff_ne_none.mp (List.mem_filter.mp hx).2
    have hagrees := hp.tree.agrees (hp.tree.chain_of_leaf (hp.tree.leaf? x ▸ hleaf))
    exact ⟨hagrees.leaf?, hagrees.grammar, hagrees.error hleaf⟩
  · intro x hx
    refine ⟨h.exists_chain_eq_cons (hp.tree.head_of_mem_descendants ht hp.root hroot hx), ?_,
      hp.tree.children x, hp.tree.grammar x, hp.tree.lookahead x, hp.tree.semantic x⟩
    refine (hp.tree.links x).imp ?_
    rintro p c ⟨hchildren, hleaf⟩
    refine ⟨hchildren, Tree.contains_of_parent? (hu.parent?_of_mem (p := p) ?_), hleaf⟩
    rw [Tree.children_shape, hchildren]
    exact List.mem_singleton_self c

/-- Sessions in parallel stand for parses that fail alike or contract each other. -/
theorem Parallel.result (hs : Sound A s) (hu : Sound B u) (hstream : env'.stream = env.stream)
    (hcheck : env'.config.checkInvariants = env.config.checkInvariants)
    (element : Option SemanticId) : EndAlike (s.result env' element) (u.result env element) := by
  rw [Session.result, Session.result, hp.violation? env env' hs hu hstream, hcheck]
  cases if env.config.checkInvariants then (u.syntaxTree env).violation? else none with
  | some violation => rfl
  | none => exact hp.contracts env env' element

end Result

theorem parallel_openEntry (env : Setting Model γ) (factory : Model) (groups : γ)
    (rule : ElementId) :
    Parallel .single ((start env factory groups).openEntry (env.compressing true).modelled rule)
      ((start env factory groups).openEntry (env.compressing false).modelled rule) :=
  ((parallel_start env factory groups).newComposite env rule).outer
    (f := (·.pushFollow (.ofList [.endOfInput]))) (fun _ => rfl) rfl

/-- The end of a parse is the same with merges and without. -/
theorem Parallel.finish
    (hr : Reaches (env.compressing true).modelled (start env factory groups) ts s)
    (hp : Parallel h s u) : ∃ h', Parallel h' (s.finish (env.compressing true).modelled)
      (u.finish (env.compressing false).modelled) := by
  have halike := (alike_run hr hp finishing).1
  rw [run_finishing, run_finishing] at halike
  cases halike with
  | answer _ hp' => exact ⟨_, hp'⟩

/-- Parses end alike with merges and without. -/
theorem Parallel.complete {us : List (Transition Model γ)}
    (hr : Reaches (env.compressing true).modelled (start env factory groups) ts s)
    (hr' : Reaches (env.compressing false).modelled (start env factory groups) us u)
    (hp : Parallel h s u) (outcome : Except ParseError (Option SemanticId)) :
    (s.complete (env.compressing true).modelled outcome).2.factory =
        (u.complete (env.compressing false).modelled outcome).2.factory ∧
      EndAlike (s.complete (env.compressing true).modelled outcome).1
        (u.complete (env.compressing false).modelled outcome).1 := by
  cases outcome with
  | error e => exact ⟨hp.factory, rfl⟩
  | ok element =>
    obtain ⟨h', hp'⟩ := hp.finish hr
    have hs := sound_of_reaches (hr.trans (Procedure.reaches_history (run_finishing _ s)))
    have hu := sound_of_reaches (hr'.trans (Procedure.reaches_history (run_finishing _ u)))
    have hcomplete (env : Setting Model γ) (s : Session Model γ) : s.complete env (.ok element) =
        ((s.finish env).result env element, s.finish env) := rfl
    rw [hcomplete, hcomplete]
    exact ⟨hp'.factory, hp'.result _ _ hs hu rfl rfl element⟩

end Run

/-- A procedure that sees the session through its answers only is answered the same whether
composites are merged or not. The parse fails alike, builds the same model and, if it completes, has
the same leaves; its tree is that of the other parse with chains of composites contracted. -/
theorem parse_compressing (env : Setting Model γ) (factory : Model) (groups : γ) (rule : ElementId)
    (p : RuleProcedure) :
    (p.history (env.compressing true).modelled
        ((start env factory groups).openEntry (env.compressing true).modelled rule)).map
          Transition.exchange =
      (p.history (env.compressing false).modelled
        ((start env factory groups).openEntry (env.compressing false).modelled rule)).map
          Transition.exchange ∧
    match (start env factory groups).parse (env.compressing true).modelled rule p,
      (start env factory groups).parse (env.compressing false).modelled rule p with
    | .error fault, .error fault' => fault = fault'
    | .ok (result, s), .ok (result', u) => s.factory = u.factory ∧ EndAlike result result'
    | _, _ => False := by
  obtain ⟨ts, hr⟩ :=
    reaches_openEntry (env.compressing true).modelled (start env factory groups) rule
  obtain ⟨us, hr'⟩ :=
    reaches_openEntry (env.compressing false).modelled (start env factory groups) rule
  obtain ⟨hrun, hhistory⟩ := alike_run hr (parallel_openEntry env factory groups rule) p
  refine ⟨hhistory, ?_⟩
  cases hs : p.run (env.compressing true).modelled
    ((start env factory groups).openEntry (env.compressing true).modelled rule) with
  | error fault =>
    rw [hs] at hrun
    cases hu : p.run (env.compressing false).modelled
      ((start env factory groups).openEntry (env.compressing false).modelled rule) with
    | error fault' =>
      rw [hu] at hrun
      cases hrun
      simp only [parse, hs, hu]
      rfl
    | ok r =>
      rw [hu] at hrun
      cases hrun
  | ok r =>
    rw [hs] at hrun
    cases hu : p.run (env.compressing false).modelled
      ((start env factory groups).openEntry (env.compressing false).modelled rule) with
    | error fault =>
      rw [hu] at hrun
      cases hrun
    | ok r' =>
      rw [hu] at hrun
      cases hrun with
      | answer outcome hp =>
        rw [parse_eq hs, parse_eq hu]
        exact hp.complete (hr.trans (Procedure.reaches_history hs))
          (hr'.trans (Procedure.reaches_history hu)) outcome

end ParseTree
