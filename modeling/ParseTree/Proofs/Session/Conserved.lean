import ParseTree.Proofs.Session.Sown

/-!
# Conservation of messages

No message is lost and none is given twice. Every operation gives its messages to nodes that remain
in the tree and keeps the rest in the slot, and composites that carry a message are not merged away;
so when the slot is swept out at the end of a parse, each message has its node.

## Main definitions

* `deliveries`: the messages that a history gave to nodes
* `LeafOrder`: the order of the messages of a leaf
* `Ledger`: the messages were given to nodes that remain, to leaves in order

## Main results

* `error_of_reaches`: the errors of every reachable session are the messages of its history
* `ledger_of_reaches`: the messages were given to nodes that remain
* `slot_of_reaches`: what was put into the slot was given to a node or is still there
* `conserved_of_parse`: in a completed parse each message belongs to one node of the tree
-/

namespace ParseTree

open Session

variable {σ γ : Type}

section Remaining

variable {env : Setting σ γ} {A : NodeId → Prop} {s s' : Session σ γ} {a x : NodeId}

/-- What is above a node that remains, remains. -/
theorem Sound.above (h : Sound A s) (ha : s.tree.Contains a ∧ ¬ A a)
    (hb : s.tree.shape.Below a x) : s.tree.Contains x ∧ ¬ A x := by
  rcases Relation.ReflTransGen.cases_tail hb with rfl | ⟨c, -, hc⟩
  · exact ha
  · have hmem := h.wellFormed.mem_of_parent? hc
    exact ⟨Tree.contains_of_mem_children hmem, h.intact.not_absorbed_of_mem_children hmem⟩

/-- What is below a node that remains, remains. -/
theorem Sound.below (h : Sound A s) (ha : s.tree.Contains a ∧ ¬ A a)
    (hb : s.tree.shape.Below x a) : s.tree.Contains x ∧ ¬ A x := by
  rcases Relation.ReflTransGen.cases_head hb with rfl | ⟨p, hp, -⟩
  · exact ha
  · exact ⟨Tree.contains_of_parent? hp, h.intact.not_absorbed_of_parent? hp⟩

/-- Only composites have nothing above them. -/
theorem Sound.isComposite_of_parent?_eq_none (h : Sound A s) (hx : s.tree.Contains x) (ha : ¬ A x)
    (hp : s.tree.parent? x = none) : s.tree.IsComposite x := by
  obtain ⟨y, hy, hnone⟩ := h.wellFormed.exists_top s.current
  obtain ⟨hyc, hya⟩ := h.above ⟨h.current.contains, h.intact.current⟩ hy
  obtain rfl := h.intact.top x y hx hyc ha hya hp hnone
  rcases Relation.ReflTransGen.cases_tail hy with he | ⟨c, -, hc⟩
  · exact he ▸ h.current
  · exact Tree.isComposite_of_mem_children (h.wellFormed.mem_of_parent? hc)

theorem Sound.current_remains (h : Sound A s) : s.tree.Contains s.current ∧ ¬ A s.current :=
  ⟨h.current.contains, h.intact.current⟩

theorem Sound.sourceNode_remains (h : Sound A s) (source : ValueSource) :
    s.tree.Contains (s.sourceNode source) ∧ ¬ A (s.sourceNode source) := by
  cases source with
  | current => exact h.current_remains
  | last =>
    rw [sourceNode]
    cases hn : s.lastNode with
    | none => exact h.current_remains
    | some y => exact h.lastNode y hn

theorem below_of_refusal? {mode : AssignMode} {b : Assignment} {e : ConversionError}
    (hf : env.factory.NamesAbove) (h : s.refusal? env mode b a = some e) (hx : e.node = some x) :
    s.tree.shape.Below a x := by
  have herror : (s.offer env mode b a).1 = .error e := by
    rw [Session.refusal?] at h
    split at h
    · cases h
    · next e' he =>
      split_ifs at h
      rw [he, Option.some.inj h]
  cases mode with
  | set => exact hf b _ _ e (Or.inl herror) x hx
  | add => exact hf b _ _ e (Or.inr herror) x hx

/-- A refusal names a node above one that remains, if it names one. -/
theorem Sound.refused_remains {op : Operation} {e : ConversionError} (h : Sound A s)
    (hf : env.factory.NamesAbove) (hr : op.refused? env s = some e) (hx : e.node = some x) :
    s.tree.Contains x ∧ ¬ A x := by
  cases op with
  | assign source mode b => exact h.above (h.sourceNode_remains source) (below_of_refusal? hf hr hx)
  | createWrapper action value =>
    refine h.above h.current_remains ?_
    change s.actionRefusal? env action value = some e at hr
    rw [actionRefusal?] at hr
    split at hr
    · next classifier assigned _ =>
      obtain ⟨result, factory, hmake⟩ : ∃ result factory, s.make env classifier =
          (result, { s with factory }) := ⟨_, _, rfl⟩
      rw [hmake] at hr
      cases result with
      | error _ => cases hr
      | ok element =>
        cases assigned with
        | none => cases hr
        | some assigned =>
          cases value with
          | none => cases hr
          | some value => exact below_of_refusal? (s := { s with factory }) hf hr hx
    · cases hr
  | _ => cases hr

theorem Sound.refusal_remains {op : Operation} {e : ConversionError} (h : Sound A s)
    (hf : env.factory.NamesAbove) (hr : op.refused? env s = some e) :
    s.tree.Contains (s.refusalTarget e) ∧ ¬ A (s.refusalTarget e) := by
  rw [refusalTarget]
  cases ht : (e.node.filter fun id => decide (s.tree.Contains id)).or
    (s.tree.children s.current).getLast? with
  | none => exact h.current_remains
  | some id =>
    rcases Option.or_eq_some_iff.mp ht with hn | ⟨-, hn⟩
    · exact h.refused_remains hf hr (Option.filter_eq_some_iff.mp hn).1
    · have hp := h.wellFormed.parent?_of_mem (List.mem_of_getLast? hn)
      exact ⟨Tree.contains_of_parent? hp, h.intact.not_absorbed_of_parent? hp⟩

end Remaining

/-! ## Histories -/

/-- The messages that the operations of a history gave to nodes, in order. -/
def deliveries (env : Setting σ γ) (ts : List (Transition σ γ)) : List Delivery :=
  ts.flatMap (·.deliveries env)

/-- The messages of a leaf: one that waited for it, if any, then what the lexer says of it, then
those that came later. -/
def LeafOrder (stream : TokenStream) (ds : List Delivery) (x : NodeId) (l : Leaf) : Prop :=
  ∃ slot later, ds.filter (·.node = x) = leafDeliveries stream slot (x, l) ++ later ∧
    ∀ d ∈ later, d.origin = .value ∨ d.origin = .swept

/-- The messages were given to nodes that remain, to leaves in order. -/
structure Ledger (env : Setting σ γ) (A : NodeId → Prop) (s : Session σ γ)
    (ds : List Delivery) : Prop where
  /-- Nodes with a message are not merged away. -/
  node : ∀ d ∈ ds, s.tree.Contains d.node ∧ ¬ A d.node
  /-- The lexer has its say about every leaf. -/
  lexer : ds.filter (·.origin = .lexer) = (s.tree.leavesFrom 0).flatMap fun p =>
    (lexerError? env.stream p.2).toList.map (⟨p.1, ·, .lexer⟩)
  /-- Each leaf has its messages in order. -/
  leaf : ∀ x l, (s.tree.node x).leaf? = some l → LeafOrder env.stream ds x l

section Ledger

variable {env : Setting σ γ} {A : NodeId → Prop} {s s' s₀ : Session σ γ} {op : Operation}
  {answer : op.Answer} {tr : Transition σ γ} {ts : List (Transition σ γ)} {d : Delivery}
  {ds : List Delivery}

/-- Other messages than those for new leaves. -/
def Transition.others (env : Setting σ γ) (tr : Transition σ γ) : List Delivery :=
  (tr.refusal? env).toList ++ (tr.sweep? env).toList

theorem deliveries_eq (env : Setting σ γ) (tr : Transition σ γ) : tr.deliveries env =
    leavesDeliveries env.stream (tr.slot env) tr.newLeaves ++ tr.others env :=
  List.append_assoc ..

theorem origin_of_mem_others (h : d ∈ tr.others env) : d.origin = .value ∨ d.origin = .swept := by
  rcases List.mem_append.mp h with h | h
  · obtain ⟨e, -, rfl⟩ := Option.map_eq_some_iff.mp (Option.mem_toList.mp h)
    exact Or.inl rfl
  · have h := Option.mem_toList.mp h
    rw [Transition.sweep?] at h
    split_ifs at h
    obtain ⟨e, -, rfl⟩ := Option.map_eq_some_iff.mp h
    exact Or.inr rfl

/-- Nothing is said when a composite is closed. -/
theorem deliveries_afterRuleCall (hl : Linked s) (answer : Unit) :
    (⟨s, .command .afterRuleCall, answer, s.afterRuleCall env⟩ : Transition σ γ).deliveries env =
      [] := by
  have hnil : (⟨s, .command .afterRuleCall, answer, s.afterRuleCall env⟩ :
      Transition σ γ).newLeaves = [] := leavesFrom_eq_nil (noted_afterRuleCall hl).leaves
  rw [Transition.deliveries, hnil]
  rfl

theorem mem_newLeaves_of_mem_deliveries
    (h : d ∈ leavesDeliveries env.stream (tr.slot env) tr.newLeaves) :
    tr.before.tree.size ≤ d.node.index ∧ tr.after.tree.Contains d.node := by
  obtain ⟨⟨x, l⟩, hp, hx, -⟩ := mem_leavesDeliveries h
  obtain ⟨hn, hc, -⟩ := mem_leavesFrom.mp hp
  rw [hx]
  exact ⟨hn, hc⟩

/-- Messages are given to new leaves and to nodes that remain. -/
theorem node_of_mem_deliveries (hf : env.factory.NamesAbove) (h : Sound A tr.before)
    (h' : Sound A tr.after) (hsize : tr.before.tree.size ≤ tr.after.tree.size)
    (hd : d ∈ tr.deliveries env) : tr.after.tree.Contains d.node ∧ ¬ A d.node := by
  rw [deliveries_eq] at hd
  rcases List.mem_append.mp hd with hd | hd
  · obtain ⟨hn, hc⟩ := mem_newLeaves_of_mem_deliveries hd
    exact ⟨hc, fun ha => Nat.not_lt_of_le hn (h.intact.absorbed _ ha).1⟩
  rcases List.mem_append.mp hd with hd | hd
  · obtain ⟨e, he, rfl⟩ := Option.map_eq_some_iff.mp (Option.mem_toList.mp hd)
    obtain ⟨hc, ha⟩ := h.refusal_remains hf he
    exact ⟨Nat.lt_of_lt_of_le hc hsize, ha⟩
  · have hd := Option.mem_toList.mp hd
    rw [Transition.sweep?] at hd
    split_ifs at hd
    obtain ⟨e, -, rfl⟩ := Option.map_eq_some_iff.mp hd
    exact h'.below h'.current_remains (below_lastLeaf h'.toLinked)

/-- The messages of a new leaf come in order, and older leaves only get later ones. -/
theorem leafOrder_append (h : tr.Delivers env) (hds : ∀ d ∈ ds, tr.before.tree.Contains d.node)
    (hl : ∀ x l, (tr.before.tree.node x).leaf? = some l → LeafOrder env.stream ds x l)
    {x : NodeId} {l : Leaf} (hx : (tr.after.tree.node x).leaf? = some l) :
    LeafOrder env.stream (ds ++ tr.deliveries env) x l := by
  have hothers : ∀ d ∈ (tr.others env).filter (·.node = x), d.origin = .value ∨
      d.origin = .swept := fun d hd => origin_of_mem_others (List.mem_of_mem_filter hd)
  rw [LeafOrder, deliveries_eq, List.filter_append, List.filter_append]
  -- An old leaf gets no slot, only later messages; a new leaf had none before.
  by_cases hc : tr.before.tree.Contains x
  · obtain ⟨slot, later, heq, hlater⟩ := hl x l ((h.leaf? x hc).symm.trans hx)
    have hnew : (leavesDeliveries env.stream (tr.slot env) tr.newLeaves).filter (·.node = x) =
        [] := by
      refine List.filter_eq_nil_iff.mpr fun d hd hdx => ?_
      have hn := (mem_newLeaves_of_mem_deliveries hd).1
      rw [of_decide_eq_true hdx] at hn
      exact Nat.not_lt_of_le hn hc
    refine ⟨slot, later ++ (tr.others env).filter (·.node = x), ?_, ?_⟩
    · rw [heq, hnew, List.nil_append, List.append_assoc]
    · intro d hd
      exact (List.mem_append.mp hd).elim (hlater d) (hothers d)
  · have hold : ds.filter (·.node = x) = [] := by
      refine List.filter_eq_nil_iff.mpr fun d hd hdx => hc ?_
      rw [← of_decide_eq_true hdx]
      exact hds d hd
    have hmem : (x, l) ∈ tr.newLeaves := by
      refine mem_leavesFrom.mpr ⟨Nat.le_of_not_lt hc, ?_, hx⟩
      by_contra hn
      rw [Tree.node_of_not_contains hn] at hx
      cases hx
    obtain ⟨slot, heq⟩ := filter_leavesDeliveries env.stream (tr.slot env)
      (pairwise_leavesFrom _ _) hmem
    refine ⟨slot, _, ?_, hothers⟩
    rw [hold, List.nil_append]
    exact congrArg (· ++ _) heq

theorem lexer_deliveries (env : Setting σ γ) (tr : Transition σ γ) :
    (tr.deliveries env).filter (·.origin = .lexer) = tr.newLeaves.flatMap fun p =>
      (lexerError? env.stream p.2).toList.map (⟨p.1, ·, .lexer⟩) := by
  have hothers : (tr.others env).filter (·.origin = .lexer) = [] := by
    refine List.filter_eq_nil_iff.mpr fun d hd h => ?_
    rcases origin_of_mem_others hd with ho | ho <;>
      exact absurd (ho.symm.trans (of_decide_eq_true h)) (by simp)
  rw [deliveries_eq, List.filter_append, hothers, List.append_nil, lexer_leavesDeliveries]

/-- One more operation adds its messages. -/
theorem Ledger.step {A' : NodeId → Prop} (h : Ledger env A tr.before ds) (hd : tr.Delivers env)
    (hA : ∀ d ∈ ds, ¬ A' d.node)
    (hnode : ∀ d ∈ tr.deliveries env, tr.after.tree.Contains d.node ∧ ¬ A' d.node) :
    Ledger env A' tr.after (ds ++ tr.deliveries env) where
  node d hmem := by
    rcases List.mem_append.mp hmem with hmem | hmem
    · exact ⟨Nat.lt_of_lt_of_le (h.node d hmem).1 hd.size, hA d hmem⟩
    · exact hnode d hmem
  lexer := by
    rw [List.filter_append, h.lexer, lexer_deliveries,
      leavesFrom_append (Nat.zero_le _) hd.size hd.leaf?, List.flatMap_append]
    rfl
  leaf x l hx := leafOrder_append hd (fun d hmem => (h.node d hmem).1) h.leaf hx

theorem ledger_start (env : Setting σ γ) (factory : σ) (groups : γ) :
    Ledger env (fun _ => False) (start env factory groups) [] where
  node d hd := by cases hd
  lexer := rfl
  leaf x l hx := by
    rw [show (start env factory groups).tree.node x = .detached from Tree.node_empty x] at hx
    cases hx

/-- In every reachable session the error of a node joins the messages that were given to it. -/
theorem error_of_reaches {factory : σ} {groups : γ}
    (h : Reaches env (start env factory groups) ts s) (x : NodeId) :
    (s.tree.node x).error = SyntaxError.join (given (deliveries env ts) x) := by
  induction h with
  | start => exact congrArg Node.error (Tree.node_empty x)
  | step hrun hs ih =>
    rw [(delivers_of_step (sound_of_reaches hrun).toLinked hs).error, ih, deliveries, deliveries,
      List.flatMap_append, List.flatMap_singleton, given_append]
    exact SyntaxError.foldl_mergeInto_join _ _

/-- In every reachable session the messages were given to nodes that remain. -/
theorem ledger_of_reaches (hf : env.factory.NamesAbove) {factory : σ} {groups : γ}
    (h : Reaches env (start env factory groups) ts s) :
    Ledger env (Absorbed env ts) s (deliveries env ts) := by
  induction h with
  | start =>
    have hnone : Absorbed env [] = fun _ => False := by
      funext x
      simp [Absorbed]
    rw [hnone]
    exact ledger_start env factory groups
  | @step ts s s' op answer hrun hs ih =>
    have hsound := sound_of_reaches hrun
    have hd := delivers_of_step hsound.toLinked hs
    have hsound' := sound_of_reaches (hrun.step hs)
    rw [deliveries, List.flatMap_append, List.flatMap_singleton]
    by_cases hop : op = .command .afterRuleCall
    · subst hop
      obtain rfl := (Prod.mk.inj (Except.ok.inj hs)).2
      rw [absorbed_append_afterRuleCall rfl]
      refine ih.step hd ?_ fun d hmem => ?_
      · rintro d hmem (ha | ha)
        · exact (ih.node d hmem).2 ha
        · have hnone := (mergeable_of_absorbed? ha).error
          rw [error_of_reaches hrun, SyntaxError.join_eq_none] at hnone
          have hgiven : d.error ∈ given (deliveries env ts) d.node :=
            List.mem_map_of_mem (List.mem_filter.mpr ⟨hmem, decide_eq_true rfl⟩)
          rw [hnone] at hgiven
          cases hgiven
      · rw [deliveries_afterRuleCall hsound.toLinked answer] at hmem
        cases hmem
    · rw [absorbed_append_of_ne hop] at hsound' ⊢
      exact ih.step hd (fun d hmem => (ih.node d hmem).2) fun d =>
        node_of_mem_deliveries hf hsound hsound' hd.size

/-- Refusals are not put into the slot. -/
theorem filter_isSlot_deliveries (env : Setting σ γ) (tr : Transition σ γ) :
    (tr.deliveries env).filter (·.origin.isSlot) =
      (leavesDeliveries env.stream (tr.slot env) tr.newLeaves).filter (·.origin.isSlot) ++
        (tr.sweep? env).toList := by
  have hrefusal : (tr.refusal? env).toList.filter (·.origin.isSlot) = [] := by
    rw [Transition.refusal?]
    cases tr.op.refused? env tr.before <;> rfl
  have hsweep : (tr.sweep? env).toList.filter (·.origin.isSlot) = (tr.sweep? env).toList := by
    rw [Transition.sweep?]
    split_ifs
    · cases tr.rest env <;> rfl
    · rfl
  rw [Transition.deliveries, List.filter_append, List.filter_append, hrefusal, hsweep,
    List.append_nil]

/-- What an operation puts into the slot is given to a node or is still there. -/
theorem slot_deliveries (h : tr.Delivers env) :
    ((tr.deliveries env).filter (·.origin.isSlot)).map (·.error) ++ tr.after.pending.toList =
      tr.before.pending.toList ++ (tr.message? env).toList := by
  have hslot : (tr.slot env).toList = tr.before.pending.toList ++ (tr.message? env).toList := by
    rw [Transition.slot, Transition.message?, Transition.posted?]
    cases tr.before.pending <;> rfl
  have hsweep : (tr.sweep? env).toList.map (·.error) ++ tr.after.pending.toList =
      (tr.rest env).toList := by
    rw [h.pending, Transition.sweep?]
    split_ifs
    · cases tr.rest env <;> rfl
    · rfl
  rw [filter_isSlot_deliveries, List.map_append, List.append_assoc, hsweep, ← hslot]
  exact slot_leavesDeliveries

theorem slot_of_reaches {factory : σ} {groups : γ}
    (h : Reaches env (start env factory groups) ts s) :
    ((deliveries env ts).filter (·.origin.isSlot)).map (·.error) ++ s.pending.toList =
      ts.filterMap (·.message? env) := by
  induction h with
  | start => rfl
  | @step ts s s' op answer hrun hs ih =>
    have hd := slot_deliveries (delivers_of_step (sound_of_reaches hrun).toLinked hs)
    rw [deliveries, List.flatMap_append, List.flatMap_singleton, List.filter_append,
      List.map_append, List.append_assoc, hd, ← List.append_assoc, List.filterMap_append]
    refine congrArg₂ (· ++ ·) ih ?_
    cases h : (⟨s, op, answer, s'⟩ : Transition σ γ).message? env <;> simp [h]

end Ledger

/-! ## Parses -/

section Parse

variable {env : Setting σ γ} {factory : σ} {groups : γ} {rule : ElementId} {p : RuleProcedure}
  {parse : Parse} {t s : Session σ γ} {ts : List (Transition σ γ)}

theorem value_deliveries (env : Setting σ γ) (ts : List (Transition σ γ)) :
    (deliveries env ts).filter (·.origin = .value) = ts.filterMap (·.refusal? env) := by
  induction ts with
  | nil => rfl
  | cons tr ts ih =>
    have hleaves : (leavesDeliveries env.stream (tr.slot env) tr.newLeaves).filter
        (·.origin = .value) = [] := by
      refine List.filter_eq_nil_iff.mpr fun d hd h => ?_
      obtain ⟨-, -, -, ho | ho⟩ := mem_leavesDeliveries hd <;>
        exact absurd (ho.symm.trans (of_decide_eq_true h)) (by simp)
    have hsweep : (tr.sweep? env).toList.filter (·.origin = .value) = [] := by
      rw [Transition.sweep?]
      split_ifs
      · cases tr.rest env <;> rfl
      · rfl
    have hrefusal : (tr.refusal? env).toList.filter (·.origin = .value) =
        (tr.refusal? env).toList := by
      rw [Transition.refusal?]
      cases tr.op.refused? env tr.before <;> rfl
    rw [deliveries, List.flatMap_cons, List.filter_append, ← deliveries, ih, List.filterMap_cons,
      Transition.deliveries, List.filter_append, List.filter_append, hleaves, hsweep, hrefusal,
      List.nil_append, List.append_nil]
    cases tr.refusal? env <;> rfl

/-- The last operation of a parse empties the slot. -/
theorem pending_finish (env : Setting σ γ) (s : Session σ γ) : (s.finish env).pending = none :=
  pending_flushPending _

/-- In a completed parse of a procedure that closes no more composites than it opened, every message
that was put into the slot, every word of the lexer about a leaf and every refusal of a value is
given once, to one node of the tree. The error of each node joins the messages given to it, in
order, with the first code among them; those of a leaf are one that waited for it, what the lexer
says of it, and later ones. -/
theorem conserved_of_parse (hf : env.factory.NamesAbove)
    (hb : Balanced (p.history env ((start env factory groups).openEntry env rule)))
    (h : (start env factory groups).parse env rule p = .ok (.ok parse, t)) :
    let ts := (topLevel rule p).history env (start env factory groups)
    let ds := deliveries env ts
    Reaches env (start env factory groups) ts t ∧
      (ds.filter (·.origin.isSlot)).map (·.error) = ts.filterMap (·.message? env) ∧
      ds.filter (·.origin = .lexer) = (parse.syntaxTree.tree.leavesFrom 0).flatMap (fun x =>
        (lexerError? env.stream x.2).toList.map (⟨x.1, ·, .lexer⟩)) ∧
      ds.filter (·.origin = .value) = ts.filterMap (·.refusal? env) ∧
      (∀ d ∈ ds, d.node ∈ parse.syntaxTree.nodes) ∧ parse.syntaxTree.nodes.Nodup ∧
      (∀ x ∈ parse.syntaxTree.nodes,
        (parse.syntaxTree.tree.node x).error = SyntaxError.join (given ds x)) ∧
      ∀ x l, (parse.syntaxTree.tree.node x).leaf? = some l → LeafOrder env.stream ds x l := by
  intro ts ds
  obtain ⟨element, s, hr, rfl, rfl⟩ := exists_run_of_parse_eq_ok h
  have hrun : Reaches env (start env factory groups) ts (s.finish env) :=
    Procedure.reaches_history (run_topLevel hr)
  have hledger := ledger_of_reaches hf hrun
  have hsound := sound_of_reaches hrun
  have hrooted := (rooted_of_reaches (rooted_openEntry env factory groups rule)
    (Procedure.reaches_history hr) hb).finish env
  have hslot := slot_of_reaches hrun
  rw [pending_finish, Option.toList_none, List.append_nil] at hslot
  refine ⟨hrun, hslot, hledger.lexer, value_deliveries env ts, ?_,
    Tree.nodup_descendants hsound.wellFormed hrooted.contains_root,
    fun x _ => error_of_reaches hrun x, hledger.leaf⟩
  intro d hd
  obtain ⟨hc, ha⟩ := hledger.node d hd
  exact (Tree.mem_descendants_iff hsound.wellFormed hrooted.contains_root).mpr
    (hsound.intact.below_root hsound.wellFormed hrooted.root hc ha)

namespace Sample

/-- A setting with an invalid token in which no value is accepted. -/
def strict : Setting Unit Unit :=
  { setting with
    stream := .ofLexemes "?b" [.invalid 1 "stray", .token ⟨7⟩ 1 .visible]
    factory :=
      ⟨fun _ s => (.ok ⟨0⟩, s), fun _ _ s => (.error (.recoverable "refused"), s),
        fun _ _ s => (.error (.recoverable "refused"), s)⟩ }

/-- Matches the word after the invalid token, is refused its value and recovers from an error that
no leaf is left for. -/
def complaint : RuleProcedure :=
  word ⟨7⟩ ⟨4⟩ <|
  .call (.assign .last .set ⟨⟨0⟩, "name", .bool true, none⟩) fun _ =>
  .call (.errorHere (.noAlternative 0)) fun e =>
  .call (.command (.recover e)) fun _ => .pure (.ok none)

end Sample

open Sample in
/-- In the sample the two leaves get two messages each. -/
theorem conserved_of_complaint : ∃ parse t,
    (start strict () ()).parse strict ⟨0⟩ complaint = .ok (.ok parse, t) ∧
    (parse.syntaxTree.tree.node ⟨2⟩).error =
      some ⟨"extraneous input '?' expecting T7; stray", some .extraneousInput⟩ ∧
    (parse.syntaxTree.tree.node ⟨3⟩).error =
      some ⟨"refused; no viable alternative at input '<EOF>'", some .valueConversion⟩ := by
  have hf : strict.factory.NamesAbove := by
    rintro a v state e (h | h) x hx <;> cases h <;> cases hx
  have hb : Balanced (complaint.history strict ((start strict () ()).openEntry strict ⟨0⟩)) := by
    decide +kernel
  have hcompleted : (((start strict () ()).parse strict ⟨0⟩ complaint).toOption.bind
      (·.1.toOption)).any fun parse => [⟨2⟩, ⟨3⟩] ⊆ parse.syntaxTree.nodes := by
    decide +kernel
  obtain ⟨parse, t, hparse, hnodes⟩ := exists_parse_of_any hcompleted
  obtain ⟨-, -, -, -, -, -, herror, -⟩ := conserved_of_parse hf hb hparse
  have hnodes := of_decide_eq_true hnodes
  refine ⟨parse, t, hparse, ?_, ?_⟩
  · exact (herror ⟨2⟩ (hnodes (by simp))).trans (by decide +kernel)
  · exact (herror ⟨3⟩ (hnodes (by simp))).trans (by decide +kernel)

end Parse

end ParseTree
