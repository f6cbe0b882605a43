import ParseTree.Proofs.Session.Anchored
import ParseTree.Proofs.Session.Prompt
import ParseTree.Proofs.Tree.Last

/-!
# Where messages are found

In a parse of a prompt procedure a message is found on the token that it is about. Messages about
the end of the input are found on the last leaf, or on the open composite if that has no leaf, which
is then at the end of the text. Only a token that was overlooked gets in the way.

## Main definitions

* `Placed`: where the message of an error is found in a completed parse
* `Displaced`: where it is found when a token was overlooked

## Main results

* `aimed_topLevel`: what the messages of a parse are about
* `anchored_of_reaches`: where composites without leaves are
* `placed_of_parse`: where the messages of a parse are found
-/

namespace ParseTree

open Session

variable {σ γ : Type}

section Finishing

variable {env : Setting σ γ} {s s' s₀ : Session σ γ} {ts : List (Transition σ γ)} {op : Operation}
  {answer : op.Answer} {tr : Transition σ γ}

theorem settled_start (env : Setting σ γ) (factory : σ) (groups : γ) :
    Settled env [] (start env factory groups) :=
  ⟨Cursor.rests_start env.stream, Nat.zero_le _, fun _ h => absurd h List.not_mem_nil, Or.inl rfl⟩

/-- An operation without a report posts nothing. -/
theorem aimed_of_reported? (h : op.reported? env s answer = none) :
    Aimed env ts ⟨s, op, answer, s'⟩ := by
  intro e he
  rw [Transition.posted?, h, ite_self] at he
  cases he

/-- A match that fails answers an error about the current token and moves nothing. -/
theorem errorHere_of_matchToken {expected : TokenKind} {follow : TokenSet} {e : RecognitionError}
    (h : s.matchToken env expected follow = (.error e, s')) : s'.errorHere env e.fault = e := by
  rw [matchToken_eq, matchCurrent] at h
  split_ifs at h
  · cases (Prod.mk.inj h).1
  · cases (Prod.mk.inj h).1
  · cases (Prod.mk.inj h).1
  · obtain ⟨he, rfl⟩ := Prod.mk.inj h
    obtain rfl := Except.error.inj he
    rfl

/-- The end of a parse is about the end of the input. -/
theorem aimed_finishing (hc : env.stream.Contract) (hl : Linked s) (h : Settled env ts s) :
    ∀ tr ∈ finishing.history env s, Aimed env (ts ++ finishing.history env s) tr := by
  have hpop : Settled env (ts ++ [⟨s, .command .popFollow, (), s.popFollow⟩]) s.popFollow :=
    h.keep rfl rfl id rfl
  have hl' : Linked s.popFollow := (steady_with ..).linked hl
  have hmatch : s.popFollow.step env (.matchToken .endOfInput ∅) =
      .ok (s.popFollow.matchToken env .endOfInput ∅) := rfl
  rw [history_finishing]
  generalize hr : s.popFollow.matchToken env .endOfInput ∅ = r at hmatch
  obtain ⟨answer, s₁⟩ := r
  intro tr htr
  simp only [List.mem_append, List.mem_cons, List.not_mem_nil, or_false] at htr
  -- Only the match of the end and the recovery from its failure can post a message.
  rcases htr with ((rfl | rfl) | htr) | rfl | rfl | rfl
  · exact aimed_of_reported? rfl
  · exact (hpop.aimed rfl (fun _ h => by cases h) hmatch).mono (by simp)
  · cases answer with
    | ok t => cases htr
    | error e =>
      obtain rfl := List.mem_singleton.mp htr
      have hs₁ := (hpop.match hc hl' hmatch).resolve_right (by rintro ⟨t, ht, -⟩; cases ht)
      have hraised : ∀ e' ∈ (Operation.catchError (.recognition e)).caught?,
          s₁.errorHere env e'.fault = e' := by
        intro e' he
        obtain rfl := Option.some.inj he
        exact errorHere_of_matchToken hr
      exact (hs₁.2.aimed rfl hraised rfl).mono (by simp)
  · exact aimed_of_reported? rfl
  · exact aimed_of_reported? rfl
  · exact aimed_of_reported? rfl

variable {factory : σ} {groups : γ} {rule : ElementId} {p : RuleProcedure}
  {element : Option SemanticId}

/-- The messages of a parse of a prompt procedure are about the token that gets the next leaf. -/
theorem aimed_topLevel (hc : env.stream.Contract)
    (hr : p.run env ((start env factory groups).openEntry env rule) = .ok (.ok element, s))
    (hp : Prompt env (p.history env ((start env factory groups).openEntry env rule))) :
    ∀ tr ∈ (topLevel rule p).history env (start env factory groups),
      Aimed env ((topLevel rule p).history env (start env factory groups)) tr := by
  have hl₀ := (rooted_openEntry env factory groups rule).toLinked
  have hrun := Procedure.reaches_history hr
  have hl :=
    (rooted_of_reaches (rooted_openEntry env factory groups rule) hrun hp.balanced).toLinked
  have h₁ : Settled env [⟨start env factory groups, .command (.newComposite rule), (),
      (start env factory groups).newComposite env rule⟩]
      ((start env factory groups).newComposite env rule) :=
    (settled_start env factory groups).keep rfl rfl id rfl
  have h₂ : Settled env [⟨start env factory groups, .command (.newComposite rule), (),
      (start env factory groups).newComposite env rule⟩,
      ⟨(start env factory groups).newComposite env rule,
        .command (.pushFollow (.ofList [.endOfInput])), (),
        (start env factory groups).openEntry env rule⟩]
      ((start env factory groups).openEntry env rule) := h₁.keep rfl rfl id rfl
  obtain ⟨hs, haimed⟩ :=
    settled_of_reaches hc hl₀ h₂ (fun tr ht => Option.some.inj ht ▸ rfl) hrun hp
  rw [history_topLevel hr]
  intro tr htr
  rcases List.mem_append.mp htr with htr | htr
  · rcases List.mem_append.mp htr with htr | htr
    · simp only [List.mem_cons, List.not_mem_nil, or_false] at htr
      rcases htr with rfl | rfl
      · exact aimed_of_reported? rfl
      · exact aimed_of_reported? rfl
    · exact (haimed tr htr).mono (List.subset_append_left _ _)
  · exact aimed_finishing hc hl hs tr htr

/-- A prompt procedure is tidy. -/
theorem isTidy_of_prompt (hc : env.stream.Contract) (h : Reaches env s₀ ts s) (hp : Prompt env ts)
    (ht : tr ∈ ts) : tr.op.IsTidy env tr.before := by
  obtain ⟨us, vs, rfl⟩ := List.append_of_mem ht
  have hus : us ++ [tr] <+: us ++ tr :: vs := ⟨vs, by simp⟩
  have hplain := hp.plain tr ht
  have hleaf := hp.matched us tr hus
  generalize tr.op = op at *
  cases op with
  | command c =>
    cases c with
    | newLeaf t element =>
      intro i hi
      obtain ⟨u, hu, hm⟩ := (hleaf t rfl).resolve_left (by simp [Token.isSynthetic, hi])
      have hstep := step_of_mem h (List.mem_append_left _ hu)
      exact token?_of_given? hc hstep (given?_of_matched? hm) hi
    | appendTrailing => cases hplain
    | _ => trivial
  | _ => trivial

end Finishing

/-! ## Completed parses -/

/-- The message of an error is on the leaf of its token, or if that is the end of the input on the
last leaf of all or on the open composite, which has no leaves and is at the end of the text. -/
inductive Placed (env : Setting σ γ) (t : SyntaxTree) (entry : NodeId) (e : RecognitionError)
    (x : NodeId) : Prop where
  /-- The token has a leaf. -/
  | token (l : Leaf) (mem : x ∈ t.leaves) (leaf : (t.tree.node x).leaf? = some l)
    (eq : l.toToken = e.token)
  /-- The end of the input was reached, after some leaf. -/
  | last (atEnd : e.token = env.stream.atEnd) (eq : t.leaves.getLast? = some x)
  /-- The end of the input was reached, and the open composite is empty. -/
  | entry (atEnd : e.token = env.stream.atEnd) (eq : x = entry) (mem : x ∈ t.nodes)
    (leaves : t.tree.leaves x = []) (span : t.tree.span x = .point env.stream.length)

/-- The token of an error starts within or right after a node. -/
def Located (t : SyntaxTree) (e : RecognitionError) (x : NodeId) : Prop :=
  (t.tree.span x).start ≤ e.token.span.start ∧ e.token.span.start ≤ (t.tree.span x).stop

/-- The message is about the end of the input, but it is on the leaf of a token that a match of the
end of the input had passed over in silence. -/
structure Displaced (env : Setting σ γ) (ts : List (Transition σ γ)) (t : SyntaxTree)
    (e : RecognitionError) (x : NodeId) : Prop where
  /-- The end of the input was reached. -/
  atEnd : e.token = env.stream.atEnd
  /-- The node is a leaf. -/
  mem : x ∈ t.leaves
  /-- The token of the leaf was overlooked. -/
  overlooked : ∃ tr ∈ ts, tr.Overlooks env ∧
    (t.tree.node x).leaf?.map Leaf.toToken = some (tr.before.currentToken env)

/-- The message that an operation put into the slot was given to a node where it belongs. -/
def Attached (env : Setting σ γ) (ts : List (Transition σ γ)) (t : SyntaxTree) (entry : NodeId)
    (tr : Transition σ γ) (d : Delivery) : Prop :=
  tr.message? env = some d.error ∧ ∃ e, tr.posted? env = some e ∧
    (Placed env t entry e d.node ∧ Located t e d.node ∨ Displaced env ts t e d.node)

section Completed

variable {env : Setting σ γ} {s t s₀ : Session σ γ} {ts : List (Transition σ γ)}
  {tr : Transition σ γ} {factory : σ} {groups : γ} {e : RecognitionError} {x : NodeId} {d : ℕ}

/-- A leaf of a session that never left the root is one of the finished tree. -/
theorem mem_leaves_of_leaf? {l : Leaf} (h : Reaches env (start env factory groups) ts t)
    (hr : Rooted t d) (hl : (t.tree.node x).leaf? = some l) : x ∈ (t.syntaxTree env).leaves := by
  have hsound := sound_of_reaches h
  have hcontains : t.tree.Contains x := by
    by_contra hn
    rw [Tree.node_of_not_contains hn] at hl
    cases hl
  have hremains : ¬ Absorbed env ts x := by
    intro ha
    rw [leaf?_of_absorbed h ha] at hl
    cases hl
  refine List.mem_filter.mpr ⟨?_, ?_⟩
  · exact (Tree.mem_descendants_iff hsound.wellFormed hr.contains_root).mpr
      (hsound.intact.below_root hsound.wellFormed hr.root hcontains hremains)
  · show ((t.tree.node x).leaf?).isSome
    rw [hl]
    rfl

/-- A message that was taken by a leaf is about its token, unless that was overlooked. -/
theorem placed_of_taken {y : Delivery} (hc : env.stream.Contract)
    (h : Reaches env (start env factory groups) ts t) (hr : Rooted t d) (ha : Aimed env ts tr)
    (he : tr.posted? env = some e) (hy : Taken env t tr y) :
    Placed env (t.syntaxTree env) t.current e y.node ∧ Located (t.syntaxTree env) e y.node ∨
      Displaced env ts (t.syntaxTree env) e y.node := by
  obtain ⟨-, l, hl, htoken⟩ := hy
  have hmem := mem_leaves_of_leaf? h hr hl
  obtain ⟨hcurrent, hfront | ⟨hend, u, hu, ho, hpos, -⟩⟩ := ha e he
  · have heq : l.toToken = e.token := by
      rw [hcurrent, currentToken, Cursor.current_eq, ← hfront, htoken, Option.getD_some]
    have hspan : (t.syntaxTree env).tree.span y.node = e.token.span := by
      rw [← heq]
      exact Tree.span_of_leaf? hl
    refine Or.inl ⟨.token l hmem hl heq, ?_⟩
    rw [Located, hspan, ← heq]
    exact ⟨le_rfl, hc.start_le_stop htoken⟩
  · refine Or.inr ⟨hcurrent.trans (currentToken_of_position hend), hmem, u, hu, ho, ?_⟩
    rw [currentToken, Cursor.current_eq, hpos, htoken, Option.getD_some]
    exact congrArg (Option.map Leaf.toToken) hl

/-- When all tokens have their leaves, the last one ends with the text. -/
theorem span_of_getLast? (hc : env.stream.Contract) (h : Covered env t)
    (hn : t.nextToken = env.stream.size) (hx : (t.syntaxTree env).leaves.getLast? = some x) :
    (t.tree.span x).start ≤ env.stream.length ∧ (t.tree.span x).stop = env.stream.length := by
  have hleaves : (t.syntaxTree env).leaves.map (fun x => (t.tree.node x).leaf?.map Leaf.toToken) =
      env.stream.tokens.toList.map some := by
    rw [← List.take_length (l := env.stream.tokens.toList), Array.length_toList]
    refine Eq.trans ?_ (congrArg (List.map some) (hn ▸ h.tokens))
    rw [List.map_map]
    exact Tree.map_leaves (fun x leaf hx => congrArg (Option.map _) hx) _
  have hlast := congrArg List.getLast? hleaves
  rw [List.getLast?_map, List.getLast?_map, hx, Option.map_some, eq_comm,
    Option.map_eq_some_iff] at hlast
  obtain ⟨token, htoken, htoken'⟩ := hlast
  obtain ⟨l, hl, rfl⟩ := Option.map_eq_some_iff.mp htoken'.symm
  obtain ⟨i, hi⟩ := List.mem_iff_getElem?.mp (List.mem_of_getLast? htoken)
  rw [Array.getElem?_toList] at hi
  rw [Array.getLast?_toList] at htoken
  have hstop : l.span.stop = env.stream.length := by
    rw [← hc.stop, TokenStream.stop, htoken]
    rfl
  rw [Tree.span_of_leaf? hl]
  exact ⟨(hc.start_le_stop hi).trans_eq hstop, hstop⟩

/-- What is swept out is about the end of the input. -/
theorem placed_of_swept (hc : env.stream.Contract) (hr : Rooted t d) (h : Covered env t)
    (hn : t.nextToken = env.stream.size) (hanchored : Anchored env t) (ha : Aimed env ts tr)
    (he : tr.posted? env = some e) (hf : tr.before.frontier env = t.frontier env) :
    Placed env (t.syntaxTree env) t.current e ((t.tree.lastLeaf? t.current).getD t.current) ∧
      Located (t.syntaxTree env) e ((t.tree.lastLeaf? t.current).getD t.current) := by
  have hw := hr.wellFormed
  have hcontains := hr.current.contains
  have hatEnd : e.token = env.stream.atEnd := by
    obtain ⟨hcurrent, hpos⟩ := ha e he
    refine hcurrent.trans (currentToken_of_position ?_)
    rcases hpos with hpos | ⟨hpos, -⟩
    · rw [← hpos, hf, Session.frontier, hn, TokenStream.nextVisible_of_size_le le_rfl]
    · exact hpos
  have hstart : e.token.span.start = env.stream.length := by
    rw [hatEnd, hc.atEnd_eq]
    rfl
  rw [Located, hstart]
  change Placed .. ∧ (t.tree.span _).start ≤ _ ∧ _ ≤ (t.tree.span _).stop
  cases hlast : t.tree.lastLeaf? t.current with
  | some x =>
    have hx : (t.syntaxTree env).leaves.getLast? = some x :=
      Tree.getLast?_leaves_of_spine hw hr.contains_root hr.spine hlast
    obtain ⟨hle, hstop⟩ := span_of_getLast? hc h hn hx
    exact ⟨.last hatEnd hx, hle, hstop.ge⟩
  | none =>
    rw [Tree.lastLeaf?_eq hw hcontains, List.getLast?_eq_none_iff] at hlast
    have hbare := (leaves_eq_nil_iff hw hcontains).mp hlast
    have hspan : t.tree.span t.current = .point env.stream.length := by
      rw [span_of_isBare hw hr.current hbare, hanchored _ .refl hbare, anchor_of_size_le hc hn]
    have hmem : t.current ∈ (t.syntaxTree env).nodes :=
      (Tree.mem_descendants_iff hw hr.contains_root).mpr hr.below_root
    rw [Option.getD_none, hspan]
    exact ⟨.entry hatEnd rfl hmem hlast hspan, le_rfl, le_rfl⟩

/-- Every message that was in the slot is where it belongs once the slot is swept out. -/
theorem attached_of_paired {slot : Option SyntaxError} {trs : List (Transition σ γ)}
    {ds : List Delivery} (hc : env.stream.Contract)
    (hrun : Reaches env (start env factory groups) ts t) (hr : Rooted t d) (h : Covered env t)
    (hn : t.nextToken = env.stream.size) (hanchored : Anchored env t)
    (haimed : ∀ tr ∈ trs, Aimed env ts tr) (hposted : ∀ tr ∈ trs, (tr.posted? env).isSome)
    (hp : Paired env slot t trs ds) :
    List.Forall₂ (Attached env ts (t.syntaxTree env) t.current) trs
      (ds ++ (slot.map
        (⟨(t.tree.lastLeaf? t.current).getD t.current, ·, .swept⟩)).toList) := by
  obtain ⟨⟨trs, waiting, rfl, htaken, hslot, hfront⟩, -⟩ := hp
  refine List.rel_append ?_ ?_
  · have hmem : ∀ tr ∈ trs, Aimed env ts tr ∧ (tr.posted? env).isSome := fun tr htr =>
      ⟨haimed tr (List.mem_append_left _ htr), hposted tr (List.mem_append_left _ htr)⟩
    refine ((List.forall₂_and_left _ _).mpr ⟨hmem, htaken⟩).imp ?_
    rintro tr d ⟨⟨ha, he⟩, hd⟩
    obtain ⟨e, he⟩ := Option.isSome_iff_exists.mp he
    exact ⟨hd.1, e, he, placed_of_taken hc hrun hr ha he hd⟩
  · cases waiting with
    | none =>
      rw [Option.map_none, eq_comm, Option.map_eq_none_iff] at hslot
      rw [hslot]
      exact .nil
    | some tr =>
      have htr : tr ∈ trs ++ Option.toList (some tr) := by simp
      rw [Option.map_some, eq_comm, Option.map_eq_some_iff] at hslot
      obtain ⟨error, rfl, herror⟩ := hslot
      obtain ⟨e, he⟩ := Option.isSome_iff_exists.mp (hposted tr htr)
      refine .cons ⟨herror.symm, e, he, Or.inl ?_⟩ .nil
      exact placed_of_swept hc hr h hn hanchored (haimed tr htr) he (hfront tr rfl)

theorem anchored_of_reaches (hc : env.stream.Contract)
    (h : Reaches env (start env factory groups) ts s)
    (ht : ∀ tr ∈ ts, tr.op.IsTidy env tr.before) (ha : Avoids (.command .appendAll) ts) :
    Anchored env s := by
  induction h with
  | start => exact anchored_start env factory groups
  | @step ts s s' op answer hrun hs ih =>
    have hl := (sound_of_reaches hrun).toLinked
    have ht' : ∀ tr ∈ ts, tr.op.IsTidy env tr.before := fun tr h => ht tr (List.mem_append_left _ h)
    have ha' : Avoids (.command .appendAll) ts := ha.of_prefix (List.prefix_append ..)
    refine (ih ht' ha').change hl (step_change hl hs) hc ?_
      (paired_of_reaches hc hrun ht' ha').bound
    exact ht _ (List.mem_append_right _ (List.mem_singleton_self _))

/-- The last operation of a run. -/
theorem reaches_concat (h : Reaches env s₀ (ts ++ [tr]) s) : Reaches env s₀ ts tr.before ∧
    tr.before.step env tr.op = .ok (tr.answer, tr.after) ∧ s = tr.after := by
  generalize hus : ts ++ [tr] = us at h
  cases h with
  | start => cases List.append_ne_nil_of_right_ne_nil ts (List.cons_ne_nil tr []) hus
  | step h hs =>
    obtain ⟨rfl, htr⟩ := List.append_inj' hus rfl
    obtain rfl := List.singleton_inj.mp htr
    exact ⟨h, hs, rfl⟩

/-- The sweep is the last operation of a parse, and no other of its operations is one. -/
theorem exists_history_topLevel {rule : ElementId} {p : RuleProcedure}
    {element : Option SemanticId} (hr : p.run env (s₀.openEntry env rule) = .ok (.ok element, s))
    (ha : Avoids (.command .appendAll) (p.history env (s₀.openEntry env rule))) :
    ∃ us s', (topLevel rule p).history env s₀ =
        us ++ [⟨s', .command .appendAll, (), s.finish env⟩] ∧
      Avoids (.command .appendAll) us := by
  obtain ⟨us, s', hus, havoids⟩ : ∃ us s', finishing.history env s =
      us ++ [⟨s', .command .appendAll, (), s.finish env⟩] ∧ Avoids (.command .appendAll) us := by
    rw [history_finishing]
    refine ⟨_ ++ _ ++ [_, _], _, (List.append_assoc _ [_, _] [_]).symm, fun tr htr => ?_⟩
    simp only [List.mem_append, List.mem_cons, List.not_mem_nil, or_false] at htr
    rcases htr with ((rfl | rfl) | htr) | rfl | rfl
    · simp
    · simp
    · cases hm : (s.popFollow.matchToken env .endOfInput ∅).1 with
      | ok t =>
        rw [hm] at htr
        cases htr
      | error e =>
        rw [hm] at htr
        rw [List.mem_singleton.mp htr]
        simp
    · simp
    · simp
  rw [history_topLevel hr, hus, ← List.append_assoc]
  refine ⟨_, s', rfl, fun tr htr => ?_⟩
  simp only [List.mem_append, List.mem_cons, List.not_mem_nil, or_false] at htr
  rcases htr with ((rfl | rfl) | htr) | htr
  · simp
  · simp
  · exact ha tr htr
  · exact havoids tr htr

end Completed

section Parse

variable {env : Setting σ γ} {factory : σ} {groups : γ} {rule : ElementId} {p : RuleProcedure}
  {parse : Parse} {t : Session σ γ}

/-- In a completed parse of a prompt procedure, every message that was put into the slot is on the
leaf of the token that it is about; if that is the end of the input, on the last leaf of all or on
the open composite, which has no leaves and is at the end of the text. The token starts within the
node or right after it. The exception is a message about the end of the input when a match of the
end had passed over the last visible token in silence: it is on the leaf of that token. -/
theorem placed_of_parse (hc : env.stream.Contract)
    (hp : Prompt env (p.history env ((start env factory groups).openEntry env rule)))
    (h : (start env factory groups).parse env rule p = .ok (.ok parse, t)) :
    let ts := (topLevel rule p).history env (start env factory groups)
    let ds := deliveries env ts
    Reaches env (start env factory groups) ts t ∧
      (∀ x, (parse.syntaxTree.tree.node x).error = SyntaxError.join (given ds x)) ∧
      List.Forall₂ (Attached env ts parse.syntaxTree parse.entry) (posts env ts)
        (ds.filter (·.origin.isSlot)) := by
  intro ts ds
  obtain ⟨element, s, hr, rfl, rfl⟩ := exists_run_of_parse_eq_ok h
  have hrun : Reaches env (start env factory groups) ts (s.finish env) :=
    Procedure.reaches_history (run_topLevel hr)
  have hentry := Procedure.reaches_history hr
  have haimed := aimed_topLevel hc hr hp
  have htidy : ∀ tr ∈ p.history env ((start env factory groups).openEntry env rule),
      tr.op.IsTidy env tr.before := fun tr => isTidy_of_prompt hc hentry hp
  have htidy' : ∀ tr ∈ ts, tr.op.IsTidy env tr.before := fun tr => isTidy_topLevel hr htidy
  have hroot := rooted_of_reaches (rooted_openEntry env factory groups rule) hentry hp.balanced
  have hcov := covered_of_reaches hc (rooted_openEntry env factory groups rule)
    (covered_openEntry env factory groups rule) hentry hp.balanced htidy
  obtain ⟨us, hg, ho⟩ := growth_finish env hroot.toLinked
  obtain ⟨ho, hn⟩ := ho hc
  refine ⟨hrun, fun x => error_of_reaches hrun x, ?_⟩
  have havoids : Avoids (.command .appendAll)
      (p.history env ((start env factory groups).openEntry env rule)) := by
    rintro tr htr hop
    have hplain := hp.plain tr htr
    rw [hop] at hplain
    cases hplain
  obtain ⟨us, s', hts, ha⟩ := exists_history_topLevel hr havoids
  change ts = _ at hts
  have hmain : ∀ tr ∈ us, tr ∈ ts := fun tr htr => hts ▸ List.mem_append_left _ htr
  obtain ⟨hus, hs, -⟩ := reaches_concat (hts ▸ hrun)
  have hl := (sound_of_reaches hus).toLinked
  have htidyUs : ∀ tr ∈ us, tr.op.IsTidy env tr.before := fun tr htr => htidy' tr (hmain tr htr)
  have hpaired := paired_of_reaches hc hus htidyUs ha
  have hanchored := anchored_of_reaches hc hus htidyUs ha
  have htidyLast : (Operation.command .appendAll).IsTidy env s' := trivial
  have hstep : Paired env _ (s.finish env) (posts env ts) _ :=
    hts ▸ hpaired.step hl hc htidyLast hs
  have hposts : ∀ tr ∈ posts env ts, Aimed env ts tr := fun tr htr =>
    haimed tr (List.mem_of_mem_filter htr)
  have hattached := attached_of_paired hc hrun (hroot.growth hg) (hcov.growth hroot hg ho)
    (hn hcov.bound) (hanchored.change hl (step_change hl hs) hc htidyLast hpaired.bound) hposts
    (fun tr htr => (List.mem_filter.mp htr).2) hstep
  have hsweep : ds.filter (·.origin.isSlot) = _ :=
    (congrArg (fun ts => (deliveries env ts).filter (·.origin.isSlot)) hts).trans
      (filter_isSlot_concat env us _)
  rw [hsweep]
  exact hattached

namespace Sample

/-- A setting with three words and a blank at the end. -/
def crowded : Setting Unit Unit :=
  { setting with
    stream := .ofLexemes "abc " [.token ⟨5⟩ 1 .visible, .token ⟨7⟩ 1 .visible,
      .token ⟨9⟩ 1 .visible, .token ⟨6⟩ 1 .hidden] }

/-- Fails to match a word and recovers. -/
def failing (kind : TokenKind) : RuleProcedure :=
  .call (.matchToken kind ∅) fun
    | .ok _ => .pure (.ok none)
    | .error e => .call (.catchError (.recognition e)) fun _ => .pure (.ok none)

/-- Passes over the first word and fails at the third. -/
def hasty : RuleProcedure :=
  word ⟨7⟩ ⟨4⟩ (failing ⟨5⟩)

/-- Passes over the first word, over the third one when it matches the end of the input, and fails
there. -/
def overlooking : RuleProcedure :=
  word ⟨7⟩ ⟨4⟩ <| .call (.matchToken .endOfInput ∅) fun _ => failing ⟨5⟩

end Sample

open Sample in
/-- In the sample one message is on the first leaf and one on the third. -/
theorem placed_of_hasty : ∃ parse t, (start crowded () ()).parse crowded ⟨0⟩ hasty =
      .ok (.ok parse, t) ∧
    (parse.syntaxTree.tree.node ⟨2⟩).error =
      some ⟨"extraneous input 'a' expecting T7", some .extraneousInput⟩ ∧
    (parse.syntaxTree.tree.node ⟨4⟩).error =
      some ⟨"mismatched input 'c' expecting T5", some .mismatchedInput⟩ ∧
    List.Forall₂ (Attached crowded ((topLevel ⟨0⟩ hasty).history crowded (start crowded () ()))
        parse.syntaxTree parse.entry)
      (posts crowded ((topLevel ⟨0⟩ hasty).history crowded (start crowded () ())))
      [⟨⟨2⟩, ⟨"extraneous input 'a' expecting T7", some .extraneousInput⟩, .waiting⟩,
        ⟨⟨4⟩, ⟨"mismatched input 'c' expecting T5", some .mismatchedInput⟩, .waiting⟩] := by
  have hc : crowded.stream.Contract := by decide +kernel
  have hp : Prompt crowded (hasty.history crowded ((start crowded () ()).openEntry crowded ⟨0⟩)) :=
    by decide +kernel
  have hcompleted : (((start crowded () ()).parse crowded ⟨0⟩ hasty).toOption.bind
      (·.1.toOption)).any fun _ => true := by
    decide +kernel
  obtain ⟨parse, t, hparse, -⟩ := exists_parse_of_any hcompleted
  obtain ⟨-, herror, hattached⟩ := placed_of_parse hc hp hparse
  refine ⟨parse, t, hparse, ?_, ?_, ?_⟩
  · exact (herror ⟨2⟩).trans (by decide +kernel)
  · exact (herror ⟨4⟩).trans (by decide +kernel)
  · exact Eq.subst (motive := List.Forall₂ _ _) (by decide +kernel) hattached

open Sample in
/-- When the last word was overlooked, the message about the end of the input is on the leaf of that
word, which is neither the last leaf nor at the end of the text. -/
theorem displaced_of_overlooking : crowded.stream.Contract ∧
    Prompt crowded (overlooking.history crowded ((start crowded () ()).openEntry crowded ⟨0⟩)) ∧
    ∃ parse t, (start crowded () ()).parse crowded ⟨0⟩ overlooking = .ok (.ok parse, t) ∧
      ∃ tr ∈ posts crowded ((topLevel ⟨0⟩ overlooking).history crowded (start crowded () ())),
        ∃ e, tr.posted? crowded = some e ∧ e.token = crowded.stream.atEnd ∧
          ∃ x ∈ parse.syntaxTree.nodes,
            (parse.syntaxTree.tree.node x).error = tr.message? crowded ∧
            (∀ y ∈ parse.syntaxTree.nodes,
              (parse.syntaxTree.tree.node y).error = tr.message? crowded → y = x) ∧
            ¬ Placed crowded parse.syntaxTree parse.entry e x ∧ ¬ Located parse.syntaxTree e x := by
  refine ⟨by decide +kernel, by decide +kernel, ?_⟩
  have hcompleted : (((start crowded () ()).parse crowded ⟨0⟩ overlooking).toOption.bind
      (·.1.toOption)).any fun parse =>
        parse.syntaxTree.nodes.filter (fun x => (parse.syntaxTree.tree.node x).error =
            some ⟨"mismatched input '<EOF>' expecting T5", some .mismatchedInput⟩) = [⟨4⟩] ∧
          (parse.syntaxTree.tree.node ⟨4⟩).leaf?.map Leaf.toToken ≠ some crowded.stream.atEnd ∧
          parse.syntaxTree.leaves.getLast? ≠ some ⟨4⟩ ∧ parse.entry ≠ ⟨4⟩ ∧
          (parse.syntaxTree.tree.span ⟨4⟩).stop < crowded.stream.atEnd.span.start := by
    decide +kernel
  have hposts : ∃ tr ∈ posts crowded ((topLevel ⟨0⟩ overlooking).history crowded
      (start crowded () ())), (tr.posted? crowded).map (·.token) = some crowded.stream.atEnd ∧
        tr.message? crowded =
          some ⟨"mismatched input '<EOF>' expecting T5", some .mismatchedInput⟩ := by
    decide +kernel
  obtain ⟨parse, t, hparse, h⟩ := exists_parse_of_any hcompleted
  obtain ⟨hnodes, hleaf, hlast, hentry, hspan⟩ := of_decide_eq_true h
  obtain ⟨tr, htr, hposted, hmessage⟩ := hposts
  obtain ⟨e, he, hatEnd⟩ := Option.map_eq_some_iff.mp hposted
  have hmem (x : NodeId) : x ∈ parse.syntaxTree.nodes ∧
      (parse.syntaxTree.tree.node x).error = tr.message? crowded ↔ x = ⟨4⟩ := by
    rw [hmessage, ← List.mem_singleton (b := (⟨4⟩ : NodeId)), ← hnodes, List.mem_filter,
      decide_eq_true_iff]
  obtain ⟨hx, herror⟩ := (hmem ⟨4⟩).mpr rfl
  refine ⟨parse, t, hparse, tr, htr, e, he, hatEnd, ⟨4⟩, hx, herror,
    fun y hy hye => (hmem y).mp ⟨hy, hye⟩, ?_, ?_⟩
  · rintro (⟨l, -, hl, heq⟩ | ⟨-, h⟩ | ⟨-, h, -⟩)
    · exact hleaf (by rw [hl, Option.map_some, heq, hatEnd])
    · exact hlast h
    · exact hentry h.symm
  · rintro ⟨-, h⟩
    exact absurd (hatEnd ▸ h) (Nat.not_le_of_lt hspan)

end Parse

end ParseTree
