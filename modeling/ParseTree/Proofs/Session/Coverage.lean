import ParseTree.Proofs.Session.Rooted
import ParseTree.Proofs.Session.Sound
import ParseTree.Proofs.Tree.Coherent

/-!
# Coverage

The tree of a completed parse covers the input: its leaves are the tokens of the stream, in order,
whatever the procedure did. Leaves are made in the order of the stream and at the right edge of the
tree, so at any time the leaves of the tree are the first tokens of the stream.

## Main definitions

* `Leaf.toToken`: the token of a leaf
* `Covered`: the leaves are the first tokens of the stream

## Main results

* `covered_of_reaches`: a balanced run that makes leaves for its own tokens stays covered
* `complete_of_covered`: the parse of a covered session fails only if its procedure does
* `leaves_of_parse`: a parse succeeds if its procedure does, and covers the input
-/

namespace ParseTree

open Session

variable {σ γ : Type}

/-- The token that a leaf stands for. -/
def Leaf.toToken (l : Leaf) : Token :=
  ⟨l.kind, if l.isHidden then .hidden else .visible, l.span, some l.token⟩

theorem toToken_eq {t : Token} {i : ℕ} (h : t.index = some i) (feature : Option String) :
    Leaf.toToken ⟨i, t.kind, t.span, t.isHidden, feature⟩ = t := by
  cases t with
  | mk kind channel span index =>
    cases channel <;> simp_all [Leaf.toToken, Token.isHidden]

/-- The leaves of the tree are the first tokens of the stream. -/
structure Covered (env : Setting σ γ) (s : Session σ γ) : Prop where
  /-- They are those before the next token. -/
  tokens : s.tree.yield.map Leaf.toToken = env.stream.tokens.toList.take s.nextToken
  /-- The next token is one of the stream, or its end is reached. -/
  bound : s.nextToken ≤ env.stream.size

section Covered

variable {env : Setting σ γ} {s s' : Session σ γ} {d : ℕ} {ts : List Token}

theorem Similar.yield (h : Similar s s') (hr : Rooted s d) : s'.tree.yield = s.tree.yield :=
  h.nodes.yieldBelow hr.wellFormed hr.contains_root

theorem yieldBelow_createLeaf {x : NodeId} {n i : ℕ} {t : Token} (hr : Rooted s d)
    (hx : s.tree.shape.Spine x s.current n) (hc : s.tree.Contains x) (hi : t.index = some i)
    (element : Option ElementId) (feature : Option String) :
    ((s.createLeaf env t i element feature).tree.yieldBelow x).map Leaf.toToken =
      (s.tree.yieldBelow x).map Leaf.toToken ++ [t] := by
  have hl := sameButLookahead_createLeaf env s t i element feature
  have hw : (leafTree env s t i element feature).shape.WellFormed :=
    hl.shape ▸ (hr.createLeaf t i element feature).wellFormed
  have hc' : (leafTree env s t i element feature).Contains x := by
    rw [Tree.Contains, leafTree, Tree.size_addLeaf]
    exact Nat.lt_succ_of_lt hc
  rw [hl.toSameNodes.yieldBelow hw hc', leafTree,
    Tree.yieldBelow_addLeaf hr.wellFormed hc hx hr.current, List.map_append, List.map_singleton,
    toToken_eq hi]

/-- New leaves come after all others, below every node that has the open composite on its right
edge. -/
theorem Growth.yieldBelow {x : NodeId} {n : ℕ} (hg : Growth env s ts s') (hr : Rooted s d)
    (hx : s.tree.shape.Spine x s.current n) (hc : s.tree.Contains x) :
    (s'.tree.yieldBelow x).map Leaf.toToken = (s.tree.yieldBelow x).map Leaf.toToken ++ ts := by
  suffices h : (s'.tree.yieldBelow x).map Leaf.toToken =
      (s.tree.yieldBelow x).map Leaf.toToken ++ ts ∧ s'.tree.Contains x ∧
        s'.tree.shape.Spine x s'.current n from h.1
  induction hg with
  | done => exact ⟨(List.append_nil _).symm, hc, hx⟩
  | @leaf ts s' t i hg hi element feature ih =>
    obtain ⟨hy, hc', hx'⟩ := ih
    have hr' := hr.growth hg
    refine ⟨?_, ?_, ?_⟩
    · rw [yieldBelow_createLeaf hr' hx' hc' hi, hy, List.append_assoc]
    · rw [Tree.Contains, size_createLeaf]
      exact Nat.lt_succ_of_lt hc'
    · rw [shape_createLeaf env s' t i element feature hr'.toLinked]
      exact hx'.append hr'.wellFormed
  | rest hg hs ih =>
    obtain ⟨hy, hc', hx'⟩ := ih
    refine ⟨?_, (hs.nodes.contains_iff x).mpr hc', ?_⟩
    · rw [hs.nodes.yieldBelow (hr.growth hg).wellFormed hc', hy]
    · rwa [hs.nodes.shape, hs.current]

theorem Growth.yield (hg : Growth env s ts s') (hr : Rooted s d) :
    s'.tree.yield.map Leaf.toToken = s.tree.yield.map Leaf.toToken ++ ts :=
  hg.yieldBelow hr hr.spine hr.contains_root

theorem Covered.growth (h : Covered env s) (hr : Rooted s d) (hg : Growth env s ts s')
    (ho : InOrder env.stream s s' ts) : Covered env s' where
  tokens := by
    rw [hg.yield hr, h.tokens, ho.tokens, TokenStream.take_append_slice _ ho.le]
  bound := ho.bound h.bound

theorem Covered.of_eq (h : Covered env s) (hy : s'.tree.yield = s.tree.yield)
    (hl : s'.lastToken = s.lastToken) : Covered env s' := by
  have hn := nextToken_congr hl
  exact ⟨by rw [hy, hn, h.tokens], hn ▸ h.bound⟩

/-- The last leaf is that of the token that got its leaf last. -/
theorem Covered.map_getLast?_yield (h : Covered env s) :
    s.tree.yield.getLast?.map Leaf.toToken = s.lastToken.bind env.stream.token? := by
  have htokens := h.tokens
  have hbound := h.bound
  rw [nextToken] at htokens hbound
  rw [← List.getLast?_map, htokens]
  cases hs : s.lastToken with
  | none => rfl
  | some i =>
    rw [hs] at hbound
    obtain ⟨t, ht⟩ := TokenStream.exists_token? (Nat.lt_of_succ_le hbound)
    have ht' : env.stream.tokens.toList[i]? = some t := by rwa [Array.getElem?_toList]
    change (env.stream.tokens.toList.take (i + 1)).getLast? = _
    rw [List.getLast?_take, if_neg (Nat.succ_ne_zero i), Nat.add_sub_cancel, ht',
      Option.some_or, Option.bind_some, ht]

theorem lastToken_afterRuleCall (env : Setting σ γ) (s : Session σ γ) :
    (s.afterRuleCall env).lastToken = s.lastToken := by
  cases hp : s.tree.parent? s.current with
  | none => rw [afterRuleCall_of_parent?_eq_none hp]
  | some p =>
    rw [afterRuleCall_eq hp]
    cases s.absorbed? env <;> rfl

theorem yieldBelow_merge {x child : NodeId} (hr : Rooted s d)
    (hm : s.tree.Mergeable s.current child) (hx : s.tree.Contains x) (hne : child ≠ x) :
    (s.merge child).tree.yieldBelow x = s.tree.yieldBelow x := by
  have hl := (sameButLookahead_merge s child).toSameNodes
  have hw : (s.tree.absorb s.current child).shape.WellFormed := by
    rw [Tree.shape_absorb hr.wellFormed hm]
    exact hr.wellFormed.contract hm.children
  have hx' : (s.tree.absorb s.current child).Contains x := by
    rw [Tree.Contains, Tree.size_absorb]
    exact hx
  rw [hl.yieldBelow hw hx', Tree.yieldBelow_absorb hr.wellFormed hx hm hne]

theorem yield_afterRuleCall (hr : Rooted s d) :
    (s.afterRuleCall env).tree.yield = s.tree.yield := by
  obtain ⟨p, -, hp⟩ := hr.exists_parent
  rw [afterRuleCall_eq hp]
  cases hc : s.absorbed? env with
  | none => rfl
  | some child =>
    show (s.merge child).tree.yieldBelow Tree.root = _
    exact yieldBelow_merge hr (mergeable_of_absorbed? hc) hr.contains_root (hr.absorbed_ne_root hc)

/-- What was below the open composite is below its wrapper. -/
theorem yieldBelow_wrapCurrent {x : NodeId} (hr : Rooted s d) (hx : s.tree.Contains x)
    (action : ElementId) :
    (s.wrapCurrent action).tree.yieldBelow (if x = s.current then s.tree.nextId else x) =
      s.tree.yieldBelow x := by
  have hl := (sameButLookahead_wrapCurrent s action).toSameNodes
  have hx' : (s.tree.wrap action s.current).Contains
      (if x = s.current then s.tree.nextId else x) := by
    rw [Tree.Contains, Tree.size_wrap]
    split_ifs
    · exact Nat.lt_succ_self _
    · exact Nat.lt_succ_of_lt hx
  rw [hl.yieldBelow (hl.shape ▸ (hr.wrapCurrent action).wellFormed) hx',
    Tree.yieldBelow_wrap hr.wellFormed hx hr.current.contains hr.current.leaf?]

theorem yield_wrapCurrent (hr : Rooted s d) (action : ElementId) :
    (s.wrapCurrent action).tree.yield = s.tree.yield := by
  have h := yieldBelow_wrapCurrent hr hr.contains_root action
  rwa [if_neg hr.current_ne_root.symm] at h

/-- Whatever an operation does, the leaves remain the first tokens of the stream. -/
theorem Covered.change {op : Operation} (h : Covered env s) (hr : Rooted s d)
    (hc : Change env s op s') (hs : env.stream.Contract) (ht : op.IsTidy env s) :
    Covered env s' := by
  cases hc with
  | enter =>
    exact h.of_eq ((sameButLookahead_enterRule s).yieldBelow hr.wellFormed hr.contains_root) rfl
  | opened element =>
    refine h.of_eq ?_ rfl
    exact Tree.yieldBelow_addComposite hr.wellFormed hr.contains_root hr.spine hr.current ..
  | closed => exact h.of_eq (yield_afterRuleCall hr) (lastToken_afterRuleCall env s)
  | @wrapped action _ _ _ h₁ h₂ =>
    have hr₁ := hr.similar h₁.toSimilar
    have hr₂ := hr₁.wrapCurrent action
    refine h.of_eq ?_ (h₂.lastToken.trans h₁.lastToken)
    rw [h₂.yield hr₂, yield_wrapCurrent hr₁, h₁.yield hr]
  | grown _ hg ho => exact h.growth hr hg (ho hs ht)

/-- A covered tree has leaves that follow each other, from any position of the stream on. -/
theorem tiles_of_drop (hc : env.stream.Contract) {leaves : List Leaf} {i offset : ℕ}
    {previous : Option ℕ} (hl : leaves.map Leaf.toToken = env.stream.tokens.toList.drop i)
    (hi : i ≤ env.stream.size) (ho : ∀ t, env.stream.token? i = some t → t.span.start = offset)
    (he : i = env.stream.size → offset = env.stream.length) (hp : ∀ q ∈ previous, q < i) :
    Tiles offset previous leaves env.stream.length := by
  induction leaves generalizing i offset previous with
  | nil =>
    have hle : env.stream.size ≤ i := List.drop_eq_nil_iff.mp hl.symm
    rw [← he (Nat.le_antisymm hi hle)]
    exact .nil
  | cons leaf leaves ih =>
    have ht : env.stream.token? i = some leaf.toToken := by
      have := congrArg List.head? hl
      rw [List.head?_drop, List.map_cons, List.head?_cons, Array.getElem?_toList] at this
      exact this.symm
    have hrest : leaves.map Leaf.toToken = env.stream.tokens.toList.drop (i + 1) := by
      have := congrArg List.tail hl
      rwa [List.tail_drop, List.map_cons, List.tail_cons] at this
    have hindex : leaf.token = i := Option.some.inj (hc.index i _ ht)
    refine .cons (ho _ ht) (fun q hq => hindex ▸ hp q hq) (ih hrest ?_ ?_ ?_ ?_)
    · exact TokenStream.lt_size_of_token? ht
    · exact fun u hu => hc.next i _ u ht hu
    · intro hlast
      rw [← hc.stop, TokenStream.stop, TokenStream.back?_eq ht hlast]
      rfl
    · intro q hq
      rw [← Option.some.inj hq, hindex]
      exact Nat.lt_succ_self i

theorem tiles_of_covered (hc : env.stream.Contract) (h : Covered env s)
    (hn : s.nextToken = env.stream.size) : Tiles 0 none s.tree.yield env.stream.length := by
  refine tiles_of_drop (i := 0) hc ?_ (Nat.zero_le _) hc.start ?_ (by simp)
  · rw [h.tokens, hn, List.drop_zero]
    exact List.take_length
  · intro h
    rw [← hc.stop, TokenStream.stop, TokenStream.back?_eq_none h.symm]
    rfl

end Covered

section Reaches

variable {env : Setting σ γ} {s s₀ : Session σ γ} {ts : List (Transition σ γ)}
  {tr : Transition σ γ}

theorem token?_of_matchCurrent {token t : Token} {expected : TokenKind} {follow : TokenSet} {i : ℕ}
    (hc : env.stream.Contract)
    (htoken : ∀ i, token.index = some i → env.stream.token? i = some token)
    (h : (s.matchCurrent env token expected follow).1 = .ok t) (hi : t.index = some i) :
    env.stream.token? i = some t := by
  rw [matchCurrent] at h
  split_ifs at h
  · obtain rfl := Except.ok.inj h
    exact htoken i hi
  · obtain rfl := Except.ok.inj h
    exact hc.token?_of_index_peek hi
  · obtain rfl := Except.ok.inj h
    cases hi

/-- A token that was answered is the one of the stream at its position. -/
theorem token?_of_given? {s' : Session σ γ} {op : Operation} {answer : op.Answer} {t : Token}
    {i : ℕ} (hc : env.stream.Contract) (hs : s.step env op = .ok (answer, s'))
    (hg : op.given? answer = some t) (hi : t.index = some i) : env.stream.token? i = some t := by
  cases op with
  | lookAt steps =>
    obtain ⟨rfl, -⟩ := Prod.mk.inj (Except.ok.inj hs)
    obtain rfl := Option.some.inj hg
    exact hc.token?_of_index_peek hi
  | matchToken expected follow =>
    have ha : (s.matchToken env expected follow).1 = answer :=
      congrArg Prod.fst (Except.ok.inj hs)
    have ht : answer = .ok t := by
      cases answer with
      | error e => cases hg
      | ok u => rw [show u = t from Option.some.inj hg]
    rw [matchToken_eq] at ha
    exact token?_of_matchCurrent hc (fun i hi => hc.token?_of_index_peek hi) (ha.trans ht) hi
  | _ => cases hg

/-- Leaves that are made for tokens of the session only are made in order, and so are all others but
those of a sweep. -/
theorem isTidy_of_ne (hc : env.stream.Contract) (h : Reaches env s₀ ts s) (hf : FromSession ts)
    (hne : tr.op ≠ .command .appendTrailing) (ht : tr ∈ ts) : tr.op.IsTidy env tr.before := by
  obtain ⟨us, vs, hsplit⟩ := List.append_of_mem ht
  have hus : us ++ [tr] <+: ts := ⟨vs, by rw [hsplit, List.append_assoc]; rfl⟩
  have hleaf := hf us tr hus
  generalize tr.op = op at *
  cases op with
  | command c =>
    cases c with
    | newLeaf t element =>
      intro i hi
      obtain ⟨u, hu, hg⟩ := hleaf t rfl
      have hstep := step_of_mem h (hus.subset (List.mem_append_left _ hu))
      exact token?_of_given? hc hstep hg hi
    | appendTrailing => exact absurd rfl hne
    | _ => trivial
  | _ => trivial

/-- A procedure that makes leaves for tokens of its session only is tidy. -/
theorem isTidy_of_fromSession (hc : env.stream.Contract) (h : Reaches env s₀ ts s)
    (hf : FromSession ts) (ha : Avoids (.command .appendTrailing) ts) (ht : tr ∈ ts) :
    tr.op.IsTidy env tr.before :=
  isTidy_of_ne hc h hf (ha tr ht) ht

theorem isTidy_finishing (env : Setting σ γ) (s : Session σ γ) {tr : Transition σ γ}
    (ht : tr ∈ finishing.history env s) : tr.op.IsTidy env tr.before := by
  rw [history_finishing] at ht
  simp only [List.mem_append, List.mem_cons, List.not_mem_nil, or_false] at ht
  rcases ht with ((rfl | rfl) | ht) | rfl | rfl | rfl
  · trivial
  · trivial
  · generalize (s.popFollow.matchToken env .endOfInput ∅).1 = answer at ht
    cases answer with
    | ok t => cases ht
    | error e =>
      rw [List.mem_singleton.mp ht]
      trivial
  · trivial
  · exact isTidy_appendTrailing env _
  · trivial

/-- A whole parse is tidy if its procedure is. -/
theorem isTidy_topLevel {rule : ElementId} {p : RuleProcedure} {element : Option SemanticId}
    (hr : p.run env (s₀.openEntry env rule) = .ok (.ok element, s))
    (h : ∀ tr ∈ p.history env (s₀.openEntry env rule), tr.op.IsTidy env tr.before)
    (ht : tr ∈ (topLevel rule p).history env s₀) : tr.op.IsTidy env tr.before := by
  rw [history_topLevel hr] at ht
  simp only [List.mem_append, List.mem_cons, List.not_mem_nil, or_false] at ht
  rcases ht with ((rfl | rfl) | ht) | ht
  · trivial
  · trivial
  · exact h tr ht
  · exact isTidy_finishing env s ht

/-- A balanced run that makes leaves for its own tokens only stays covered. -/
theorem covered_of_reaches (hc : env.stream.Contract) (h₀ : Rooted s₀ 0) (h₀' : Covered env s₀)
    (h : Reaches env s₀ ts s) (hb : Balanced ts) (ht : ∀ tr ∈ ts, tr.op.IsTidy env tr.before) :
    Covered env s := by
  induction h with
  | start => exact h₀'
  | @step ts s s' op answer hrun hs ih =>
    -- Balance keeps the open composite on the right edge, where the leaves are added.
    have hb' := hb.of_prefix (List.prefix_append ts [_])
    have hr := rooted_of_reaches h₀ hrun hb'
    refine (ih hb' fun tr h => ht tr (List.mem_append_left _ h)).change hr
      (step_change hr.toLinked hs) hc ?_
    exact ht _ (List.mem_append_right _ (List.mem_singleton_self _))

theorem covered_openEntry (env : Setting σ γ) (factory : σ) (groups : γ) (rule : ElementId) :
    Covered env ((start env factory groups).openEntry env rule) := by
  have hl := linked_start env factory groups
  have hy : ((start env factory groups).openEntry env rule).tree.yield = Tree.empty.yield := by
    have hw := hl.wellFormed
    exact Tree.yieldBelow_addComposite (t := Tree.empty) hw Nat.zero_lt_one .root hl.current ..
  refine ⟨?_, Nat.zero_le _⟩
  rw [hy]
  rfl

end Reaches

section Parse

variable {env : Setting σ γ} {factory : σ} {groups : γ} {rule : ElementId} {p : RuleProcedure}
  {outcome : Except ParseError (Option SemanticId)} {s' : Session σ γ}

/-- The leaves of a finished tree tile the text. -/
theorem tiles_finish (hc : env.stream.Contract) {d : ℕ} (hr : Rooted s' d) (h : Covered env s') :
    Tiles 0 none (s'.finish env).tree.yield env.stream.length := by
  obtain ⟨us, hg, ho⟩ := growth_finish env hr.toLinked
  obtain ⟨ho, hn⟩ := ho hc
  exact tiles_of_covered hc (h.growth hr hg ho) (hn h.bound)

/-- The end of a parse is covered, and the parse fails only if its procedure does. -/
theorem complete_of_covered (hc : env.stream.Contract) {d : ℕ} (hr : Rooted s' d)
    (h : Covered env s') {ts : List (Transition σ γ)}
    (hrun : Reaches env (start env factory groups) ts (s'.finish env))
    (element : Option SemanticId) :
    (s'.complete env (.ok element)).1 = .ok ⟨element, (s'.finish env).syntaxTree env,
      (s'.finish env).current, ((s'.finish env).syntaxTree env).statistics env.stream.size
        (s'.finish env).attribution.unresolved⟩ := by
  obtain ⟨us, hg, -⟩ := growth_finish env hr.toLinked
  have hr' := hr.growth hg
  have hs := sound_of_reaches hrun
  have hv : ((s'.finish env).syntaxTree env).violation? = none := by
    refine (Tree.coherent_of_tiles hr'.wellFormed hr'.contains_root hr'.root
      (tiles_finish hc hr h) fun x hx => ?_).violation? hc.length_lt hr'.contains_root
    obtain ⟨q, hq, rfl⟩ := List.mem_map.mp hx
    obtain ⟨hqc, hqa, -⟩ := hs.primary q hq
    exact hs.intact.below_root hr'.wellFormed hr'.root hqc hqa
  show (s'.finish env).result env element = _
  rw [result, hv]
  split_ifs <;> rfl

/-- The leaves of a finished tree are the tokens of the stream, in order. -/
theorem leaves_finish (hc : env.stream.Contract) {d : ℕ} (hr : Rooted s' d)
    (h : Covered env s') :
    (s'.finish env).tree.yield.map Leaf.toToken = env.stream.tokens.toList := by
  obtain ⟨us, hg, ho⟩ := growth_finish env hr.toLinked
  obtain ⟨ho, hn⟩ := ho hc
  rw [(h.growth hr hg ho).tokens, hn h.bound]
  exact List.take_length

/-- The leaves of a finished tree start and end on character boundaries. -/
theorem isSome_slice?_of_mem_finish (hc : env.stream.Contract) {d : ℕ} (hr : Rooted s' d)
    (h : Covered env s') {leaf : Leaf} (hleaf : leaf ∈ (s'.finish env).tree.yield) :
    (leaf.span.slice? env.stream.text).isSome := by
  have htoken : leaf.toToken ∈ env.stream.tokens.toList := by
    rw [← leaves_finish hc hr h]
    exact List.mem_map_of_mem hleaf
  obtain ⟨i, hi⟩ := List.mem_iff_getElem?.mp htoken
  exact hc.boundary i leaf.toToken (Array.getElem?_toList.symm.trans hi)

/-- The texts of the leaves of a finished tree make up the text. -/
theorem join_text_finish (hc : env.stream.Contract) {d : ℕ} (hr : Rooted s' d)
    (h : Covered env s') :
    String.join (((s'.finish env).syntaxTree env).leaves.map
      fun x => (((s'.finish env).syntaxTree env).view x).text) = env.stream.text := by
  apply (congrArg String.join (Tree.map_text_leaves ..)).trans
  exact (tiles_finish hc hr h).join_slice fun _ hleaf =>
    Or.inr (isSome_slice?_of_mem_finish hc hr h hleaf)

/-- A procedure that makes leaves for tokens of its session only, leaves the trailing tokens alone
and closes no more composites than it opened cannot break the tree: the check finds nothing, the
parse succeeds if the procedure does, and the leaves in document order are the tokens of the stream,
each of them once, with their texts. -/
theorem leaves_of_parse (hc : env.stream.Contract)
    (hr : p.run env ((start env factory groups).openEntry env rule) = .ok (outcome, s'))
    (hf : FromSession (p.history env ((start env factory groups).openEntry env rule)))
    (ha : Avoids (.command .appendTrailing)
      (p.history env ((start env factory groups).openEntry env rule)))
    (hb : Balanced (p.history env ((start env factory groups).openEntry env rule))) :
    ∃ result t, (start env factory groups).parse env rule p = .ok (result, t) ∧
      (∀ v, result = .error (.invariant v) → outcome = .error (.invariant v)) ∧
      ∀ element, outcome = .ok element → ∃ parse, result = .ok parse ∧
        parse.syntaxTree.leaves.map
            (fun x => (parse.syntaxTree.tree.node x).leaf?.map (·.token)) =
          (List.range env.stream.size).map some ∧
        parse.syntaxTree.leaves.map
            (fun x => (parse.syntaxTree.tree.node x).leaf?.map Leaf.toToken) =
          env.stream.tokens.toList.map some ∧
        String.join (parse.syntaxTree.leaves.map fun x => (parse.syntaxTree.view x).text) =
          env.stream.text := by
  have hrun := Procedure.reaches_history hr
  have hroot := rooted_of_reaches (rooted_openEntry env factory groups rule) hrun hb
  have hcov := covered_of_reaches hc (rooted_openEntry env factory groups rule)
    (covered_openEntry env factory groups rule) hrun hb
    fun _ ht => isTidy_of_fromSession hc hrun hf ha ht
  refine ⟨(s'.complete env outcome).1, (s'.complete env outcome).2, parse_eq hr, ?_⟩
  cases outcome with
  | error e =>
    refine ⟨?_, fun _ he => absurd he (by simp)⟩
    intro v hv
    exact congrArg Except.error (Except.error.inj hv)
  | ok element =>
    have htop := Procedure.reaches_history (run_topLevel hr)
    have hok := complete_of_covered hc hroot hcov htop element
    have hleaves := leaves_finish hc hroot hcov
    rw [hok]
    refine ⟨fun _ hv => absurd hv (by simp), ?_⟩
    intro element' he
    obtain rfl := Except.ok.inj he
    refine ⟨_, rfl, ?_, ?_, join_text_finish hc hroot hcov⟩
    · rw [← hc.map_index, ← hleaves, List.map_map]
      exact Tree.map_leaves (fun x leaf hx => congrArg (Option.map _) hx) _
    · rw [← hleaves, List.map_map]
      exact Tree.map_leaves (fun x leaf hx => congrArg (Option.map _) hx) _

open Sample in
/-- The sample covers its three tokens. -/
theorem leaves_of_sample : ∃ parse t, session.parse setting ⟨0⟩ procedure = .ok (.ok parse, t) ∧
    parse.syntaxTree.leaves.map (fun x => (parse.syntaxTree.tree.node x).leaf?.map (·.token)) =
      [some 0, some 1, some 2] := by
  obtain ⟨s, hr⟩ := exists_run
  have hc : setting.stream.Contract := by decide +kernel
  have hf : FromSession history := by decide +kernel
  have ha : Avoids (.command .appendTrailing) history := by decide +kernel
  have hb : Balanced history := by decide +kernel
  obtain ⟨result, t, hparse, -, h⟩ := leaves_of_parse hc hr hf ha hb
  obtain ⟨parse, rfl, htokens, -⟩ := h none rfl
  exact ⟨parse, t, hparse, htokens⟩

end Parse

end ParseTree
