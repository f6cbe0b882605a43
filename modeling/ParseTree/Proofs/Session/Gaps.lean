import ParseTree.Proofs.Session.Prompt
import ParseTree.Proofs.Session.Walk
import ParseTree.Proofs.Tree.Gaps

/-!
# Hidden tokens stay in their gaps

Leaves are made up to a visible token or up to the end, so the leaves of the hidden tokens before a
visible one are made together with its own, in one composite. Wrappers and merges move the children
of a composite as a whole.

## Main definitions

* `Uncut`: no leaf was made for a part of a gap only
* `Ready`: the next leaf goes next to a hidden leaf that comes last

## Main results

* `uncut_of_reaches`: a run that makes leaves for its own tokens cuts no gap
* `joined_of_reaches`: hidden leaves stay with the leaf after them
* `siblings_of_parse`: the hidden leaves of a gap are siblings of the visible leaf after it
-/

namespace ParseTree

open Session

variable {σ γ : Type}

/-- If the token that got its leaf last is hidden, then all tokens have theirs. -/
def Uncut (env : Setting σ γ) (s : Session σ γ) : Prop :=
  ∀ t, s.lastToken.bind env.stream.token? = some t → t.isHidden → s.nextToken = env.stream.size

/-! ## Leaves up to a visible token -/

section Uncut

variable {env : Setting σ γ} {s s' s₀ : Session σ γ} {op : Operation} {answer : op.Answer}
  {ts : List (Transition σ γ)} {t : Token} {d : ℕ}

theorem Uncut.of_lastToken (h : Uncut env s) (hl : s'.lastToken = s.lastToken) : Uncut env s' := by
  rwa [Uncut, nextToken_congr hl, hl]

theorem uncut_of_visible {i : ℕ} (hl : s.lastToken = some i) (hi : env.stream.token? i = some t)
    (ht : t.isHidden = false) : Uncut env s := by
  intro u hu hhidden
  rw [hl, Option.bind_some, hi] at hu
  obtain rfl := Option.some.inj hu
  rw [ht] at hhidden
  cases hhidden

theorem Uncut.newLeaf {element : ElementId} (h : Uncut env s) (hv : t.isHidden = false)
    (ht : Operation.IsTidy env s (.command (.newLeaf t element)))
    (hs : s.newLeaf env t element = .ok s') : Uncut env s' := by
  rw [Session.newLeaf] at hs
  cases hi : t.index with
  | none =>
    simp only [hi] at hs
    exact Except.ok.inj hs ▸ h
  | some i =>
    simp only [hi] at hs
    split_ifs at hs
    · exact Except.ok.inj hs ▸ h
    · obtain ⟨feature, -, hs⟩ := exists_of_bind_eq_ok hs
      exact uncut_of_visible (congrArg _ (Except.ok.inj hs).symm) (ht i hi) hv

theorem Uncut.appendSkipped (h : Uncut env s) (hc : env.stream.Contract) :
    Uncut env (s.appendSkipped env) := by
  rw [Session.appendSkipped]
  cases hp : s.cursor.previous? env.stream with
  | none => exact h
  | some t =>
    obtain ⟨i, -, hi⟩ := TokenStream.token?_of_lookBack hp
    simp only [Option.bind_some, hc.index i t hi]
    split_ifs
    · exact uncut_of_visible rfl hi (TokenStream.isHidden_of_lookBack hp)
    · exact h

theorem Uncut.appendRest (h : Uncut env s) (start : ℕ) : Uncut env (s.appendRest env start) := by
  rw [Session.appendRest]
  split_ifs with hlt
  · intro _ _ _
    exact Nat.succ_pred_eq_of_pos (Nat.zero_lt_of_lt hlt)
  · exact h

theorem Uncut.appendTrailing (h : Uncut env s) : Uncut env (s.appendTrailing env) := by
  rw [Session.appendTrailing]
  split
  · exact h
  · exact h.appendRest _

theorem Uncut.appendAll (h : Uncut env s) : Uncut env (s.appendAll env) :=
  (h.appendRest s.nextToken).of_lastToken (lastToken_appendAll env s)

theorem Uncut.resume (h : Uncut env s) (hc : env.stream.Contract) (e : RecognitionError) :
    Uncut env (s.resume env e) :=
  (h.of_lastToken (steady_recover env s e).lastToken).appendSkipped hc

/-- No operation cuts a gap that is given visible tokens to make leaves of. -/
theorem Uncut.step (h : Uncut env s) (hc : env.stream.Contract) (hl : Linked s)
    (ht : op.IsTidy env s) (hv : ∀ t ∈ op.leafToken?, t.isHidden = false)
    (hs : s.step env op = .ok (answer, s')) : Uncut env s' := by
  have hinert (hplain : op.isPlain) (hleaf : op.leafToken? = none) (hcaught : op.caught? = none)
      (hmatch : ∀ expected follow, op ≠ .matchToken expected follow) : Uncut env s' :=
    h.of_lastToken (inert_of_step hl hplain hleaf hcaught hmatch hs).2
  cases op with
  | command c =>
    have hu := perform_of_step hs
    cases c with
    | newLeaf t element => exact h.newLeaf (hv t rfl) ht hu
    | appendSkipped => exact Except.ok.inj hu ▸ h.appendSkipped hc
    | appendTrailing => exact Except.ok.inj hu ▸ h.appendTrailing
    | appendAll => exact Except.ok.inj hu ▸ h.appendAll
    | report e => exact Except.ok.inj hu ▸ h.of_lastToken (steady_report env s e).lastToken
    | recover e => exact Except.ok.inj hu ▸ h.of_lastToken (steady_recover env s e).lastToken
    | _ => exact hinert rfl rfl rfl nofun
  | matchToken expected follow =>
    have hsteady := steady_matchToken env s expected follow
    rw [Except.ok.inj hs] at hsteady
    exact h.of_lastToken hsteady.lastToken
  | catchError e =>
    cases e with
    | recognition e =>
      obtain ⟨-, rfl⟩ := Prod.mk.inj (Except.ok.inj hs)
      exact h.resume hc e
    | _ => exact hinert rfl rfl rfl nofun
  | _ => exact hinert rfl rfl rfl nofun

/-- A session answers no hidden token. -/
theorem isHidden_of_given? (h : s.cursor.Rests env.stream) (hs : s.step env op = .ok (answer, s'))
    (hg : op.given? answer = some t) : t.isHidden = false := by
  have hpeek (steps : Int) : (s.cursor.peek env.stream steps).isHidden = false :=
    (Cursor.rests_iff.mp h).isHidden_peek steps
  cases op with
  | lookAt steps =>
    obtain ⟨rfl, -⟩ := Prod.mk.inj (Except.ok.inj hs)
    obtain rfl := Option.some.inj hg
    exact hpeek steps
  | matchToken expected follow =>
    have hm := match_matchToken env s expected follow
    rw [Except.ok.inj hs] at hm
    generalize s.matchRepair? env expected follow = repair at hm
    cases hm with
    | current _ _ _ => exact Option.some.inj hg ▸ hpeek 1
    | deleted _ _ => exact Option.some.inj hg ▸ hpeek 2
    | inserted _ _ => exact Option.some.inj hg ▸ rfl
    | failed _ _ e => cases hg
  | _ => cases hg

/-- A run that makes leaves for its own tokens only cuts no gap. -/
theorem uncut_of_reaches (hc : env.stream.Contract) (h₀ : Rooted s₀ 0)
    (hrests : s₀.cursor.Rests env.stream) (hu : Uncut env s₀) (h : Reaches env s₀ ts s)
    (hb : Balanced ts) (hf : FromSession ts) (ht : ∀ tr ∈ ts, tr.op.IsTidy env tr.before) :
    Uncut env s := by
  induction h with
  | start => exact hu
  | @step ts s s' op answer hrun hs ih =>
    have hts := List.prefix_append ts [(⟨s, op, answer, s'⟩ : Transition σ γ)]
    have hb' := hb.of_prefix hts
    refine (ih hb' (hf.of_prefix hts) fun tr h => ht tr (List.mem_append_left _ h)).step hc
      (rooted_of_reaches h₀ hrun hb').toLinked
      (ht _ (List.mem_append_right _ (List.mem_singleton_self _))) (fun t hleaf => ?_) hs
    obtain ⟨u, hmem, hg⟩ := hf ts _ (List.prefix_refl _) t hleaf
    obtain ⟨us, vs, rfl⟩ := List.append_of_mem hmem
    obtain ⟨hbefore, hstep, -⟩ := hrun.split
    exact isHidden_of_given? (rests_of_reaches hrests hbefore) hstep hg

end Uncut

/-! ## Leaves and their neighbours -/

section Joined

variable {env : Setting σ γ} {s s' s₀ : Session σ γ} {op : Operation} {ts : List Token} {d : ℕ}

theorem Tree.Joined.sameNodes {t t' : Tree} (h : t.Joined) (hn : t.SameNodes t')
    (hw : t.shape.WellFormed) (hc : t.Contains Tree.root) : t'.Joined := by
  refine h.mono (hn.leaves hw hc) hn.leaf? fun x y c _ _ hxy => ⟨c, ?_⟩
  rwa [hn.children]

/-- Leaves that are last in the tree come last in the open composite, if they are hidden. -/
def Ready (s : Session σ γ) : Prop :=
  ∀ x, [x] <:+ s.tree.leaves Tree.root → s.tree.isHidden x → [x] <:+ s.tree.children s.current

theorem Ready.similar (h : Ready s) (hr : Rooted s d) (hs : Similar s s') : Ready s' := by
  intro x hx hhidden
  rw [hs.nodes.leaves hr.wellFormed hr.contains_root] at hx
  rw [Tree.isHidden_congr (hs.nodes.leaf? x)] at hhidden
  rw [hs.nodes.children, hs.current]
  exact h x hx hhidden

theorem suffix_concat_pair {x y z : NodeId} {l : List NodeId} (h : [x, y] <:+ l ++ [z]) :
    [x] <:+ l ∧ y = z := by
  obtain ⟨a, ha⟩ := h
  have hsplit : (a ++ [x]) ++ [y] = l ++ [z] := by simpa using ha
  obtain ⟨hl, hy⟩ := List.append_inj' hsplit rfl
  exact ⟨⟨a, hl⟩, List.singleton_inj.mp hy⟩

/-- A leaf goes next to the hidden leaf before it. -/
theorem joined_createLeaf (hr : Rooted s d) (h : s.tree.Joined) (hready : Ready s) (t : Token)
    (i : ℕ) (element : Option ElementId) (feature : Option String) :
    (s.createLeaf env t i element feature).tree.Joined ∧
      Ready (s.createLeaf env t i element feature) := by
  have hleaves : (s.createLeaf env t i element feature).tree.leaves Tree.root =
      s.tree.leaves Tree.root ++ [s.tree.nextId] := leaves_createLeaf hr ..
  have hchildren (c : NodeId) : (s.createLeaf env t i element feature).tree.children c =
      if c = s.current then s.tree.children s.current ++ [s.tree.nextId]
      else s.tree.children c := by
    rw [← Tree.children_shape, shape_createLeaf env s t i element feature hr.toLinked,
      Shape.children_append, Tree.children_shape]
  have hhidden {x : NodeId} (hx : x ∈ s.tree.leaves Tree.root) :
      (s.createLeaf env t i element feature).tree.isHidden x = s.tree.isHidden x := by
    apply Tree.isHidden_congr
    rw [leaf?_createLeaf, if_neg (hr.ne_nextId_of_mem (List.mem_of_mem_filter hx))]
  constructor
  · intro x y hxy hx
    rw [hleaves, List.infix_concat_iff] at hxy
    rcases hxy with hlast | hxy
    · obtain ⟨hx', rfl⟩ := suffix_concat_pair hlast
      rw [hhidden (hx'.subset (List.mem_singleton_self x))] at hx
      obtain ⟨l, hl⟩ := hready x hx' hx
      refine ⟨s.current, ?_⟩
      rw [hchildren, if_pos rfl, ← hl]
      exact ⟨l, [], by simp⟩
    · rw [hhidden (hxy.subset List.mem_cons_self)] at hx
      obtain ⟨c, hc⟩ := h x y hxy hx
      refine ⟨c, ?_⟩
      rw [hchildren]
      split_ifs with he
      · exact (he ▸ hc).trans (List.prefix_append ..).isInfix
      · exact hc
  · intro x hx _
    rw [hleaves] at hx
    rw [current_createLeaf, hchildren, if_pos rfl]
    obtain ⟨l, hl⟩ := hx
    obtain ⟨-, hx⟩ := List.append_inj' hl rfl
    rw [hx]
    exact List.suffix_append ..

theorem joined_growth (hr : Rooted s d) (h : s.tree.Joined) (hready : Ready s)
    (hg : Growth env s ts s') : s'.tree.Joined ∧ Ready s' := by
  induction hg with
  | done => exact ⟨h, hready⟩
  | leaf hg _ _ _ ih => exact joined_createLeaf (hr.growth hg) ih.1 ih.2 ..
  | rest hg hs ih =>
    have hr' := hr.growth hg
    exact ⟨ih.1.sameNodes hs.nodes hr'.wellFormed hr'.contains_root, ih.2.similar hr' hs⟩

theorem similar_of_growth_nil (h : Growth env s ts s') (hts : ts = []) : Similar s s' := by
  induction h with
  | done => exact .refl s
  | leaf => exact absurd hts (by simp)
  | rest _ hs ih => exact (ih hts).trans hs

/-- The leaf of a hidden token is the last one only if there is no other token. -/
theorem ready_of_slice (hc : Covered env s) (hu : Uncut env s) (ho : InOrder env.stream s s' ts)
    (hne : ts ≠ []) : Ready s := by
  intro x hx hhidden
  obtain ⟨l, hl⟩ := hx
  have htoken := hc.map_getLast?_yield
  rw [Tree.yield, Tree.yieldBelow_eq, ← hl, List.filterMap_append] at htoken
  rw [Tree.isHidden] at hhidden
  cases hleaf : (s.tree.node x).leaf? with
  | none =>
    rw [hleaf] at hhidden
    cases hhidden
  | some leaf =>
    rw [hleaf, Option.any_some] at hhidden
    have hlast : [x].filterMap (fun x => (s.tree.node x).leaf?) = [leaf] :=
      List.filterMap_cons_some hleaf
    rw [hlast, List.getLast?_concat, Option.map_some] at htoken
    have hsize := hu _ htoken.symm (by simp [Leaf.toToken, Token.isHidden, hhidden])
    have hsize' := Nat.le_antisymm (ho.bound hc.bound) (hsize ▸ ho.le)
    rw [ho.tokens, hsize, hsize', TokenStream.slice_self] at hne
    exact absurd rfl hne

theorem Tree.Joined.grow (h : s.tree.Joined) (hr : Rooted s d) (hc : Covered env s)
    (hu : Uncut env s) (hg : Growth env s ts s') (ho : InOrder env.stream s s' ts) :
    s'.tree.Joined := by
  by_cases hts : ts = []
  · exact h.sameNodes (similar_of_growth_nil hg hts).nodes hr.wellFormed hr.contains_root
  · exact (joined_growth hr h (ready_of_slice hc hu ho hts) hg).1

theorem joined_newComposite (hr : Rooted s d) (h : s.tree.Joined) (element : ElementId) :
    (s.newComposite env element).tree.Joined := by
  refine h.mono (leaves_newComposite hr element) (fun x => Tree.leaf?_addComposite x) ?_
  intro x y c _ _ hxy
  refine ⟨c, ?_⟩
  show _ <:+: (s.tree.addComposite ..).children c
  rw [← Tree.children_shape, Tree.shape_addComposite hr.current, Shape.children_append,
    Tree.children_shape]
  split_ifs with he
  · exact (he ▸ hxy).trans (List.prefix_append ..).isInfix
  · exact hxy

theorem joined_wrapCurrent (hr : Rooted s d) (h : s.tree.Joined) (action : ElementId) :
    (s.wrapCurrent action).tree.Joined := by
  refine h.mono (leaves_wrapCurrent hr action) (leaf?_wrapCurrent s action) ?_
  intro x y c hx hy hxy
  have hne {z : NodeId} (hz : s.tree.isLeaf z) : z ≠ s.current := by
    rintro rfl
    rw [Tree.isLeaf, hr.current.leaf?] at hz
    cases hz
  have hc : c ≠ s.tree.nextId :=
    Tree.ne_nextId_of_contains (Tree.contains_of_mem_children (hxy.subset List.mem_cons_self))
  refine ⟨c, ?_⟩
  rw [← Tree.children_shape, shape_wrapCurrent hr.toLinked, Shape.children_interpose, if_neg hc]
  have hmap := hxy.map fun z => if z = s.current then s.tree.nextId else z
  rwa [List.map_cons, List.map_singleton, if_neg (hne hx), if_neg (hne hy)] at hmap

theorem joined_merge {child : NodeId} (hr : Rooted s d) (h : s.tree.Joined)
    (hc : s.absorbed? env = some child) : (s.merge child).tree.Joined := by
  have hm := mergeable_of_absorbed? hc
  refine h.mono (leaves_merge hr hc) (leaf?_merge hr.toLinked hm) ?_
  intro x y c _ _ hxy
  have hcurrent : c ≠ s.current := by
    rintro rfl
    have hlength := hxy.length_le
    rw [show s.tree.children s.current = [child] from hm.children] at hlength
    exact absurd hlength (by simp)
  have hchildren (q : NodeId) : (s.merge child).tree.children q =
      if q = s.current then s.tree.children child
      else if q = child then [] else s.tree.children q := by
    rw [← Tree.children_shape, shape_merge hr.toLinked hm, Shape.children_contract]
    rfl
  by_cases hchild : c = child
  · refine ⟨s.current, ?_⟩
    rwa [hchildren, if_pos rfl, ← hchild]
  · refine ⟨c, ?_⟩
    rwa [hchildren, if_neg hcurrent, if_neg hchild]

/-- Whatever an operation does, hidden leaves stay with the leaf after them. -/
theorem Tree.Joined.change (h : s.tree.Joined) (hr : Rooted s d) (hcov : Covered env s)
    (hu : Uncut env s) (hs : env.stream.Contract) (ht : op.IsTidy env s) (hc : Change env s op s') :
    s'.tree.Joined := by
  cases hc with
  | enter =>
    exact h.sameNodes (sameButLookahead_enterRule s).toSameNodes hr.wellFormed hr.contains_root
  | opened element => exact joined_newComposite hr h element
  | closed =>
    obtain ⟨p, -, hp⟩ := hr.exists_parent
    rw [afterRuleCall_eq hp]
    cases hc : s.absorbed? env with
    | none => exact h
    | some child =>
      show (s.merge child).tree.Joined
      exact joined_merge hr h hc
  | @wrapped action _ _ _ h₁ h₂ =>
    have hr₁ := hr.similar h₁.toSimilar
    have hr₂ := hr₁.wrapCurrent action
    have hwrapped := joined_wrapCurrent hr₁
      (h.sameNodes h₁.nodes hr.wellFormed hr.contains_root) action
    exact hwrapped.sameNodes h₂.nodes hr₂.wellFormed hr₂.contains_root
  | grown _ hg ho => exact h.grow hr hcov hu hg (ho hs ht)

theorem joined_of_reaches {ts : List (Transition σ γ)} (hc : env.stream.Contract)
    (h₀ : Rooted s₀ 0) (hrests : s₀.cursor.Rests env.stream) (hcov : Covered env s₀)
    (hu : Uncut env s₀) (hj : s₀.tree.Joined) (h : Reaches env s₀ ts s) (hb : Balanced ts)
    (hf : FromSession ts) (ht : ∀ tr ∈ ts, tr.op.IsTidy env tr.before) : s.tree.Joined := by
  induction h with
  | start => exact hj
  | @step ts s s' op answer hrun hs ih =>
    have hts := List.prefix_append ts [(⟨s, op, answer, s'⟩ : Transition σ γ)]
    have hb' := hb.of_prefix hts
    have hf' := hf.of_prefix hts
    have ht' (tr : Transition σ γ) (h : tr ∈ ts) := ht tr (List.mem_append_left _ h)
    have hr := rooted_of_reaches h₀ hrun hb'
    exact (ih hb' hf' ht').change hr (covered_of_reaches hc h₀ hcov hrun hb' ht')
      (uncut_of_reaches hc h₀ hrests hu hrun hb' hf' ht') hc
      (ht _ (List.mem_append_right _ (List.mem_singleton_self _))) (step_change hr.toLinked hs)

theorem uncut_openEntry (env : Setting σ γ) (factory : σ) (groups : γ) (rule : ElementId) :
    Uncut env ((start env factory groups).openEntry env rule) := by
  intro t ht
  cases ht

theorem joined_openEntry (env : Setting σ γ) (factory : σ) (groups : γ) (rule : ElementId) :
    ((start env factory groups).openEntry env rule).tree.Joined := by
  have hleaves : ((start env factory groups).openEntry env rule).tree.leaves Tree.root = [] := rfl
  intro x y hxy
  rw [hleaves, List.infix_nil] at hxy
  cases hxy

end Joined

section Parse

variable {env : Setting σ γ} {t : Session σ γ} {factory : σ} {groups : γ} {rule : ElementId}
  {p : RuleProcedure} {parse : Parse}

/-- In a completed parse of a procedure that makes leaves for its own tokens only and closes no more
composites than it opened, hidden leaves stay in their gap: those before a visible leaf are siblings
just before it, and those after the last visible leaf are siblings. -/
theorem siblings_of_parse (hc : env.stream.Contract)
    (hparse : (start env factory groups).parse env rule p = .ok (.ok parse, t))
    (hf : FromSession (p.history env ((start env factory groups).openEntry env rule)))
    (ha : Avoids (.command .appendTrailing)
      (p.history env ((start env factory groups).openEntry env rule)))
    (hb : Balanced (p.history env ((start env factory groups).openEntry env rule))) :
    (∀ run v, run ++ [v] <:+: parse.syntaxTree.leaves →
      (∀ x ∈ run, parse.syntaxTree.tree.isHidden x) → parse.syntaxTree.tree.isHidden v = false →
      ∃ c ∈ parse.syntaxTree.nodes, run ++ [v] <:+: parse.syntaxTree.tree.children c) ∧
    ∀ run, run ≠ [] → run <:+ parse.syntaxTree.leaves →
      (∀ x ∈ run, parse.syntaxTree.tree.isHidden x) →
      ∃ c ∈ parse.syntaxTree.nodes, run <:+: parse.syntaxTree.tree.children c := by
  obtain ⟨element, s, hr, rfl, rfl⟩ := exists_run_of_parse_eq_ok hparse
  have hrun := Procedure.reaches_history hr
  have htidy (tr : Transition σ γ)
      (ht : tr ∈ p.history env ((start env factory groups).openEntry env rule)) :=
    isTidy_of_fromSession hc hrun hf ha ht
  have h₀ := rooted_openEntry env factory groups rule
  have hrests := Cursor.rests_start env.stream
  have hcov₀ := covered_openEntry env factory groups rule
  have hu₀ := uncut_openEntry env factory groups rule
  have hroot := rooted_of_reaches h₀ hrun hb
  have hcov := covered_of_reaches hc h₀ hcov₀ hrun hb htidy
  have hu := uncut_of_reaches hc h₀ hrests hu₀ hrun hb hf htidy
  have hj := joined_of_reaches hc h₀ hrests hcov₀ hu₀ (joined_openEntry env factory groups rule)
    hrun hb hf htidy
  obtain ⟨us, hg, ho⟩ := growth_finish env hroot.toLinked
  have hj' := hj.grow hroot hcov hu hg (ho hc).1
  have hroot' := hroot.finish env
  constructor
  · intro run v hrun hhidden _
    refine hj'.exists_children hroot'.wellFormed hroot'.isComposite_root hrun (by simp) ?_
    rwa [List.dropLast_concat]
  · intro run hne hrun hhidden
    exact hj'.exists_children hroot'.wellFormed hroot'.isComposite_root hrun.isInfix hne
      fun x hx => hhidden x (List.mem_of_mem_dropLast hx)

namespace Sample

/-- Two words with two blanks after each. -/
def spaced : Setting Unit Unit :=
  { setting with
    stream := .ofLexemes "a  b  " [.token ⟨5⟩ 1 .visible, .token ⟨6⟩ 1 .hidden,
      .token ⟨6⟩ 1 .hidden, .token ⟨7⟩ 1 .visible, .token ⟨6⟩ 1 .hidden, .token ⟨6⟩ 1 .hidden] }

end Sample

open Sample in
/-- In the sample the blanks between the words are next to the second word, in the composite that
took over its own, and the blanks at the end are next to each other. -/
theorem siblings_of_spaced : ∃ parse t,
    (start spaced () ()).parse spaced ⟨0⟩ procedure = .ok (.ok parse, t) ∧
    parse.syntaxTree.leaves = [⟨2⟩, ⟨6⟩, ⟨7⟩, ⟨8⟩, ⟨9⟩, ⟨10⟩] ∧
    (∃ c ∈ parse.syntaxTree.nodes, [⟨6⟩, ⟨7⟩] ++ [⟨8⟩] <:+: parse.syntaxTree.tree.children c) ∧
    ∃ c ∈ parse.syntaxTree.nodes, [⟨9⟩, ⟨10⟩] <:+: parse.syntaxTree.tree.children c := by
  have hc : spaced.stream.Contract := by decide +kernel
  have hf : FromSession (procedure.history spaced ((start spaced () ()).openEntry spaced ⟨0⟩)) := by
    decide +kernel
  have ha : Avoids (.command .appendTrailing)
      (procedure.history spaced ((start spaced () ()).openEntry spaced ⟨0⟩)) := by decide +kernel
  have hb : Balanced (procedure.history spaced ((start spaced () ()).openEntry spaced ⟨0⟩)) := by
    decide +kernel
  have hcompleted : (((start spaced () ()).parse spaced ⟨0⟩ procedure).toOption.bind
      (·.1.toOption)).any fun parse =>
        parse.syntaxTree.leaves = [⟨2⟩, ⟨6⟩, ⟨7⟩, ⟨8⟩, ⟨9⟩, ⟨10⟩] ∧
        parse.syntaxTree.leaves.map parse.syntaxTree.tree.isHidden =
          [false, true, true, false, true, true] := by
    decide +kernel
  obtain ⟨parse, t, hparse, h⟩ := exists_parse_of_any hcompleted
  obtain ⟨hleaves, hhidden⟩ := of_decide_eq_true h
  obtain ⟨hbefore, hafter⟩ := siblings_of_parse hc hparse hf ha hb
  rw [hleaves] at hbefore hafter hhidden
  simp only [List.map_cons, List.map_nil, List.cons.injEq, and_true] at hhidden
  obtain ⟨-, h₆, h₇, h₈, h₉, h₁₀⟩ := hhidden
  refine ⟨parse, t, hparse, hleaves, ?_, ?_⟩
  · exact hbefore [⟨6⟩, ⟨7⟩] ⟨8⟩ ⟨[⟨2⟩], [⟨9⟩, ⟨10⟩], rfl⟩ (by simp [h₆, h₇]) h₈
  · exact hafter [⟨9⟩, ⟨10⟩] (by simp) ⟨[⟨2⟩, ⟨6⟩, ⟨7⟩, ⟨8⟩], rfl⟩ (by simp [h₉, h₁₀])

end Parse

end ParseTree
