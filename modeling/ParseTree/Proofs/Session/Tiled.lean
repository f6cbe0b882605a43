import ParseTree.Proofs.Session.Anchored
import ParseTree.Proofs.Session.Walk
import ParseTree.Proofs.Tree.Layout

/-!
# The spans of siblings

A composite is placed where the last leaf ends when it is opened. All leaves of later nodes come
after it in document order, so this is where the leaf before it ends at all times. In the end the
leaves follow each other, hence so do the children of every composite, and messages are in the order
of their nodes.

## Main definitions

* `Seated`: every composite is placed where the leaf before it ends

## Main results

* `Seated.change`: every operation keeps them there
* `consecutive_of_parse`: the spans of the children of a composite tile its own
-/

namespace ParseTree

open Session

variable {σ γ : Type}

/-- In document order every composite is placed where the leaf before it ends. -/
def Seated (env : Setting σ γ) (s : Session σ γ) : Prop :=
  s.tree.Moored 0 (s.tree.descendants Tree.root) (s.anchor env)

section Seated

variable {env : Setting σ γ} {s s' : Session σ γ} {op : Operation} {ts : List Token} {d : ℕ}

theorem moored_sameNodes {a b : ℕ} {l : List NodeId} {t t' : Tree} (h : t.Moored a l b)
    (hs : t.SameNodes t') : t'.Moored a l b :=
  h.congr (fun x _ => hs.leaf? x) fun x _ => hs.anchor x

theorem Seated.sameNodes (h : Seated env s) (hr : Rooted s d) (hn : s.tree.SameNodes s'.tree)
    (hl : s'.lastToken = s.lastToken) : Seated env s' := by
  rw [Seated, anchor_congr hl, hn.descendants hr.wellFormed hr.contains_root]
  exact moored_sameNodes h hn

theorem seated_openEntry (env : Setting σ γ) (factory : σ) (groups : γ) (rule : ElementId) :
    Seated env ((start env factory groups).openEntry env rule) := by
  have hdescendants : ((start env factory groups).openEntry env rule).tree.descendants Tree.root =
      [Tree.root, ⟨1⟩] := rfl
  rw [Seated, hdescendants]
  exact .composite rfl rfl (.composite rfl rfl .nil)

theorem Seated.newComposite (h : Seated env s) (hr : Rooted s d) (element : ElementId) :
    Seated env (s.newComposite env element) := by
  have hleaf (x : NodeId) : ((s.newComposite env element).tree.node x).leaf? =
      (s.tree.node x).leaf? := Tree.leaf?_addComposite x
  have hanchor (x : NodeId) : ((s.newComposite env element).tree.node x).anchor =
      if x = s.tree.nextId then s.anchor env else (s.tree.node x).anchor :=
    Tree.anchor_addComposite x
  rw [Seated, descendants_newComposite hr]
  refine (h.congr (fun x _ => hleaf x) fun x hx => ?_).concat
    (.composite ?_ ((hanchor _).trans (if_pos rfl)) .nil)
  · rw [hanchor, if_neg (hr.ne_nextId_of_mem hx)]
  · rw [hleaf, Tree.node_of_not_contains s.tree.not_contains_nextId]
    rfl

/-- A leaf comes last, and what comes next is placed at its end. -/
theorem moored_growth {m : ℕ} (h : s.tree.Moored 0 (s.tree.descendants Tree.root) m)
    (hr : Rooted s d) (hg : Growth env s ts s') :
    ∃ m', s'.tree.Moored 0 (s'.tree.descendants Tree.root) m' := by
  induction hg with
  | done => exact ⟨m, h⟩
  | @leaf ts s' t i hg _ element feature ih =>
    obtain ⟨m', ih⟩ := ih
    have hr' := hr.growth hg
    have hleaf := leaf?_createLeaf env s' t i element feature
    have hanchor (x : NodeId) : ((s'.createLeaf env t i element feature).tree.node x).anchor =
        (s'.tree.node x).anchor := by
      rw [(sameButLookahead_createLeaf ..).anchor]
      exact Tree.anchor_addLeaf x
    rw [descendants_createLeaf hr']
    refine ⟨_, (ih.congr (fun x hx => ?_) fun x _ => hanchor x).concat
      (.leaf ((hleaf _).trans (if_pos rfl)) .nil)⟩
    rw [hleaf, if_neg (hr'.ne_nextId_of_mem hx)]
  | @rest ts s' s'' hg hs ih =>
    obtain ⟨m', ih⟩ := ih
    refine ⟨m', ?_⟩
    rw [hs.descendants (hr.growth hg)]
    exact moored_sameNodes ih hs.nodes

/-- In a covered session the last leaf ends where new composites are placed. -/
theorem Covered.anchor_eq (h : Covered env s) :
    s.anchor env = (s.tree.yield.getLast?.map (·.span.stop)).getD 0 := by
  rw [Session.anchor, ← h.map_getLast?_yield]
  cases s.tree.yield.getLast? <;> rfl

theorem Seated.growth (h : Seated env s) (hr : Rooted s d) (hg : Growth env s ts s')
    (hc : Covered env s') : Seated env s' := by
  obtain ⟨m, hm⟩ := moored_growth h hr hg
  have hstop := hm.stop_eq
  rw [Seated, hc.anchor_eq]
  exact hstop ▸ hm

theorem Seated.wrapCurrent (h : Seated env s) (hr : Rooted s d) (action : ElementId) :
    Seated env (s.wrapCurrent action) := by
  have hleaf := leaf?_wrapCurrent s action
  have hanchor (x : NodeId) : ((s.wrapCurrent action).tree.node x).anchor =
      if x = s.tree.nextId then (s.tree.node s.current).anchor else (s.tree.node x).anchor := by
    rw [(sameButLookahead_wrapCurrent s action).anchor, Tree.anchor_wrap]
  have hne := Tree.ne_nextId_of_contains hr.current.contains
  rw [Seated, descendants_wrapCurrent hr]
  refine Tree.Moored.interpose (h.congr (fun x _ => hleaf x) fun x hx => ?_) ?_ ?_ ?_
  · rw [hanchor, if_neg (hr.ne_nextId_of_mem hx)]
  · rw [hleaf, hr.current.leaf?]
  · rw [hleaf, Tree.node_of_not_contains s.tree.not_contains_nextId]
    rfl
  · rw [hanchor, if_pos rfl, hanchor, if_neg hne]

theorem Seated.afterRuleCall (h : Seated env s) (hr : Rooted s d) :
    Seated env (s.afterRuleCall env) := by
  obtain ⟨p, -, hp⟩ := hr.exists_parent
  rw [afterRuleCall_eq hp]
  cases hc : s.absorbed? env with
  | none => exact h
  | some child =>
    have hm := mergeable_of_absorbed? hc
    have hleaf := leaf?_merge hr.toLinked hm
    have hanchor (x : NodeId) : ((s.merge child).tree.node x).anchor = (s.tree.node x).anchor := by
      rw [(sameButLookahead_merge s child).anchor, Tree.anchor_absorb hr.wellFormed hm]
    show (s.merge child).tree.Moored 0 ((s.merge child).tree.descendants Tree.root) (s.anchor env)
    rw [descendants_merge hr hc]
    refine Tree.Moored.contract (h.congr (fun x _ => hleaf x) fun x _ => hanchor x) ?_
    rw [hleaf, hm.leaf?]

/-- Whatever an operation does, every composite is placed where the leaf before it ends. -/
theorem Seated.change (h : Seated env s) (hr : Rooted s d) (hc : Change env s op s')
    (hcov : Covered env s') : Seated env s' := by
  cases hc with
  | enter => exact h.sameNodes hr (sameButLookahead_enterRule s).toSameNodes rfl
  | opened element => exact h.newComposite hr element
  | closed => exact h.afterRuleCall hr
  | @wrapped action _ _ _ h₁ h₂ =>
    have hr₁ := hr.similar h₁.toSimilar
    exact ((h.sameNodes hr h₁.nodes h₁.lastToken).wrapCurrent hr₁ action).sameNodes
      (hr₁.wrapCurrent action) h₂.nodes h₂.lastToken
  | grown _ hg _ => exact h.growth hr hg hcov

theorem seated_of_reaches {s₀ : Session σ γ} {ts : List (Transition σ γ)}
    (hc : env.stream.Contract) (h₀ : Rooted s₀ 0) (hcov : Covered env s₀) (hs : Seated env s₀)
    (h : Reaches env s₀ ts s) (hb : Balanced ts) (ht : ∀ tr ∈ ts, tr.op.IsTidy env tr.before) :
    Seated env s := by
  induction h with
  | start => exact hs
  | @step ts s s' op answer hrun hstep ih =>
    have hb' := hb.of_prefix (List.prefix_append ts [_])
    have hr := rooted_of_reaches h₀ hrun hb'
    have hcov' := covered_of_reaches hc h₀ hcov (.step hrun hstep) hb ht
    exact (ih hb' fun tr h => ht tr (List.mem_append_left _ h)).change hr
      (step_change hr.toLinked hstep) hcov'

end Seated

section Parse

variable {env : Setting σ γ} {t : Session σ γ} {factory : σ} {groups : γ} {rule : ElementId}
  {p : RuleProcedure} {parse : Parse}

theorem map_primarySpan?_diagnostics (t : SyntaxTree) :
    t.diagnostics.map (·.primarySpan?) = (t.errors.map fun e => t.tree.span e.1).map some := by
  rw [SyntaxTree.diagnostics, List.map_map, List.map_map]
  rfl

/-- In a completed parse of a procedure that makes leaves for its own tokens only and closes no more
composites than it opened, the spans of the children of a composite follow each other from its start
to its end, and a composite without leaves covers no more than its place. So in document order the
nodes start one after the other, and so do the diagnostics. -/
theorem consecutive_of_parse (hc : env.stream.Contract)
    (hparse : (start env factory groups).parse env rule p = .ok (.ok parse, t))
    (hf : FromSession (p.history env ((start env factory groups).openEntry env rule)))
    (ha : Avoids (.command .appendTrailing)
      (p.history env ((start env factory groups).openEntry env rule)))
    (hb : Balanced (p.history env ((start env factory groups).openEntry env rule))) :
    (∀ x ∈ parse.syntaxTree.nodes, (parse.syntaxTree.tree.node x).leaf? = none →
      Consecutive (parse.syntaxTree.tree.span x).start
        ((parse.syntaxTree.tree.children x).map parse.syntaxTree.tree.span)
        (parse.syntaxTree.tree.span x).stop ∧
      (parse.syntaxTree.tree.leaves x = [] →
        parse.syntaxTree.tree.span x = .point (parse.syntaxTree.tree.node x).anchor)) ∧
    (parse.syntaxTree.nodes.map fun x => (parse.syntaxTree.tree.span x).start).Pairwise (· ≤ ·) ∧
    ∃ spans : List Span, parse.syntaxTree.diagnostics.map (·.primarySpan?) = spans.map some ∧
      spans.Pairwise fun a b => a.start ≤ b.start := by
  obtain ⟨element, s, hr, rfl, rfl⟩ := exists_run_of_parse_eq_ok hparse
  have hrun := Procedure.reaches_history hr
  have htidy (tr : Transition σ γ)
      (ht : tr ∈ p.history env ((start env factory groups).openEntry env rule)) :=
    isTidy_of_fromSession hc hrun hf ha ht
  have h₀ := rooted_openEntry env factory groups rule
  have hroot := rooted_of_reaches h₀ hrun hb
  have hcov₀ := covered_openEntry env factory groups rule
  have hcov := covered_of_reaches hc h₀ hcov₀ hrun hb htidy
  have hseated := seated_of_reaches hc h₀ hcov₀ (seated_openEntry env factory groups rule) hrun hb
    htidy
  obtain ⟨us, hg, ho⟩ := growth_finish env hroot.toLinked
  have hroot' := hroot.finish env
  have hseated' := hseated.growth hroot hg (hcov.growth hroot hg (ho hc).1)
  have hw := hroot'.wellFormed
  have htraversal := Tree.traversal_descendants hw hroot'.contains_root
  have hcontains : ∀ x ∈ [Tree.root], (s.finish env).tree.Contains x :=
    List.forall_mem_singleton.mpr hroot'.contains_root
  have hlies : (s.finish env).tree.Lies 0 ((s.finish env).tree.descendants Tree.root)
      ((s.finish env).anchor env) := by
    refine Tree.Moored.lies hseated' (tiles_finish hc hroot hcov) fun x hx leaf hleaf => ?_
    have hmem : leaf ∈ (s.finish env).tree.yield := List.mem_filterMap.mpr ⟨x, hx, hleaf⟩
    exact Span.start_le_stop_of_slice? (isSome_slice?_of_mem_finish hc hroot hcov hmem)
  have hsorted := (hlies.sorted hw hcontains htraversal).1
  refine ⟨fun x hx hleaf => ⟨hlies.consecutive_children hw hcontains htraversal hx hleaf, ?_⟩,
    hsorted, _, map_primarySpan?_diagnostics _, ?_⟩
  · intro hnone
    have hcx : (s.finish env).tree.IsComposite x :=
      ⟨Tree.contains_of_below hroot'.contains_root ((Tree.mem_descendants_iff hw
        hroot'.contains_root).mp hx), hleaf⟩
    exact span_of_isBare hw hcx ((leaves_eq_nil_iff hw hcx.contains).mp hnone)
  · rw [List.pairwise_map] at hsorted ⊢
    rw [SyntaxTree.errors, Tree.errors, List.pairwise_filterMap]
    refine hsorted.imp ?_
    intro x y hxy e he e' he'
    obtain ⟨_, -, rfl⟩ := Option.map_eq_some_iff.mp he
    obtain ⟨_, -, rfl⟩ := Option.map_eq_some_iff.mp he'
    exact hxy

namespace Sample

/-- Calls a rule that matches nothing between the two words. -/
def hollow : RuleProcedure :=
  word ⟨5⟩ ⟨2⟩ <| (callRule ⟨0⟩ (.pure (.ok none))).bind fun _ =>
    word ⟨7⟩ ⟨4⟩ (.pure (.ok none))

end Sample

open Sample in
/-- In the sample a composite without leaves lies between the first word and the blank. -/
theorem consecutive_of_hollow : ∃ parse t,
    session.parse setting ⟨0⟩ hollow = .ok (.ok parse, t) ∧
    (parse.syntaxTree.tree.children ⟨1⟩).map parse.syntaxTree.tree.span =
      [⟨0, 1⟩, .point 1, ⟨1, 2⟩, ⟨2, 3⟩] ∧
    Consecutive (parse.syntaxTree.tree.span ⟨1⟩).start
      ((parse.syntaxTree.tree.children ⟨1⟩).map parse.syntaxTree.tree.span)
      (parse.syntaxTree.tree.span ⟨1⟩).stop := by
  have hc : setting.stream.Contract := by decide +kernel
  have hf : FromSession (hollow.history setting (session.openEntry setting ⟨0⟩)) := by
    decide +kernel
  have ha : Avoids (.command .appendTrailing)
      (hollow.history setting (session.openEntry setting ⟨0⟩)) := by decide +kernel
  have hb : Balanced (hollow.history setting (session.openEntry setting ⟨0⟩)) := by decide +kernel
  have hcompleted : ((session.parse setting ⟨0⟩ hollow).toOption.bind (·.1.toOption)).any
      fun parse => ⟨1⟩ ∈ parse.syntaxTree.nodes ∧
        (parse.syntaxTree.tree.node ⟨1⟩).leaf? = none ∧
        (parse.syntaxTree.tree.children ⟨1⟩).map parse.syntaxTree.tree.span =
          [⟨0, 1⟩, .point 1, ⟨1, 2⟩, ⟨2, 3⟩] := by
    decide +kernel
  obtain ⟨parse, t, hparse, h⟩ := exists_parse_of_any hcompleted
  obtain ⟨hmem, hleaf, hspans⟩ := of_decide_eq_true h
  obtain ⟨hconsecutive, -⟩ := consecutive_of_parse hc hparse hf ha hb
  exact ⟨parse, t, hparse, hspans, (hconsecutive ⟨1⟩ hmem hleaf).1⟩

end Parse

end ParseTree
