import ParseTree.Proofs.Session.Coverage
import ParseTree.Proofs.Session.Ownership

/-!
# Attribution of lookahead

At any time the lookahead leaves of a composite are the leaves of the tokens claimed for it, and it
waits for the claimed tokens that have no leaf yet. At the end of a parse all tokens have one, so
nothing waits.

## Main results

* `attributed_of_reaches`: in every reachable session, lookahead is attributed as claimed
* `not_absorbed_of_claimed`: the owner of a claim remains
* `lookaheadLeaves_of_parse`: a parse attributes to each composite what was claimed for it
-/

namespace ParseTree

open Session

variable {σ γ : Type}

section Attributed

variable {env : Setting σ γ} {s s' : Session σ γ} {m n : ℕ} {owns : NodeId → ℕ → Prop}
  {ts : List Token}

theorem Similar.attributed (hs : Similar s s') (h : Attributed m n owns s.attribution s.tree) :
    Attributed m n owns s'.attribution s'.tree := by
  rw [hs.attribution]
  exact h.of_tree hs.nodes.leaf? (fun x => (hs.nodes.isComposite_iff x).mpr) hs.lookahead

/-- The leaf of the next token goes to the composites that wait for it. -/
theorem attributed_createLeaf (h : Attributed m n owns s.attribution s.tree) (hn : n < m)
    (t : Token) (element : Option ElementId) (feature : Option String) :
    Attributed m (n + 1) owns (s.createLeaf env t n element feature).attribution
      (s.createLeaf env t n element feature).tree := by
  have hnew : (s.tree.node s.tree.nextId).leaf? = none := by
    rw [Tree.node_of_not_contains s.tree.not_contains_nextId]
    rfl
  refine h.resolve (l := ⟨n, t.kind, t.span, t.isHidden, feature⟩) hn ?_ rfl hnew
    (fun _ hx => hx.addLeaf) ?_
  · intro x
    exact Tree.leaf?_addLeaf x
  · intro x
    exact Tree.lookaheadLeaves_addLeaf x

theorem Growth.attributed (hg : Growth env s ts s') (h : Attributed m n owns s.attribution s.tree)
    (hts : ∀ k t, ts[k]? = some t → t.index = some (n + k)) (hm : n + ts.length ≤ m) :
    Attributed m (n + ts.length) owns s'.attribution s'.tree := by
  induction hg with
  | done => exact h
  | @leaf ts s' t i _ hi element feature ih =>
    rw [List.length_append, List.length_singleton, ← Nat.add_assoc] at hm ⊢
    have hnext : i = n + ts.length :=
      Option.some.inj (hi.symm.trans (hts ts.length t List.getElem?_concat_length))
    have hts' (k : ℕ) (u : Token) (hk : ts[k]? = some u) : u.index = some (n + k) := by
      apply hts k u
      rw [List.getElem?_append_left (List.getElem?_eq_some_iff.mp hk).1, hk]
    rw [hnext]
    exact attributed_createLeaf (ih hts' (Nat.le_of_succ_le hm)) hm t element feature
  | rest _ hs ih => exact hs.attributed (ih hts hm)

theorem Growth.attributed_of_inOrder (hg : Growth env s ts s') (hc : env.stream.Contract)
    (ho : InOrder env.stream s s' ts)
    (h : Attributed env.stream.size s.nextToken owns s.attribution s.tree) :
    Attributed env.stream.size s'.nextToken owns s'.attribution s'.tree := by
  have hbound := ho.bound h.le_size
  have hlength : s.nextToken + ts.length = s'.nextToken := by
    rw [ho.tokens, TokenStream.length_slice hbound, Nat.add_sub_cancel' ho.le]
  rw [← hlength]
  refine hg.attributed h ?_ (hlength.le.trans hbound)
  intro k t ht
  rw [ho.tokens] at ht
  exact hc.index_slice ht

theorem attributed_newComposite (h : Attributed m n owns s.attribution s.tree)
    (element : ElementId) : Attributed m n owns (s.newComposite env element).attribution
      (s.newComposite env element).tree :=
  h.of_tree Tree.leaf?_addComposite (fun _ hx => hx.addComposite) Tree.lookaheadLeaves_addComposite

/-- A wrapper takes over what the wrapped composite owned. -/
theorem attributed_wrapCurrent (h : Attributed m n owns s.attribution s.tree)
    (action : ElementId) :
    Attributed m n (fun c i => c ≠ s.current ∧ owns c i ∨ c = s.tree.nextId ∧ owns s.current i)
      (s.wrapCurrent action).attribution (s.wrapCurrent action).tree := by
  have hsame := (sameButLookahead_wrapCurrent s action).toSameNodes
  have hcomposite : (s.tree.wrap action s.current).IsComposite s.tree.nextId :=
    Tree.isComposite_wrap_nextId
  refine h.transfer (s.tree.wrap action s.current) (leaf?_wrapCurrent s action)
    (fun x hx => (hsame.isComposite_iff x).mpr hx.wrap)
    ((hsame.isComposite_iff _).mpr hcomposite) (fun c x => ?_) ?_
  · apply (Tree.mem_lookaheadLeaves_moveLookaheadLeaves hcomposite).trans
    rw [Tree.lookaheadLeaves_wrap, Tree.lookaheadLeaves_wrap]
  · refine Tree.NodupLookahead.moveLookaheadLeaves ?_ hcomposite
    intro x
    rw [Tree.lookaheadLeaves_wrap]
    exact h.nodup x

/-- A composite takes over what the one that it absorbs owned. -/
theorem attributed_merge {child : NodeId} (hl : Linked s) (hm : s.tree.Mergeable s.current child)
    (h : Attributed m n owns s.attribution s.tree) :
    Attributed m n (fun c i => c ≠ child ∧ owns c i ∨ c = s.current ∧ owns child i)
      (s.merge child).attribution (s.merge child).tree := by
  have htarget : (s.tree.absorb s.current child).IsComposite s.current :=
    ((sameButLookahead_merge s child).isComposite_iff _).mp
      ((isComposite_merge hl hm _).mpr hl.current)
  have hne := hm.ne hl.wellFormed
  -- The merge moves the lookahead twice, with the nodes and with the attribution; once is enough.
  refine h.transfer (s.tree.absorb s.current child) (leaf?_merge hl hm)
    (fun x => (isComposite_merge hl hm x).mpr) ((isComposite_merge hl hm _).mpr hl.current)
    (fun c x => ?_) ?_
  · apply (Tree.mem_lookaheadLeaves_moveLookaheadLeaves htarget).trans
    rw [Tree.mem_lookaheadLeaves_absorb hl.wellFormed hm,
      Tree.mem_lookaheadLeaves_absorb hl.wellFormed hm]
    by_cases hx : c = child
    · simp [hx, hne]
    · simp [hx, hne]
  · exact (Tree.nodupLookahead_absorb hl.wellFormed hm h.nodup).moveLookaheadLeaves htarget

end Attributed

section Reaches

variable {env : Setting σ γ} {s s' s₀ : Session σ γ} {ts : List (Transition σ γ)}
  {op : Operation} {answer : op.Answer}

/-- Where the open composite and the merged ones remain, so do the owners. -/
theorem owner_eq_id (hw : s'.current = s.current) (ha : op ≠ .command .afterRuleCall) :
    Transition.owner env ⟨s, op, answer, s'⟩ = id := by
  funext c
  unfold Transition.owner
  cases op with
  | createWrapper action value =>
    show redirect s.current s'.current c = c
    rw [hw, redirect]
    split_ifs with hc
    · exact hc.symm
    · rfl
  | command command =>
    cases command with
    | afterRuleCall => exact absurd rfl ha
    | _ => rfl
  | _ => rfl

theorem attributed_afterRuleCall (hl : Linked s)
    (h : Attributed env.stream.size s.nextToken (Claimed env ts) s.attribution s.tree)
    (answer : Unit) : Attributed env.stream.size (s.afterRuleCall env).nextToken
      (Claimed env (ts ++ [⟨s, .command .afterRuleCall, answer, s.afterRuleCall env⟩]))
      (s.afterRuleCall env).attribution (s.afterRuleCall env).tree := by
  have hn : (s.afterRuleCall env).nextToken = s.nextToken := by
    rw [nextToken, nextToken, lastToken_afterRuleCall]
  have howner : Transition.owner env ⟨s, .command .afterRuleCall, answer, s.afterRuleCall env⟩ =
      fun c => (s.absorbed? env).elim c fun child => redirect child s.current c := rfl
  rw [hn]
  cases ha : s.absorbed? env with
  | none =>
    rw [ha] at howner
    have hsame : (s.afterRuleCall env).attribution = s.attribution ∧
        (s.afterRuleCall env).tree = s.tree := by
      cases hp : s.tree.parent? s.current with
      | none => rw [afterRuleCall_of_parent?_eq_none hp]; exact ⟨rfl, rfl⟩
      | some p => rw [afterRuleCall_eq hp, ha]; exact ⟨rfl, rfl⟩
    rw [hsame.1, hsame.2]
    exact h.congr fun c i => (claimed_concat_of_owner_eq_id _ (by simp) howner).symm
  | some child =>
    rw [ha] at howner
    obtain ⟨p, hp⟩ := exists_parent_of_absorbed? ha
    have hm := attributed_merge hl (mergeable_of_absorbed? ha) h
    have hsame : (s.afterRuleCall env).attribution = (s.merge child).attribution ∧
        (s.afterRuleCall env).tree = (s.merge child).tree := by
      rw [afterRuleCall_eq hp, ha]
      exact ⟨rfl, rfl⟩
    rw [hsame.1, hsame.2]
    exact hm.congr fun c i => (claimed_concat_of_owner _ (by simp) howner).symm

/-- Every operation keeps lookahead attributed as claimed. -/
theorem Attributed.change (hc : env.stream.Contract) (hl : Linked s)
    (h : Attributed env.stream.size s.nextToken (Claimed env ts) s.attribution s.tree)
    (hch : Change env s op s') (ht : op.IsTidy env s) (hr : s.cursor.Records env.stream) :
    Attributed env.stream.size s'.nextToken (Claimed env (ts ++ [⟨s, op, answer, s'⟩]))
      s'.attribution s'.tree := by
  cases hch with
  | enter =>
    have h' := h.claimAll hl.current fun i hi => hr.index_lt hc hi
    exact h'.congr fun c i => (claimed_concat_enterRule ⟨s, _, answer, _⟩ rfl).symm
  | opened element =>
    apply (attributed_newComposite h element).congr
    intro c i
    exact (claimed_concat_of_owner_eq_id _ (by simp) rfl).symm
  | closed => exact attributed_afterRuleCall hl h answer
  | @wrapped action value s₁ s' h₁ h₂ =>
    have hn : s'.nextToken = s.nextToken := by
      rw [nextToken, nextToken, h₂.lastToken, ← h₁.lastToken]
      rfl
    rw [hn]
    have hw := attributed_wrapCurrent (h₁.attributed h) action
    apply (h₂.attributed hw).congr
    intro c i
    have howner : Transition.owner env ⟨s, .createWrapper action value, answer, s'⟩ =
        redirect s₁.current s₁.tree.nextId := by
      rw [h₁.current, ← show s'.current = s₁.tree.nextId from h₂.current]
      rfl
    exact (claimed_concat_of_owner _ (by simp) howner).symm
  | grown hq hg ho =>
    apply (hg.attributed_of_inOrder hc (ho hc ht) h).congr
    intro c i
    refine (claimed_concat_of_owner_eq_id _ ?_ (owner_eq_id hg.current ?_)).symm
    · rintro rfl
      exact hq
    · rintro rfl
      exact hq

/-- In every reachable session, lookahead is attributed as claimed. -/
theorem attributed_of_reaches (hc : env.stream.Contract) (hl : Linked s₀)
    (hr : s₀.cursor.Records env.stream)
    (h₀ : Attributed env.stream.size s₀.nextToken (Claimed env []) s₀.attribution s₀.tree)
    (h : Reaches env s₀ ts s) (ht : ∀ tr ∈ ts, tr.op.IsTidy env tr.before) :
    Linked s ∧ Attributed env.stream.size s.nextToken (Claimed env ts) s.attribution s.tree := by
  induction h with
  | start => exact ⟨hl, h₀⟩
  | step hrun hs ih =>
    obtain ⟨hl', ih⟩ := ih fun tr h => ht tr (List.mem_append_left _ h)
    have hch := step_change hl' hs
    have htidy := ht _ (List.mem_append_right _ (List.mem_singleton_self _))
    exact ⟨hch.linked hl', ih.change hc hl' hch htidy (records_of_reaches hr hrun)⟩

theorem owner_of_ne (c : NodeId) (ha : op ≠ .command .afterRuleCall) :
    Transition.owner env ⟨s, op, answer, s'⟩ c = c ∨
      Transition.owner env ⟨s, op, answer, s'⟩ c = s'.current := by
  unfold Transition.owner
  cases op with
  | createWrapper action value =>
    show redirect s.current s'.current c = c ∨ redirect s.current s'.current c = s'.current
    unfold redirect
    split_ifs
    · exact Or.inr rfl
    · exact Or.inl rfl
  | command command =>
    cases command with
    | afterRuleCall => exact absurd rfl ha
    | _ => exact Or.inl rfl
  | _ => exact Or.inl rfl

/-- What was claimed is owned by a composite that remains. -/
theorem not_absorbed_of_claimed {factory : σ} {groups : γ} {c : NodeId} {i : ℕ}
    (h : Reaches env (start env factory groups) ts s) (hcl : Claimed env ts c i) :
    ¬ Absorbed env ts c := by
  -- Owners are open composites, which remain; when one is merged away, it stops being owner.
  induction h generalizing c with
  | start => exact absurd hcl not_claimed_nil
  | @step ts s s' op answer hrun hs ih =>
    have hsound := sound_of_reaches hrun
    have hsound' := sound_of_reaches (hrun.step hs)
    by_cases hop : op = .command .afterRuleCall
    · subst hop
      rw [claimed_concat] at hcl
      obtain ⟨c₀, hc₀, rfl⟩ := hcl.resolve_right (by simp)
      rw [absorbed_append_afterRuleCall rfl]
      show ¬ (Absorbed env ts ((s.absorbed? env).elim c₀ fun child => redirect child s.current c₀) ∨
        s.absorbed? env = some ((s.absorbed? env).elim c₀ fun child =>
          redirect child s.current c₀))
      cases ha : s.absorbed? env with
      | none => simpa using ih hc₀
      | some child =>
        have hne := (mergeable_of_absorbed? ha).ne hsound.wellFormed
        rw [Option.elim_some, Option.some.injEq, redirect]
        split_ifs with h
        · exact not_or.mpr ⟨hsound.intact.current, hne⟩
        · exact not_or.mpr ⟨ih hc₀, Ne.symm h⟩
    · rw [absorbed_append_of_ne hop] at hsound' ⊢
      rcases claimed_concat.mp hcl with ⟨c₀, hc₀, rfl⟩ | ⟨-, -, rfl⟩
      · rcases owner_of_ne c₀ hop with ho | ho
        · rw [ho]
          exact ih hc₀
        · rw [ho]
          exact hsound'.intact.current
      · exact hsound.intact.current

end Reaches

section Parse

variable {env : Setting σ γ} {factory : σ} {groups : γ} {rule : ElementId} {p : RuleProcedure}
  {s t : Session σ γ}

theorem attributed_start (env : Setting σ γ) (factory : σ) (groups : γ) :
    Attributed env.stream.size (start env factory groups).nextToken (Claimed env [])
      (start env factory groups).attribution (start env factory groups).tree :=
  .start _ fun _ _ => not_claimed_nil

/-- Every token of a covered stream has a leaf below the root. -/
theorem exists_leaf {tree : Tree} {stream : TokenStream} (hc : stream.Contract)
    (hw : tree.shape.WellFormed) (hr : tree.Contains Tree.root)
    (hy : tree.yield.map Leaf.toToken = stream.tokens.toList) {i : ℕ} (hi : i < stream.size) :
    ∃ x ∈ tree.leaves Tree.root, (tree.node x).leaf?.map (·.token) = some i := by
  obtain ⟨t, ht⟩ := TokenStream.exists_token? hi
  have hmem : t ∈ stream.tokens.toList := by
    rw [TokenStream.token?, ← Array.getElem?_toList] at ht
    exact List.mem_of_getElem? ht
  rw [← hy] at hmem
  obtain ⟨l, hl, rfl⟩ := List.mem_map.mp hmem
  obtain ⟨x, hx, hleaf⟩ := (Tree.mem_yield_iff hw hr).mp hl
  refine ⟨x, List.mem_filter.mpr ⟨(Tree.mem_descendants_iff hw hr).mpr hx, ?_⟩, ?_⟩
  · rw [Tree.isLeaf, hleaf]
    rfl
  · rw [hleaf]
    exact hc.index i _ ht

/-- At the end of a parse, every token has a leaf, and lookahead is attributed as claimed. -/
theorem attributed_finish {element : Option SemanticId} (hc : env.stream.Contract)
    (hr : p.run env ((start env factory groups).openEntry env rule) = .ok (.ok element, s))
    (ht : ∀ tr ∈ p.history env ((start env factory groups).openEntry env rule),
      tr.op.IsTidy env tr.before)
    (hn : (s.finish env).nextToken = env.stream.size) :
    Attributed env.stream.size env.stream.size
      (Claimed env ((topLevel rule p).history env (start env factory groups)))
      (s.finish env).attribution (s.finish env).tree := by
  obtain ⟨-, h⟩ := attributed_of_reaches hc (linked_start env factory groups)
    (fun t ht => absurd ht List.not_mem_nil) (attributed_start env factory groups)
    (Procedure.reaches_history (run_topLevel hr)) fun tr htr => isTidy_topLevel hr ht htr
  rw [show ((s.complete env (.ok element)).2).nextToken = env.stream.size from hn] at h
  exact h

/-- A completed parse leaves no lookahead deferred. The lookahead leaves of a composite are, without
duplicates, the leaves of the tokens that were recorded when a rule was entered whose composite it
finally stands for, and nothing that was recorded is lost. -/
theorem lookaheadLeaves_of_parse {parse : Parse} (hc : env.stream.Contract)
    (hparse : (start env factory groups).parse env rule p = .ok (.ok parse, t))
    (hf : FromSession (p.history env ((start env factory groups).openEntry env rule)))
    (ha : Avoids (.command .appendTrailing)
      (p.history env ((start env factory groups).openEntry env rule)))
    (hb : Balanced (p.history env ((start env factory groups).openEntry env rule))) :
    parse.statistics.unresolved = 0 ∧
    (∀ c ∈ parse.syntaxTree.nodes,
      (parse.syntaxTree.tree.lookaheadLeaves c).Nodup ∧
      ∀ x, x ∈ parse.syntaxTree.tree.lookaheadLeaves c ↔ x ∈ parse.syntaxTree.leaves ∧
        ∃ i, (parse.syntaxTree.tree.node x).leaf?.map (·.token) = some i ∧
          Claimed env ((topLevel rule p).history env (start env factory groups)) c i) ∧
    ∀ c i, Claimed env ((topLevel rule p).history env (start env factory groups)) c i →
      c ∈ parse.syntaxTree.nodes ∧ ∃ x ∈ parse.syntaxTree.tree.lookaheadLeaves c,
        (parse.syntaxTree.tree.node x).leaf?.map (·.token) = some i := by
  obtain ⟨element, s', hr, rfl, rfl⟩ := exists_run_of_parse_eq_ok hparse
  have hrun := Procedure.reaches_history hr
  have htidy (tr : Transition σ γ)
      (ht : tr ∈ p.history env ((start env factory groups).openEntry env rule)) :=
    isTidy_of_fromSession hc hrun hf ha ht
  have hroot := rooted_of_reaches (rooted_openEntry env factory groups rule) hrun hb
  have hcov := covered_of_reaches hc (rooted_openEntry env factory groups rule)
    (covered_openEntry env factory groups rule) hrun hb htidy
  obtain ⟨us, hg, ho⟩ := growth_finish env hroot.toLinked
  obtain ⟨-, hn⟩ := ho hc
  have hroot' := hroot.growth hg
  have h := attributed_finish hc hr htidy (hn hcov.bound)
  have hleaf (i : ℕ) (hi : i < env.stream.size) :=
    exists_leaf hc hroot'.wellFormed hroot'.contains_root (leaves_finish hc hroot hcov) hi
  refine ⟨h.unresolved_eq_zero, fun c _ => ⟨h.nodup c, ?_⟩, fun c i ho => ⟨?_, ?_⟩⟩
  · intro x
    refine h.mem_lookaheadLeaves_iff.trans ⟨?_, ?_⟩
    · rintro ⟨i, hi, ho⟩
      obtain ⟨y, hy, hyi⟩ := hleaf i (h.owner c i ho).2
      obtain rfl := Option.some.inj (((h.leaf i x).mpr hi).symm.trans ((h.leaf i y).mpr hyi))
      exact ⟨hy, i, hyi, ho⟩
    · rintro ⟨-, hx⟩
      exact hx
  · apply (Tree.mem_descendants_iff hroot'.wellFormed hroot'.contains_root).mpr
    have htop := Procedure.reaches_history (run_topLevel hr)
    exact (sound_of_reaches htop).intact.below_root hroot'.wellFormed hroot'.root
      (h.owner c i ho).1.contains (not_absorbed_of_claimed htop ho)
  · obtain ⟨x, -, hx⟩ := hleaf i (h.owner c i ho).2
    exact ⟨x, h.mem_lookaheadLeaves_iff.mpr ⟨i, hx, ho⟩, hx⟩

open Sample in
/-- In the sample the wrapper takes over the first word, and the outer composite the second one. -/
theorem lookaheadLeaves_of_sample :
    ∃ parse t, session.parse setting ⟨0⟩ procedure = .ok (.ok parse, t) ∧
      parse.statistics.unresolved = 0 ∧
      (∃ x ∈ parse.syntaxTree.tree.lookaheadLeaves ⟨3⟩,
        (parse.syntaxTree.tree.node x).leaf?.map (·.token) = some 0) ∧
      ∃ x ∈ parse.syntaxTree.tree.lookaheadLeaves ⟨4⟩,
        (parse.syntaxTree.tree.node x).leaf?.map (·.token) = some 2 := by
  have hcompleted :
      ((session.parse setting ⟨0⟩ procedure).toOption.bind (·.1.toOption)).any fun _ => true := by
    decide +kernel
  obtain ⟨parse, t, hparse, -⟩ := exists_parse_of_any hcompleted
  have hc : setting.stream.Contract := by decide +kernel
  have hf : FromSession history := by decide +kernel
  have ha : Avoids (.command .appendTrailing) history := by decide +kernel
  have hb : Balanced history := by decide +kernel
  have hwrapper : Claimed setting ((topLevel ⟨0⟩ procedure).history setting session) ⟨3⟩ 0 := by
    decide +kernel
  have houter : Claimed setting ((topLevel ⟨0⟩ procedure).history setting session) ⟨4⟩ 2 := by
    decide +kernel
  obtain ⟨hunresolved, -, howned⟩ := lookaheadLeaves_of_parse hc hparse hf ha hb
  exact ⟨parse, t, hparse, hunresolved, (howned _ _ hwrapper).2, (howned _ _ houter).2⟩

end Parse

end ParseTree
