import ParseTree.Proofs.Session.Conserved
import ParseTree.Proofs.Token.Visible

/-!
# The leaf that takes a message

Where leaves are made in the order of the stream, the next visible leaf is known beforehand: it is
that of the first visible token without one. A message that is put into the slot waits for it, so
the state in which it was put there tells which leaf takes it.

## Main definitions

* `Session.frontier`: the first visible token without a leaf
* `posts`: the operations that put a message into the slot
* `Paired`: every message that was in the slot was taken by the leaf at the frontier

## Main results

* `slice_newLeaves`: new leaves are those of the next tokens
* `paired_of_reaches`: a run that makes its leaves in order keeps messages and leaves paired
-/

namespace ParseTree

open Session

variable {σ γ : Type}

/-- The position of the first visible token without a leaf. -/
def Session.frontier (env : Setting σ γ) (s : Session σ γ) : ℕ :=
  env.stream.nextVisible s.nextToken

/-! ## New leaves -/

section NewLeaves

variable {env : Setting σ γ} {s s' : Session σ γ} {ts : List Token} {op : Operation}
  {answer : op.Answer}

theorem Growth.size (h : Growth env s ts s') : s'.tree.size = s.tree.size + ts.length := by
  induction h with
  | done => rfl
  | leaf _ _ _ _ ih =>
    rw [size_createLeaf, ih, List.length_append]
    rfl
  | rest _ hs ih => rw [hs.nodes.size, ih]

theorem size_le_of_growth (h : Growth env s ts s') : s.tree.size ≤ s'.tree.size :=
  h.size ▸ Nat.le_add_right ..

/-- New leaves stand for the tokens that they were made for. -/
theorem Growth.leavesFrom (h : Growth env s ts s') :
    (s'.tree.leavesFrom s.tree.size).map (·.2.toToken) = ts := by
  induction h with
  | done => rw [leavesFrom_size, List.map_nil]
  | @leaf ts s' t i hg hi element feature ih =>
    have hsown := sown_createLeaf env s' t i element feature
    rw [leavesFrom_append (size_le_of_growth hg) hsown.size hsown.leaf?, List.map_append, ih,
      leavesFrom_createLeaf, List.map_singleton, toToken_eq hi]
  | rest _ hs ih => rw [leavesFrom_congr hs.nodes.size hs.nodes.leaf?, ih]

/-- New leaves are the last children of the open composite. -/
theorem Growth.children (h : Growth env s ts s') (hl : Linked s) (x : NodeId) :
    s'.tree.children x = s.tree.children x ++
      if x = s.current then (s'.tree.leavesFrom s.tree.size).map (·.1) else [] := by
  simp only [← Tree.children_shape]
  induction h with
  | done => simp [leavesFrom_size]
  | @leaf ts s' t i hg hi element feature ih =>
    have hsown := sown_createLeaf env s' t i element feature
    rw [shape_createLeaf env s' t i element feature (hg.linked hl), Shape.children_append,
      hg.current, leavesFrom_append (size_le_of_growth hg) hsown.size hsown.leaf?,
      leavesFrom_createLeaf, List.map_append]
    split_ifs with hx
    · rw [← hx, ih, if_pos hx, List.append_assoc]
      rfl
    · rw [ih, if_neg hx]
  | rest _ hs ih => rw [hs.nodes.shape, ih, leavesFrom_congr hs.nodes.size hs.nodes.leaf?]

/-- Operations that are tidy make leaves for the next tokens of the stream. -/
theorem slice_newLeaves (hl : Linked s) (hc : env.stream.Contract) (ht : op.IsTidy env s)
    (hs : s.step env op = .ok (answer, s')) : InOrder env.stream s s'
      ((⟨s, op, answer, s'⟩ : Transition σ γ).newLeaves.map (·.2.toToken)) := by
  have hnone (hleaf : ∀ x, (s'.tree.node x).leaf? = (s.tree.node x).leaf?)
      (hlast : s'.lastToken = s.lastToken) : InOrder env.stream s s'
      ((⟨s, op, answer, s'⟩ : Transition σ γ).newLeaves.map (·.2.toToken)) := by
    rw [Transition.newLeaves, leavesFrom_eq_nil hleaf]
    exact inOrder_of_lastToken hlast
  cases step_change hl hs with
  | enter => exact hnone (sameButLookahead_enterRule s).leaf? rfl
  | opened element => exact hnone (noted_newComposite env s element).leaves rfl
  | closed => exact hnone (noted_afterRuleCall hl).leaves (lastToken_afterRuleCall env s)
  | @wrapped action value s₁ _ h h' =>
    refine hnone (fun x => ?_) (h'.lastToken.trans h.lastToken)
    rw [h'.nodes.leaf?, leaf?_wrapCurrent, h.nodes.leaf?]
  | grown _ hg ho =>
    rw [Transition.newLeaves, hg.leavesFrom]
    exact ho hc ht

end NewLeaves

/-! ## Taking from the slot -/

section Slot

variable {stream : TokenStream} {slot : Option SyntaxError} {ls : List (NodeId × Leaf)}

/-- The first visible leaf takes the message. -/
theorem filter_isSlot_leavesDeliveries :
    (leavesDeliveries stream slot ls).filter (·.origin.isSlot) =
      match slot, ls.find? fun p => !p.2.isHidden with
      | some e, some p => [⟨p.1, e, .waiting⟩]
      | _, _ => [] := by
  induction ls generalizing slot with
  | nil => cases slot <;> rfl
  | cons p ls ih =>
    rw [leavesDeliveries, List.filter_append, ih, List.find?_cons, leafDeliveries, taken, left,
      List.filter_append]
    cases slot <;> cases p.2.isHidden <;> cases lexerError? stream p.2 <;>
      cases (ls.find? fun p => !p.2.isHidden) <;> rfl

theorem foldl_left : ls.foldl (fun slot p => left slot p.2) slot =
    if (ls.find? fun p => !p.2.isHidden).isSome then none else slot := by
  induction ls generalizing slot with
  | nil => rfl
  | cons p ls ih =>
    rw [List.foldl_cons, ih, List.find?_cons, left]
    cases p.2.isHidden with
    | false => simp
    | true => rfl

end Slot

/-! ## Messages and leaves -/

/-- The operations of a history that put a message into the slot. -/
def posts (env : Setting σ γ) (ts : List (Transition σ γ)) : List (Transition σ γ) :=
  ts.filter fun tr => (tr.posted? env).isSome

/-- The message that an operation put into the slot was taken by the leaf at the frontier. -/
def Taken (env : Setting σ γ) (s : Session σ γ) (tr : Transition σ γ) (d : Delivery) : Prop :=
  tr.message? env = some d.error ∧ ∃ l, (s.tree.node d.node).leaf? = some l ∧
    env.stream.token? (tr.before.frontier env) = some l.toToken

/-- Every message was taken by the leaf at the frontier or waits for it, with the frontier where it
was. -/
structure Paired (env : Setting σ γ) (slot : Option SyntaxError) (s : Session σ γ)
    (trs : List (Transition σ γ)) (ds : List Delivery) : Prop where
  /-- The last message may still be in the slot. -/
  pairs : ∃ taken waiting, trs = taken ++ Option.toList waiting ∧
    List.Forall₂ (Taken env s) taken ds ∧ waiting.map (·.message? env) = slot.map some ∧
    ∀ tr ∈ waiting, tr.before.frontier env = s.frontier env
  /-- No leaf is made for a token past the end. -/
  bound : s.nextToken ≤ env.stream.size

section Paired

variable {env : Setting σ γ} {slot : Option SyntaxError} {s s' s₀ : Session σ γ} {op : Operation}
  {answer : op.Answer} {tr : Transition σ γ} {trs ts : List (Transition σ γ)} {ds : List Delivery}

theorem Taken.of_leaf? {d : Delivery} (h : Taken env s tr d)
    (hleaf : ∀ x, s.tree.Contains x → (s'.tree.node x).leaf? = (s.tree.node x).leaf?) :
    Taken env s' tr d := by
  obtain ⟨hm, l, hl, ht⟩ := h
  refine ⟨hm, l, (hleaf _ ?_).trans hl, ht⟩
  by_contra hn
  rw [Tree.node_of_not_contains hn] at hl
  cases hl

theorem posts_append (env : Setting σ γ) (ts : List (Transition σ γ)) (tr : Transition σ γ) :
    posts env (ts ++ [tr]) = posts env ts ++ if (tr.posted? env).isSome then [tr] else [] := by
  rw [posts, List.filter_append, ← posts, List.filter_singleton, cond_eq_ite]

/-- A message is put into the slot where none is. -/
theorem Paired.post (h : Paired env tr.before.pending tr.before trs ds) :
    Paired env (tr.slot env) tr.before
      (trs ++ if (tr.posted? env).isSome then [tr] else []) ds := by
  obtain ⟨⟨taken, waiting, rfl, htaken, hslot, hfront⟩, hb⟩ := h
  have hposted : (tr.posted? env).isSome → tr.before.pending = none := by
    rw [Transition.posted?]
    split_ifs with hp
    · intro h; cases h
    · exact fun _ => Option.not_isSome_iff_eq_none.mp hp
  split_ifs with hp
  · rw [hposted hp, Option.map_none, Option.map_eq_none_iff] at hslot
    subst hslot
    refine ⟨⟨taken, some tr, by simp, htaken, ?_, ?_⟩, hb⟩
    · obtain ⟨e, he⟩ := Option.isSome_iff_exists.mp hp
      rw [Transition.slot, hposted hp, Option.none_or, Option.map_some, Transition.message?, he]
      rfl
    · intro _ h
      rw [Option.mem_some.mp h]
  · refine ⟨⟨taken, waiting, by simp, htaken, ?_, hfront⟩, hb⟩
    rw [hslot, Transition.slot, Transition.message?, Option.not_isSome_iff_eq_none.mp hp,
      Option.map_none, Option.or_none]

/-- The first visible of the new leaves is the one at the frontier; if there is none, the frontier
stays. -/
theorem Paired.take (h : Paired env (tr.slot env) tr.before trs ds)
    (ho : InOrder env.stream tr.before tr.after (tr.newLeaves.map (·.2.toToken)))
    (hleaf : ∀ x, tr.before.tree.Contains x →
      (tr.after.tree.node x).leaf? = (tr.before.tree.node x).leaf?) :
    Paired env (tr.rest env) tr.after trs
      (ds ++
        (leavesDeliveries env.stream (tr.slot env) tr.newLeaves).filter (·.origin.isSlot)) := by
  obtain ⟨⟨taken, waiting, rfl, htaken, hwaiting, hfront⟩, hb⟩ := h
  have hb' := ho.bound hb
  have htaken' : List.Forall₂ (Taken env tr.after) taken ds :=
    htaken.imp fun _ _ h => h.of_leaf? hleaf
  have hfind := TokenStream.find?_slice ho.le hb'
  have hhidden : ((fun t => !t.isHidden) ∘ fun p : NodeId × Leaf => p.2.toToken) =
      fun p => !p.2.isHidden := by
    funext p
    show (!decide ((if p.2.isHidden then Channel.hidden else .visible) = .hidden)) = !p.2.isHidden
    cases p.2.isHidden <;> rfl
  rw [← ho.tokens, List.find?_map, hhidden] at hfind
  rw [filter_isSlot_leavesDeliveries, Transition.rest, foldl_left]
  cases hls : tr.newLeaves.find? fun p => !p.2.isHidden with
  | none =>
    rw [hls] at hfind
    refine ⟨⟨taken, waiting, rfl, ?_, hwaiting, fun w hw => (hfront w hw).trans hfind⟩, hb'⟩
    cases tr.slot env <;> simpa using htaken'
  | some p =>
    rw [hls] at hfind
    obtain ⟨-, -, hp⟩ := mem_leavesFrom.mp (List.mem_of_find?_eq_some hls)
    cases hslot : tr.slot env with
    | none =>
      rw [hslot, Option.map_none, Option.map_eq_none_iff] at hwaiting
      subst hwaiting
      exact ⟨⟨taken, none, rfl, by simpa using htaken', rfl, by simp⟩, hb'⟩
    | some e =>
      rw [hslot, Option.map_some, Option.map_eq_some_iff] at hwaiting
      obtain ⟨w, rfl, hw⟩ := hwaiting
      refine ⟨⟨taken ++ [w], none, by simp, ?_, by simp, by simp⟩, hb'⟩
      refine List.rel_append htaken' (.cons ⟨hw, p.2, hp, ?_⟩ .nil)
      rw [hfront w rfl]
      exact hfind

/-- What was in the slot was given to leaves, and in the end what was left is swept out. -/
theorem filter_isSlot_concat (env : Setting σ γ) (ts : List (Transition σ γ))
    (tr : Transition σ γ) : (deliveries env (ts ++ [tr])).filter (·.origin.isSlot) =
      (deliveries env ts ++ leavesDeliveries env.stream (tr.slot env) tr.newLeaves).filter
        (·.origin.isSlot) ++ (tr.sweep? env).toList := by
  rw [deliveries, List.flatMap_append, List.flatMap_singleton, List.filter_append,
    filter_isSlot_deliveries, ← List.append_assoc, ← List.filter_append]
  rfl

theorem paired_start (env : Setting σ γ) (factory : σ) (groups : γ) :
    Paired env none (start env factory groups) [] [] :=
  ⟨⟨[], none, rfl, .nil, rfl, by simp⟩, Nat.zero_le _⟩

/-- One more operation, before what is left is swept out. -/
theorem Paired.step (h : Paired env s.pending s (posts env ts) ((deliveries env ts).filter
      (·.origin.isSlot))) (hl : Linked s) (hc : env.stream.Contract) (ht : op.IsTidy env s)
    (hs : s.step env op = .ok (answer, s')) :
    Paired env ((⟨s, op, answer, s'⟩ : Transition σ γ).rest env) s'
      (posts env (ts ++ [⟨s, op, answer, s'⟩]))
      ((deliveries env ts ++ leavesDeliveries env.stream
        ((⟨s, op, answer, s'⟩ : Transition σ γ).slot env)
        (⟨s, op, answer, s'⟩ : Transition σ γ).newLeaves).filter (·.origin.isSlot)) := by
  rw [posts_append, List.filter_append]
  have hp : Paired env ((⟨s, op, answer, s'⟩ : Transition σ γ).slot env) s _ _ := Paired.post h
  exact hp.take (slice_newLeaves hl hc ht hs) (delivers_of_step hl hs).leaf?

/-- A run that makes its leaves in order, and sweeps nothing, keeps messages and leaves paired. -/
theorem paired_of_reaches {factory : σ} {groups : γ} (hc : env.stream.Contract)
    (h : Reaches env (start env factory groups) ts s)
    (ht : ∀ tr ∈ ts, tr.op.IsTidy env tr.before) (ha : Avoids (.command .appendAll) ts) :
    Paired env s.pending s (posts env ts) ((deliveries env ts).filter (·.origin.isSlot)) := by
  induction h with
  | start => exact paired_start env factory groups
  | @step ts s s' op answer hrun hs ih =>
    have hl := (sound_of_reaches hrun).toLinked
    have hmem : (⟨s, op, answer, s'⟩ : Transition σ γ) ∈ ts ++ [⟨s, op, answer, s'⟩] := by simp
    have hop : op ≠ .command .appendAll := ha _ hmem
    have ih := ih (fun tr h => ht tr (List.mem_append_left _ h))
      (fun tr h => ha tr (List.mem_append_left _ h))
    have hp := ih.step hl hc (ht _ hmem) hs
    rw [(delivers_of_step hl hs).pending, if_neg hop, filter_isSlot_concat, sweep?_eq_none hop,
      Option.toList_none, List.append_nil]
    exact hp

end Paired

end ParseTree
