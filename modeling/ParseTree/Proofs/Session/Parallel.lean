import ParseTree.Proofs.Session.Graft
import ParseTree.Proofs.Tree.Lookahead

/-!
# Sessions with and without merges

Two sessions go on in parallel if the one has merged some composites of the other, but none that is
open. Then they answer the same to every operation and stay in parallel.

## Main definitions

* `Tree.IsOpen`: the open composite, the root, and what is above them
* `Parallel`: the sessions differ in merged composites only

## Main results

* `Parallel.createLeaf`, `Parallel.appendAll`: leaves are made in both sessions
* `Parallel.newComposite`, `Parallel.afterRuleCall`: composites are opened and closed, with merges
  and without
-/

namespace ParseTree

open Session Relation

variable {σ γ : Type}

namespace Tree

variable {t t' : Tree} {c p x child : NodeId}

/-- The node is the open composite or the root or lies above one of them. -/
def IsOpen (t : Tree) (c x : NodeId) : Prop :=
  t.shape.Below c x ∨ t.shape.Below root x

theorem IsOpen.up (h : t.IsOpen p x) (hp : t.parent? c = some p) : t.IsOpen c x :=
  h.imp_left fun h => ReflTransGen.head hp h

section Append

variable (hw : t.shape.WellFormed) (hc : t.Contains c) (hr : t.Contains root)
  (hs : t'.shape = t.shape.append c t.nextId)

include hw hc hr hs

/-- A new child opens nothing. -/
theorem IsOpen.of_append (h : t'.IsOpen c x) : t.IsOpen c x := by
  have hf := t.isolated_nextId
  rwa [IsOpen, hs, Shape.below_append_iff hw hf (ne_nextId_of_contains hc),
    Shape.below_append_iff hw hf (ne_nextId_of_contains hr)] at h

/-- A new child may be opened. -/
theorem IsOpen.of_append_new (h : t'.IsOpen t.nextId x) : x = t.nextId ∨ t.IsOpen c x := by
  by_cases hx : x = t.nextId
  · exact Or.inl hx
  · refine Or.inr (IsOpen.of_append hw hc hr hs (h.imp_left fun hb => ?_))
    rw [hs] at hb ⊢
    exact Shape.below_append_new hb hx

end Append

/-- A wrapper of the open composite may be opened. -/
theorem IsOpen.of_interpose (hw : t.shape.WellFormed) (hr : t.Contains root)
    (hs : t'.shape = t.shape.interpose c t.nextId) (h : t'.IsOpen t.nextId x) :
    x = t.nextId ∨ t.IsOpen c x := by
  have hf := t.isolated_nextId
  by_cases hx : x = t.nextId
  · exact Or.inl hx
  · refine Or.inr (h.imp ?_ ?_)
    · intro hb
      rcases ReflTransGen.cases_head hb with rfl | ⟨q, hq, hqx⟩
      · exact absurd rfl hx
      · rw [hs, Shape.Up, Shape.parent?_interpose, if_pos rfl] at hq
        have hqn : q ≠ t.nextId := by
          rintro rfl
          exact hw.parent?_ne_of_isolated hf c hq
        rw [hs] at hqx
        have hbelow := Shape.below_of_interpose hw hf hqn hqx
        rw [if_neg hx] at hbelow
        exact ReflTransGen.head hq hbelow
    · intro hb
      rw [hs] at hb
      have hbelow := Shape.below_of_interpose hw hf (ne_nextId_of_contains hr) hb
      rwa [if_neg hx] at hbelow

/-- Neither of two composites that were merged stays open. -/
theorem IsOpen.of_contract {A : NodeId → Prop} (hw : t.shape.WellFormed) (hi : Intact A t c)
    (hch : t.children c = [child]) (hs : t'.shape = t.shape.contract c child)
    (hp : t.parent? c = some p) (h : t'.IsOpen p x) : t.IsOpen c x ∧ x ≠ c ∧ x ≠ child := by
  have hchild : t.shape.parent? child = some c := hw.parent?_of_mem (by simp [hch])
  have hopen : t.IsOpen p x := by
    refine h.imp ?_ ?_ <;>
    · intro hb
      rw [hs] at hb
      exact Shape.below_of_contract hw hch hb
  have hne : x ≠ c := by
    rintro rfl
    rcases hopen with hb | hb
    · exact hw.not_below_of_parent? hp hb
    · have := hi.above x ReflTransGen.refl hb
      rw [hp] at this
      cases this
  refine ⟨hopen.up hp, hne, ?_⟩
  rintro rfl
  rcases hopen with hb | hb
  · exact hw.not_below_of_parent? hp (hb.tail hchild)
  · have := hi.above c ReflTransGen.refl (hb.tail hchild)
    rw [hp] at this
    cases this

end Tree

/-- The first session has merged composites of the second one, but none that is open. Otherwise the
sessions are the same. -/
structure Parallel (h : Chains) (s u : Session σ γ) : Prop where
  /-- The first session has a composite open. -/
  left : Linked s
  /-- So has the second one. -/
  right : Linked u
  /-- There is a root. -/
  root : s.tree.Contains Tree.root
  /-- The tree is the other one with chains contracted. -/
  tree : s.tree.Contracts h u.tree
  /-- Nothing that is open was merged. -/
  opened : ∀ x, s.tree.IsOpen s.current x → h.chain x = [x]
  /-- Lookahead is handed out to the same chains. -/
  attribution : s.attribution.Contracts h u.attribution
  /-- The node finished last stands for that of the other session. -/
  lastNode : s.lastNode = u.lastNode.map h.head
  /-- The same elements were made. -/
  primary : s.primary.map (·.1) = u.primary.map (·.1)
  /-- Apart from what was built, the sessions are the same. -/
  rest : u.graft s = s

namespace Parallel

variable {h : Chains} {s u : Session σ γ}

theorem current (hp : Parallel h s u) : s.current = u.current :=
  (congrArg Session.current hp.rest).symm

theorem factory (hp : Parallel h s u) : s.factory = u.factory :=
  (congrArg Session.factory hp.rest).symm

theorem cursor (hp : Parallel h s u) : s.cursor = u.cursor :=
  (congrArg Session.cursor hp.rest).symm

theorem chain_current (hp : Parallel h s u) : h.chain u.current = [u.current] := by
  rw [← hp.current]
  exact hp.opened _ (Or.inl ReflTransGen.refl)

theorem head_current (hp : Parallel h s u) : h.head u.current = u.current :=
  Chains.head_of_single hp.chain_current

theorem nextId (hp : Parallel h s u) : s.tree.nextId = u.tree.nextId :=
  hp.tree.nextId_eq

/-- What nobody has built stays the same. -/
theorem of_graft {u' : Session σ γ} (hp : Parallel h s u) (hu : u'.graft u = u')
    (hc : u'.current = u.current) : Parallel h (u'.graft s) u' := by
  have hcurrent : (u'.graft s).current = s.current := hc.trans hp.current.symm
  have htree : u'.tree = u.tree := (congrArg Session.tree hu).symm
  have hattribution : u'.attribution = u.attribution := (congrArg Session.attribution hu).symm
  have hnode : u'.lastNode = u.lastNode := (congrArg Session.lastNode hu).symm
  have hprimary : u'.primary = u.primary := (congrArg Session.primary hu).symm
  -- All that differs between the sessions is what was built, and the operation left that alone.
  refine ⟨⟨hp.left.wellFormed, ?_⟩, ⟨?_, ?_⟩, hp.root, ?_, ?_, ?_, ?_, ?_, rfl⟩
  · rw [hcurrent]
    exact hp.left.current
  · rw [htree]
    exact hp.right.wellFormed
  · rw [htree, hc]
    exact hp.right.current
  · rw [htree]
    exact hp.tree
  · rw [hcurrent]
    exact hp.opened
  · rw [hattribution]
    exact hp.attribution
  · rw [hnode]
    exact hp.lastNode
  · rw [hprimary]
    exact hp.primary

/-- An operation that neither looks at what was built nor changes it. -/
theorem outer {f : Session σ γ → Session σ γ} (hp : Parallel h s u)
    (hf : ∀ s, f (u.graft s) = (f u).graft s) (hc : (f u).current = u.current) :
    Parallel h (f s) (f u) := by
  have hs := hf s
  rw [hp.rest] at hs
  rw [hs]
  exact hp.of_graft (hf u).symm hc

theorem exists_graft (hp : Parallel h s u) : ∃ b, s = u.graft b :=
  ⟨s, hp.rest.symm⟩

/-- The node finished last may be any with a chain of its own. -/
theorem withLastNode (hp : Parallel h s u) {x : NodeId} (hx : h.head x = x) :
    Parallel h { s with lastNode := some x } { u with lastNode := some x } where
  left := ⟨hp.left.wellFormed, hp.left.current⟩
  right := ⟨hp.right.wellFormed, hp.right.current⟩
  root := hp.root
  tree := hp.tree
  opened := hp.opened
  attribution := hp.attribution
  lastNode := by rw [Option.map_some, hx]
  primary := hp.primary
  rest := by
    obtain ⟨b, rfl⟩ := hp.exists_graft
    rfl

/-- The same elements may be listed. -/
theorem withPrimary (hp : Parallel h s u) {l l' : List (SemanticId × NodeId)}
    (hl : l.map (·.1) = l'.map (·.1)) :
    Parallel h { s with primary := l } { u with primary := l' } where
  left := ⟨hp.left.wellFormed, hp.left.current⟩
  right := ⟨hp.right.wellFormed, hp.right.current⟩
  root := hp.root
  tree := hp.tree
  opened := hp.opened
  attribution := hp.attribution
  lastNode := hp.lastNode
  primary := hl
  rest := by
    obtain ⟨b, rfl⟩ := hp.exists_graft
    rfl

/-! ### Leaves -/

theorem createLeaf (hp : Parallel h s u) (env : Setting σ γ) (t : Token) (i : ℕ)
    (element : Option ElementId) (feature : Option String) :
    Parallel h (s.createLeaf env t i element feature) (u.createLeaf env t i element feature) := by
  have hrest := hp.rest
  have hcurrent := hp.current
  have herror : s.leafError env t i = u.leafError env t i := by
    rw [← hrest]
    rfl
  have hleaf : (leafTree env s t i element feature).Contracts h
      (leafTree env u t i element feature) := by
    rw [leafTree, leafTree, herror, hcurrent]
    refine hp.tree.append (hcurrent ▸ hp.left.current.contains) hp.chain_current _ ?_
    rintro q hq
    rw [← Option.some.inj hq]
    exact hp.head_current
  have hlinked : Linked (u.createLeaf env t i element feature) := linked_createLeaf hp.right ..
  have hu : (leafTree env u t i element feature).shape.WellFormed := by
    rw [← (sameButLookahead_createLeaf env u t i element feature).shape]
    exact hlinked.wellFormed
  have hresolve : u.attribution.resolve (leafTree env u t i element feature) i s.tree.nextId =
      ((u.createLeaf env t i element feature).attribution,
        (u.createLeaf env t i element feature).tree) := by
    rw [hp.nextId]
    rfl
  obtain ⟨hattribution, htree⟩ :=
    Attribution.contracts_resolve hp.attribution hleaf hu i s.tree.nextId
  rw [hresolve] at hattribution htree
  refine ⟨linked_createLeaf hp.left .., hlinked, ?_, ?_, ?_, ?_, hp.lastNode, hp.primary, ?_⟩
  · rw [Tree.Contains, size_createLeaf]
    exact Nat.lt_succ_of_lt hp.root
  · exact htree
  · intro x hx
    exact hp.opened x (Tree.IsOpen.of_append hp.left.wellFormed hp.left.current.contains hp.root
      (shape_createLeaf env s t i element feature hp.left) hx)
  · exact hattribution
  · obtain ⟨b, rfl⟩ := hp.exists_graft
    rfl

theorem appendToken (hp : Parallel h s u) (env : Setting σ γ) (position : ℕ) :
    Parallel h (s.appendToken env position) (u.appendToken env position) := by
  rw [Session.appendToken, Session.appendToken]
  split
  · exact hp
  · split
    · exact hp
    · exact hp.createLeaf env ..

theorem appendRange (hp : Parallel h s u) (env : Setting σ γ) (start stop : ℕ) :
    Parallel h (s.appendRange env start stop) (u.appendRange env start stop) := by
  rw [Session.appendRange, Session.appendRange]
  generalize List.range' start (min stop env.stream.size - start) = l
  induction l generalizing s u with
  | nil => exact hp
  | cons i l ih => exact ih (hp.appendToken env i)

theorem nextToken (hp : Parallel h s u) : s.nextToken = u.nextToken := by
  rw [← hp.rest]
  rfl

/-- The last token with a leaf may be any. -/
theorem withLastToken (hp : Parallel h s u) (lastToken : Option ℕ) :
    Parallel h { s with lastToken } { u with lastToken } :=
  hp.outer (f := fun s => { s with lastToken }) (fun _ => rfl) rfl

theorem appendSkipped (hp : Parallel h s u) (env : Setting σ γ) :
    Parallel h (s.appendSkipped env) (u.appendSkipped env) := by
  rw [Session.appendSkipped, Session.appendSkipped, hp.nextToken, hp.cursor]
  split
  · exact hp
  · split_ifs
    · exact (hp.appendRange env ..).withLastToken _
    · exact hp

theorem appendRest (hp : Parallel h s u) (env : Setting σ γ) (start : ℕ) :
    Parallel h (s.appendRest env start) (u.appendRest env start) := by
  rw [Session.appendRest, Session.appendRest]
  split_ifs
  · exact (hp.appendRange env ..).withLastToken _
  · exact hp

theorem appendTrailing (hp : Parallel h s u) (env : Setting σ γ) :
    Parallel h (s.appendTrailing env) (u.appendTrailing env) := by
  rw [Session.appendTrailing, Session.appendTrailing, hp.nextToken, hp.cursor]
  split
  · exact hp
  · exact hp.appendRest env _

/-- Errors and elements may be attached in both trees. -/
theorem withTree (hp : Parallel h s u) {t t' : Tree} (hs : s.tree.SameNodes t)
    (hu : u.tree.SameNodes t') (ht : t.Contracts h t') :
    Parallel h { s with tree := t } { u with tree := t' } := by
  refine ⟨⟨hs.shape ▸ hp.left.wellFormed, (hs.isComposite_iff _).mpr hp.left.current⟩,
    ⟨hu.shape ▸ hp.right.wellFormed, (hu.isComposite_iff _).mpr hp.right.current⟩,
    (hs.contains_iff _).mpr hp.root, ht, ?_, hp.attribution, hp.lastNode, hp.primary, ?_⟩
  · intro y hy
    rw [Tree.IsOpen, hs.shape] at hy
    exact hp.opened y hy
  · obtain ⟨b, rfl⟩ := hp.exists_graft
    rfl

/-- An error may be attached to a node and to the one that it was merged into. -/
theorem attachError (hp : Parallel h s u) (x : NodeId) (e : SyntaxError) :
    Parallel h { s with tree := s.tree.attachError (h.head x) e }
      { u with tree := u.tree.attachError x e } :=
  hp.withTree (Tree.sameNodes_attachError ..) (Tree.sameNodes_attachError ..)
    (hp.tree.attachError x e)

theorem lastLeaf? (hp : Parallel h s u) :
    s.tree.lastLeaf? s.current = u.tree.lastLeaf? u.current := by
  rw [hp.current]
  exact hp.tree.lastLeaf? hp.left.wellFormed hp.right.wellFormed
    (hp.current ▸ hp.left.current.contains) hp.head_current

/-- The last leaf is no merged composite. -/
theorem head_lastLeaf (hp : Parallel h s u) :
    h.head ((u.tree.lastLeaf? u.current).getD u.current) =
      (u.tree.lastLeaf? u.current).getD u.current := by
  rw [Tree.lastLeaf?_eq hp.right.wellFormed hp.right.current.contains]
  cases hl : (u.tree.leaves u.current).getLast? with
  | none => exact hp.head_current
  | some x =>
    have hx := (List.mem_filter.mp (List.mem_of_getLast? hl)).2
    exact Chains.head_of_single (hp.tree.chain_of_leaf (Option.isSome_iff_ne_none.mp hx))

/-- The error that waits goes to the same node. -/
theorem flushPending (hp : Parallel h s u) : Parallel h s.flushPending u.flushPending := by
  have hpending : s.pending = u.pending := (congrArg Session.pending hp.rest).symm
  rw [Session.flushPending, Session.flushPending, hpending]
  split
  · exact hp
  · next error _ =>
    have hp' := (hp.attachError ((u.tree.lastLeaf? u.current).getD u.current) error).outer
      (f := fun s => { s with pending := none }) (fun _ => rfl) rfl
    have hlast : (s.tree.lastLeaf? s.current).getD s.current =
        (u.tree.lastLeaf? u.current).getD u.current := by
      rw [hp.lastLeaf?, hp.current]
    rw [hp.head_lastLeaf] at hp'
    rw [hlast]
    exact hp'

theorem appendAll (hp : Parallel h s u) (env : Setting σ γ) :
    Parallel h (s.appendAll env) (u.appendAll env) := by
  rw [Session.appendAll, Session.appendAll, hp.nextToken]
  refine flushPending ?_
  exact (hp.appendRest env u.nextToken).outer
    (f := fun s => { s with cursor := s.cursor.finish env.stream }) (fun _ => rfl) rfl

/-! ### Composites -/

/-- Handing out lookahead neither opens nor closes a composite. -/
theorem enterRule (hp : Parallel h s u) : Parallel h s.enterRule u.enterRule := by
  obtain ⟨hattribution, htree⟩ := Attribution.contracts_claimAll hp.attribution hp.tree
    hp.right.wellFormed hp.chain_current u.cursor.recorded
  have hclaim : s.attribution.claimAll s.tree u.current u.cursor.recorded =
      (s.enterRule.attribution, s.enterRule.tree) := by
    rw [← hp.current, ← hp.cursor]
    rfl
  rw [hclaim] at hattribution htree
  have hs := sameButLookahead_enterRule s
  refine ⟨linked_enterRule hp.left, linked_enterRule hp.right, (hs.contains_iff _).mpr hp.root,
    htree, ?_, hattribution, hp.lastNode, hp.primary, ?_⟩
  · intro y hy
    rw [Tree.IsOpen, hs.shape] at hy
    exact hp.opened y hy
  · obtain ⟨b, rfl⟩ := hp.exists_graft
    rfl

theorem leaveRule (hp : Parallel h s u) : Parallel h s.leaveRule u.leaveRule := by
  have hp' := (hp.withLastNode hp.head_current).outer
    (f := fun s => { s with cursor := s.cursor.forget }) (fun _ => rfl) rfl
  have hleave : s.leaveRule =
      { s with lastNode := some u.current, cursor := s.cursor.forget } := by
    rw [Session.leaveRule, hp.current]
  rw [hleave]
  exact hp'

theorem newComposite (hp : Parallel h s u) (env : Setting σ γ) (element : ElementId) :
    Parallel h (s.newComposite env element) (u.newComposite env element) := by
  have hcurrent := hp.current
  have hanchor : s.anchor env = u.anchor env := by
    rw [← hp.rest]
    rfl
  have hshape : (s.newComposite env element).tree.shape =
      s.tree.shape.append s.current s.tree.nextId := Tree.shape_addComposite hp.left.current ..
  refine ⟨linked_newComposite hp.left element, linked_newComposite hp.right element, ?_, ?_, ?_,
    hp.attribution, hp.lastNode, hp.primary, ?_⟩
  · show Tree.root.index < (s.tree.addComposite ..).size
    rw [Tree.size_addComposite]
    exact Nat.lt_succ_of_lt hp.root
  · show (s.tree.addComposite ..).Contracts h (u.tree.addComposite ..)
    rw [hp.cursor, hanchor, hcurrent]
    refine hp.tree.append (hcurrent ▸ hp.left.current.contains) hp.chain_current _ ?_
    rintro q hq
    rw [← Option.some.inj hq]
    exact hp.head_current
  · intro x hx
    rcases Tree.IsOpen.of_append_new hp.left.wellFormed hp.left.current.contains hp.root hshape hx
      with rfl | hx
    · rw [hp.nextId]
      exact hp.tree.chain_nextId
    · exact hp.opened x hx
  · have hnext := hp.nextId
    obtain ⟨b, rfl⟩ := hp.exists_graft
    exact congrArg (fun c => { (u.graft b).newComposite env element with current := c }) hnext.symm

/-- The node above the open composite is the same. -/
theorem parent? (hp : Parallel h s u) : u.tree.parent? u.current = s.tree.parent? s.current := by
  rw [hp.current]
  refine hp.tree.parent?_eq hp.head_current fun p hparent => ?_
  rw [← hp.current] at hparent
  exact hp.opened p (Or.inl (Shape.below_of_parent? hparent))

/-- A composite is closed without a merge in both sessions. -/
theorem close (hp : Parallel h s u) {p : NodeId} (hparent : s.tree.parent? s.current = some p) :
    Parallel h { s with current := p } { u with current := p } := by
  have hmem := Tree.isComposite_of_mem_children (hp.left.wellFormed.mem_of_parent? hparent)
  have hmem' := Tree.isComposite_of_mem_children
    (hp.right.wellFormed.mem_of_parent? (hp.parent?.trans hparent))
  refine ⟨⟨hp.left.wellFormed, hmem⟩, ⟨hp.right.wellFormed, hmem'⟩, hp.root, hp.tree, ?_,
    hp.attribution, hp.lastNode, hp.primary, ?_⟩
  · intro x hx
    exact hp.opened x (hx.up hparent)
  · obtain ⟨b, rfl⟩ := hp.exists_graft
    rfl

/-- A composite is closed with a merge in the first session. -/
theorem merge {A : NodeId → Prop} (hp : Parallel h s u) (hi : Intact A s.tree s.current)
    {p child : NodeId} (hparent : s.tree.parent? s.current = some p)
    (hm : s.tree.Mergeable s.current child) :
    ∃ h', Parallel h' { s.merge child with current := p } { u with current := p } := by
  have hid : h.head s.current = s.current := by
    rw [hp.current]
    exact hp.head_current
  have hw := hp.left.wellFormed
  obtain ⟨hattribution, htree⟩ := Attribution.contracts_absorb hp.attribution hp.tree hw hm hid
  have hclose := hp.close hparent
  refine ⟨h.join s.current child hid (hm.ne hw), ?_, hclose.right, ?_, htree, ?_, hattribution, ?_,
    ?_, ?_⟩
  · refine ⟨?_, (isComposite_merge hp.left hm p).mpr hclose.left.current⟩
    show (s.merge child).tree.shape.WellFormed
    rw [shape_merge hp.left hm]
    exact hw.contract hm.children
  · show (s.merge child).tree.Contains Tree.root
    exact (contains_merge _).mpr hp.root
  · intro x hx
    obtain ⟨hx, hxc, hxchild⟩ :=
      Tree.IsOpen.of_contract hw hi hm.children (shape_merge hp.left hm) hparent hx
    rw [Chains.chain_join, if_neg hxc, if_neg hxchild]
    exact hp.opened x hx
  · show s.lastNode.map (redirect child s.current) = _
    rw [hp.lastNode, Option.map_map]
    rfl
  · show (s.primary.map _).map _ = _
    rw [List.map_map, ← hp.primary]
    refine List.map_congr_left fun q _ => ?_
    simp only [Function.comp]
    split_ifs <;> rfl
  · obtain ⟨b, rfl⟩ := hp.exists_graft
    rfl

/-- A composite is closed, with a merge in the first session or without. -/
theorem afterRuleCall {A : NodeId → Prop} (hp : Parallel h s u) (env env' : Setting σ γ)
    (hi : Intact A s.tree s.current) (hoff : env'.config.compressNodes = false) :
    ∃ h', Parallel h' (s.afterRuleCall env) (u.afterRuleCall env') := by
  have hnone : u.absorbed? env' = none := by
    rw [absorbed?, hoff]
    simp
  cases hparent : s.tree.parent? s.current with
  | none =>
    rw [afterRuleCall_of_parent?_eq_none hparent,
      afterRuleCall_of_parent?_eq_none (hp.parent?.trans hparent)]
    exact ⟨h, hp⟩
  | some p =>
    rw [afterRuleCall_eq hparent, afterRuleCall_eq (hp.parent?.trans hparent), hnone]
    cases hc : s.absorbed? env with
    | none => exact ⟨h, hp.close hparent⟩
    | some child => exact hp.merge hi hparent (mergeable_of_absorbed? hc)

end Parallel

end ParseTree
