import Mathlib.Data.List.Chain
import ParseTree.Proofs.Tree.Chains
import ParseTree.Proofs.Tree.Intact

/-!
# Editing a tree and a contracted one

A tree and the same tree with chains contracted stay so if nodes outside the longer chains are
edited in both of them, and if one more composite is merged in the second.

## Main results

* `Contracts.edit`: what is done to both trees outside the longer chains
* `Contracts.append`, `Contracts.wrap`, `Contracts.bind?`, `Contracts.relabel`: edits of that kind
* `Contracts.attachError`: an error may go to any node of a chain
* `Contracts.absorb`: one more merge joins two chains
* `Contracts.violation?`: the check finds the same in both trees
-/

namespace ParseTree

namespace Node.Agrees

variable {n m : Node}

/-- The same change of the children keeps what nodes agree on. -/
theorem mapChildren (h : n.Agrees m) (g : List NodeId → List NodeId) :
    (n.mapComposite fun c => { c with children := g c.children }).Agrees
      (m.mapComposite fun c => { c with children := g c.children }) := by
  have hcomposite : n.composite?.isSome = m.composite?.isSome := by
    rw [Bool.eq_iff_iff, composite?_isSome_iff, composite?_isSome_iff, h.leaf?]
  have hchildren := h.children
  rw [Node.children, Node.children] at hchildren
  refine ⟨?_, ?_, ?_, ?_, ?_, ?_⟩
  · rw [leaf?_mapComposite, leaf?_mapComposite, h.leaf?]
  · rw [leaf?_mapComposite, error_mapComposite, error_mapComposite]
    exact h.error
  · rw [children_mapComposite, children_mapComposite]
    cases hn : n.composite? <;> cases hm : m.composite? <;> simp_all
  · rw [grammar_mapComposite, grammar_mapComposite, h.grammar]
  · rw [semantic_mapComposite, semantic_mapComposite, h.semantic]
  · have hl (k : Node) :
        (k.mapComposite fun c => { c with children := g c.children }).lookaheadLeaves =
          k.lookaheadLeaves :=
      lookaheadLeaves_mapComposite (f := fun c => { c with children := g c.children })
        (fun _ => rfl) k
    rw [hl, hl]
    exact h.lookahead

end Node.Agrees

namespace Tree.Contracts

variable {h : Chains} {t u t' u' : Tree} {id child c p x y : NodeId}

/-- Nodes with chains of their own are in no longer chain. -/
theorem not_of_mem_chain {P : NodeId → Prop} (hP : ∀ x, P x → h.chain x = [x]) (hx : ¬ P x)
    (hcx : c ∈ h.chain x) : ¬ P c := by
  intro hPc
  exact hx (h.eq_of_mem_chain hcx (hP c hPc) ▸ hPc)

section Edit

variable (hc : Contracts h t u)

include hc

/-- What is done to both trees outside the longer chains keeps the chains. -/
theorem edit {P : NodeId → Prop} (hsize : t'.size = u'.size) (hle : u.size ≤ u'.size)
    (hP : ∀ x, P x → h.chain x = [x]) (hin : ∀ x, P x → (t'.node x).Agrees (u'.node x))
    (ht : ∀ x, ¬ P x → (t.node x).Agrees (t'.node x))
    (hu : ∀ x, ¬ P x → (u.node x).Agrees (u'.node x))
    (hparent : ∀ x, t'.parent? x = t.parent? x ∧ u'.parent? x = u.parent? x ∨
      h.head x = x ∧ t'.parent? x = u'.parent? x ∧ ∀ p, u'.parent? x = some p → h.head p = p) :
    Contracts h t' u' where
  -- Where `P` holds a chain is one node, the same in both trees; elsewhere nothing was done.
  size := hsize
  leaf? x := by
    by_cases hx : P x
    · exact (hin x hx).leaf?
    · rw [← (ht x hx).leaf?, ← (hu x hx).leaf?, hc.leaf?]
  error x hleaf := by
    by_cases hx : P x
    · exact (hin x hx).error hleaf
    · rw [← (ht x hx).leaf?] at hleaf
      rw [← (ht x hx).error hleaf, ← (hu x hx).error (hc.leaf? x ▸ hleaf), hc.error x hleaf]
  outside x hx := hc.outside x fun hcx => hx (lt_of_lt_of_le hcx hle)
  links x := by
    by_cases hx : P x
    · rw [hP x hx]
      exact .singleton x
    · refine (hc.links x).imp_of_mem_imp ?_
      rintro p c hp hcx ⟨hchildren, hleaf⟩
      rw [← (hu c (not_of_mem_chain hP hx hcx)).leaf?]
      exact ⟨(hu p (not_of_mem_chain hP hx hp)).children.symm.trans hchildren, hleaf⟩
  parent? x := by
    rcases hparent x with ⟨ht', hu'⟩ | ⟨hx, htu, hp⟩
    · rw [ht', hu', hc.parent?]
    · rw [if_pos hx, htu]
      cases hup : u'.parent? x with
      | none => rfl
      | some p => rw [Option.map_some, hp p hup]
  children x := by
    by_cases hx : P x
    · rw [hP x hx]
      exact (hin x hx).children
    · refine (ht x hx).children.symm.trans ((hc.children x).trans ?_)
      cases hlast : (h.chain x).getLast? with
      | none => rfl
      | some c => exact (hu c (not_of_mem_chain hP hx (List.mem_of_getLast? hlast))).children
  grammar x := by
    by_cases hx : P x
    · simpa [hP x hx] using (hin x hx).grammar
    · rw [← (ht x hx).grammar, hc.grammar, List.flatMap, List.flatMap]
      refine congrArg List.flatten (List.map_congr_left fun c hcx => ?_)
      exact (hu c (not_of_mem_chain hP hx hcx)).grammar
  semantic x e := by
    by_cases hx : P x
    · simp [hP x hx, (hin x hx).semantic]
    · rw [← (ht x hx).semantic, hc.semantic]
      refine exists_congr fun c => and_congr_right fun hcx => ?_
      rw [(hu c (not_of_mem_chain hP hx hcx)).semantic]
  lookahead x y := by
    by_cases hx : P x
    · simp only [hP x hx, List.mem_singleton, exists_eq_left]
      exact (hin x hx).lookahead y
    · refine ((ht x hx).lookahead y).symm.trans ((hc.lookahead x y).trans ?_)
      refine exists_congr fun c => and_congr_right fun hcx => ?_
      exact (hu c (not_of_mem_chain hP hx hcx)).lookahead y

/-- The node above the first node of a chain is the same if it has a chain of its own. -/
theorem parent?_eq (hx : h.head x = x) (hp : ∀ p, t.parent? x = some p → h.chain p = [p]) :
    u.parent? x = t.parent? x := by
  rw [hc.parent?, if_pos hx] at hp ⊢
  cases hup : u.parent? x with
  | none => rfl
  | some q =>
    have hq := h.mem_chain_head q
    rw [hp (h.head q) (by rw [hup]; rfl), List.mem_singleton] at hq
    rw [Option.map_some, ← hq]

theorem nextId_eq : t.nextId = u.nextId :=
  congrArg NodeId.mk hc.size

theorem chain_nextId : h.chain u.nextId = [u.nextId] :=
  hc.outside _ u.not_contains_nextId

/-- The same new child at the end of a node. -/
theorem append (hp : t.Contains p) (hs : h.chain p = [p]) (n : Node)
    (hhead : ∀ q, n.parent = some q → h.head q = q) :
    Contracts h ((t.push n).appendChild p t.nextId) ((u.push n).appendChild p u.nextId) := by
  have hpu := (hc.contains_iff p).mp hp
  have hn := hc.nextId_eq
  refine hc.edit (P := fun x => x = u.nextId ∨ x = p) ?_ ?_ ?_ ?_ ?_ ?_ ?_
  · simp [hc.size]
  · simp
  · rintro x (rfl | rfl)
    · exact hc.chain_nextId
    · exact hs
  · intro x hx
    rw [node_push_appendChild hp, node_push_appendChild hpu, hn]
    split_ifs with h₁ h₂
    · exact .refl n
    · exact (hc.agrees hs).mapChildren (· ++ [u.nextId])
    · exact absurd hx (not_or.mpr ⟨h₁, h₂⟩)
  · intro x hx
    obtain ⟨h₁, h₂⟩ := not_or.mp hx
    rw [node_push_appendChild hp, hn, if_neg h₁, if_neg h₂]
    exact .refl _
  · intro x hx
    obtain ⟨h₁, h₂⟩ := not_or.mp hx
    rw [node_push_appendChild hpu, if_neg h₁, if_neg h₂]
    exact .refl _
  · intro x
    have hparent (t : Tree) : ((t.push n).appendChild p t.nextId).parent? x =
        if x = t.nextId then n.parent else t.parent? x :=
      view_push_appendChild (v := Node.parent) (Node.parent_mapComposite _) n p x
    rw [hparent t, hparent u, hn]
    split_ifs with h₁
    · exact Or.inr ⟨Chains.head_of_single (h₁ ▸ hc.chain_nextId), rfl, hhead⟩
    · exact Or.inl ⟨rfl, rfl⟩

/-- Nodes that agree are wrapped in the same way. -/
theorem agrees_wrap (ht : t.shape.WellFormed) (hu : u.shape.WellFormed) (element : ElementId)
    (hx : x = u.nextId ∨ (t.node x).Agrees (u.node x)) :
    ((t.wrap element c).node x).Agrees ((u.wrap element c).node x) := by
  have hagrees : (t.node x).Agrees (u.node x) := by
    rcases hx with rfl | hx
    · exact hc.agrees hc.chain_nextId
    · exact hx
  refine ⟨?_, ?_, ?_, ?_, ?_, ?_⟩
  · rw [leaf?_wrap, leaf?_wrap, hagrees.leaf?]
  · rw [leaf?_wrap, error_wrap, error_wrap]
    exact hagrees.error
  · refine (children_wrap ht element x).trans (Eq.trans ?_ (children_wrap hu element x).symm)
    rw [hc.nextId_eq, show t.children x = u.children x from hagrees.children]
  · rw [grammar_wrap, grammar_wrap, hc.nextId_eq, hagrees.grammar]
  · rw [semantic_wrap, semantic_wrap, hagrees.semantic]
  · intro y
    refine (iff_of_eq (congrArg (y ∈ ·) (lookaheadLeaves_wrap x))).trans
      ((hagrees.lookahead y).trans (iff_of_eq (congrArg (y ∈ ·) (lookaheadLeaves_wrap x)).symm))

omit hc in
/-- A wrapper changes no more than itself, the wrapped node and the one above. -/
theorem agrees_wrap_of_ne (ht : t.shape.WellFormed) (element : ElementId) (hx : x ≠ t.nextId)
    (hp : t.parent? c ≠ some x) : (t.node x).Agrees ((t.wrap element c).node x) := by
  refine ⟨(leaf?_wrap x).symm, fun _ => (error_wrap x).symm, ?_, ?_, (semantic_wrap x).symm, ?_⟩
  · refine Eq.trans ?_ (children_wrap ht element x).symm
    rw [if_neg hx]
    refine ((List.map_congr_left fun d hd => if_neg ?_).trans (List.map_id _)).symm
    rintro rfl
    exact hp (ht.parent?_of_mem hd)
  · rw [grammar_wrap, if_neg hx]
  · intro y
    exact iff_of_eq (congrArg (y ∈ ·) (lookaheadLeaves_wrap x).symm)

/-- The same wrapper around a node with a chain of its own below another one. -/
theorem wrap (ht : t.shape.WellFormed) (hu : u.shape.WellFormed) (hcontains : t.Contains c)
    (hs : h.chain c = [c]) (hp : ∀ p, t.parent? c = some p → h.chain p = [p])
    (element : ElementId) : Contracts h (t.wrap element c) (u.wrap element c) := by
  have hn := hc.nextId_eq
  have hup := hc.parent?_eq (Chains.head_of_single hs) hp
  have hcu := (hc.contains_iff c).mp hcontains
  refine hc.edit (P := fun x => x = u.nextId ∨ u.parent? c = some x) ?_ ?_ ?_ ?_ ?_ ?_ ?_
  · simp [hc.size]
  · simp
  · rintro x (rfl | hx)
    · exact hc.chain_nextId
    · exact hp x (hup ▸ hx)
  · rintro x (hx | hx)
    · exact hc.agrees_wrap ht hu element (Or.inl hx)
    · exact hc.agrees_wrap ht hu element (Or.inr (hc.agrees (hp x (hup ▸ hx))))
  · intro x hx
    rw [← hn, hup] at hx
    exact agrees_wrap_of_ne ht element (not_or.mp hx).1 (not_or.mp hx).2
  · intro x hx
    exact agrees_wrap_of_ne hu element (not_or.mp hx).1 (not_or.mp hx).2
  · intro x
    rw [parent?_wrap hcontains, parent?_wrap hcu, hn, hup]
    split_ifs with h₁ h₂
    · refine Or.inr ⟨Chains.head_of_single (h₁ ▸ hc.chain_nextId), rfl, fun p hpc => ?_⟩
      exact Chains.head_of_single (hp p hpc)
    · refine Or.inr ⟨Chains.head_of_single (h₂ ▸ hs), rfl, ?_⟩
      rintro p hpc
      rw [← Option.some.inj hpc]
      exact Chains.head_of_single hc.chain_nextId
    · exact Or.inl ⟨rfl, rfl⟩

/-- Lookahead leaves may be given in both trees. -/
theorem relabel (ht : t.SameButLookahead t') (hu : u.SameButLookahead u')
    (hl : ∀ x y, y ∈ t'.lookaheadLeaves x ↔ ∃ c ∈ h.chain x, y ∈ u'.lookaheadLeaves c) :
    Contracts h t' u' where
  size := by rw [ht.size, hu.size, hc.size]
  leaf? x := by rw [ht.leaf?, hu.leaf?, hc.leaf?]
  error x := by
    rw [ht.leaf?, ht.error, hu.error]
    exact hc.error x
  outside x hx := hc.outside x fun hcx => hx ((hu.contains_iff x).mpr hcx)
  links x := by
    simp only [hu.children, hu.leaf?]
    exact hc.links x
  parent? x := by rw [ht.parent?, hu.parent?, hc.parent?]
  children x := by
    rw [ht.children, hc.children, show u'.children = u.children from funext hu.children]
  grammar x := by simp only [ht.grammar, hu.grammar, hc.grammar]
  semantic x e := by simp only [ht.semantic, hu.semantic, hc.semantic]
  lookahead := hl

/-- A node with a chain of its own can be bound in both trees or in none. -/
theorem bind? (hs : h.chain x = [x]) (e : SemanticId) :
    Option.Rel (Contracts h) (t.bind? x e) (u.bind? x e) := by
  have hagrees := hc.agrees hs
  rw [Tree.bind?, Tree.bind?, hagrees.semantic]
  cases (u.node x).semantic with
  | some bound =>
    dsimp only
    split_ifs
    · exact .some hc
    · exact .none
  | none =>
    refine .some (hc.edit (P := (· = x)) ?_ ?_ ?_ ?_ ?_ ?_ fun y => Or.inl ⟨?_, ?_⟩)
    · simp [hc.size]
    · simp
    · rintro y rfl
      exact hs
    · rintro y rfl
      simp only [node_modify, hc.contains_iff]
      split_ifs
      · exact ⟨hagrees.leaf?, hagrees.error, hagrees.children, hagrees.grammar, rfl,
          hagrees.lookahead⟩
      · exact hagrees
    · intro y hy
      rw [node_modify_of_ne hy]
      exact .refl _
    · intro y hy
      rw [node_modify_of_ne hy]
      exact .refl _
    · refine view_modify (v := Node.parent) ?_ t x y
      exact fun _ => rfl
    · refine view_modify (v := Node.parent) ?_ u x y
      exact fun _ => rfl

/-- An error may be attached to any node of a chain. -/
theorem attachError (x : NodeId) (e : SyntaxError) :
    Contracts h (t.attachError (h.head x) e) (u.attachError x e) := by
  have ht := sameNodes_attachError t (h.head x) e
  have hu := sameNodes_attachError u x e
  refine ⟨?_, ?_, ?_, ?_, ?_, ?_, ?_, ?_, ?_, ?_⟩
  · rw [ht.size, hu.size, hc.size]
  · intro y
    rw [ht.leaf?, hu.leaf?, hc.leaf?]
  · intro y hleaf
    rw [ht.leaf?] at hleaf
    have hs := hc.chain_of_leaf (hc.leaf? y ▸ hleaf)
    have hy : y = h.head x ↔ y = x := by
      constructor
      · intro hy
        have hx := h.mem_chain_head x
        rw [← hy, hs, List.mem_singleton] at hx
        exact hx.symm
      · rintro rfl
        exact (Chains.head_of_single hs).symm
    have herror := hc.error y hleaf
    by_cases hyx : y = x
    · obtain rfl := hyx
      simp only [Tree.attachError, node_modify, Chains.head_of_single hs, hc.contains_iff]
      split_ifs
      · exact congrArg (SyntaxError.mergeInto · e) herror
      · exact herror
    · rw [Tree.attachError, Tree.attachError, node_modify_of_ne hyx,
        node_modify_of_ne fun hyh => hyx (hy.mp hyh)]
      exact herror
  · intro y hy
    exact hc.outside y fun hcy => hy ((hu.contains_iff y).mpr hcy)
  · intro y
    simp only [hu.children, hu.leaf?]
    exact hc.links y
  · intro y
    rw [ht.parent?, hu.parent?, hc.parent?]
  · intro y
    rw [ht.children, hc.children, show (u.attachError x e).children = u.children from
      funext hu.children]
  · intro y
    simp only [ht.grammar, hu.grammar, hc.grammar]
  · intro y e'
    simp only [semantic_attachError, hc.semantic]
  · intro y z
    simp only [lookaheadLeaves_attachError, hc.lookahead]

end Edit

section Absorb

variable (hc : Contracts h t u) (hw : t.shape.WellFormed) (hm : t.Mergeable id child)
  (hid : h.head id = id)

include hc hw hm hid

/-- What lies above the chains after two of them were joined. -/
theorem parent?_absorb (x : NodeId) : (t.absorb id child).parent? x =
    if (h.join id child hid (hm.ne hw)).head x = x then
      (u.parent? x).map (h.join id child hid (hm.ne hw)).head
    else none := by
  have hmem : child ∈ t.children id := by simp [hm.children]
  have hchild : h.head child = child := hc.head_of_mem_children hw hmem
  have hparent := hc.parent? x
  have hiff : x ∈ t.children child ↔ t.parent? x = some child := hw.mem_children_iff child x
  rw [← parent?_shape, shape_absorb hw hm, Shape.parent?_contract, children_shape, parent?_shape,
    Chains.head_join]
  simp only [hiff]
  by_cases hxc : x = child
  · rw [if_pos hxc, hxc, if_pos hchild, if_neg (hm.ne hw).symm]
  · rw [if_neg hxc]
    by_cases hx : h.head x = x
    · rw [if_pos hx] at hparent
      rw [hx, if_neg hxc, if_pos rfl, hparent]
      cases u.parent? x with
      | none => simp
      | some q =>
        simp only [Option.map_some, Option.some.injEq, Chains.head_join]
        split_ifs <;> rfl
    · rw [if_neg hx] at hparent
      have hne : (if h.head x = child then id else h.head x) ≠ x := by
        split_ifs with hxh
        · rintro rfl
          exact hx hid
        · exact hx
      rw [if_neg hne, hparent, if_neg (by simp)]

/-- One more merge in the contracted tree joins two chains. -/
theorem absorb : Contracts (h.join id child hid (hm.ne hw)) (t.absorb id child) u := by
  have hne := hm.ne hw
  have hmem : child ∈ t.children id := by simp [hm.children]
  have hchild : h.head child = child := hc.head_of_mem_children hw hmem
  obtain ⟨m, hcm⟩ := h.exists_chain_eq_cons hchild
  refine ⟨?_, ?_, ?_, ?_, ?_, hc.parent?_absorb hw hm hid, ?_, ?_, ?_, ?_⟩
  · rw [size_absorb, hc.size]
  · intro x
    rw [leaf?_absorb hw hm, hc.leaf?]
  · intro x
    rw [leaf?_absorb hw hm, error_absorb hw hm]
    exact hc.error x
  · intro x hx
    have hxid : x ≠ id := fun e => hx (e ▸ (hc.contains_iff id).mp (hm.contains_id hw))
    have hxc : x ≠ child := fun e => hx (e ▸ (hc.contains_iff child).mp (hm.contains hw))
    rw [Chains.chain_join, if_neg hxid, if_neg hxc, hc.outside x hx]
  · intro x
    rw [Chains.chain_join]
    split_ifs
    · refine (hc.links id).append (hc.links child) ?_
      rintro p hp c hcc
      have hchildren := hc.children id
      rw [hm.children, Option.mem_def.mp hp, Option.elim_some] at hchildren
      rw [hcm, List.head?_cons, Option.mem_some_iff] at hcc
      rw [← hcc, ← hc.leaf?]
      exact ⟨hchildren.symm, hm.leaf?⟩
    · exact .nil
    · exact hc.links x
  · intro x
    rw [← children_shape, shape_absorb hw hm, Shape.children_contract, children_shape,
      Chains.chain_join]
    split_ifs
    · rw [hc.children child, hcm, List.getLast?_append, List.getLast?_cons, Option.some_or]
    · rfl
    · exact hc.children x
  · intro x
    rw [grammar_absorb hw hm, Chains.chain_join]
    split_ifs
    · rw [List.flatMap_append, hc.grammar, hc.grammar]
    · rfl
    · exact hc.grammar x
  · intro x e
    rw [semantic_absorb hw hm, Chains.chain_join]
    split_ifs
    · simp only [List.mem_append, or_and_right, exists_or, ← hc.semantic]
      cases ho : (t.node id).semantic with
      | none => simp
      | some outer =>
        rw [Option.some_or]
        refine ⟨Or.inl, fun he => he.elim (fun he => he) fun he => ?_⟩
        rw [hm.semantic outer e ho he]
    · simp
    · exact hc.semantic x e
  · intro x y
    rw [mem_lookaheadLeaves_absorb hw hm, Chains.chain_join]
    by_cases hx : x = id
    · rw [if_pos hx, hx]
      simp only [List.mem_append, or_and_right, exists_or, ← hc.lookahead]
      simp [hne.symm]
    · rw [if_neg hx]
      by_cases hxc : x = child
      · simp [hxc, hne]
      · simp [hx, hxc, hc.lookahead]

end Absorb

section WellFormed

variable (hc : Contracts h t u) (ht : t.shape.WellFormed) (hu : u.shape.WellFormed)

include hc ht hu

/-- The leaves below a node say the same. -/
theorem leavesWith (hx : t.Contains x) (hhead : h.head x = x) :
    t.leavesWith x = u.leavesWith x := by
  rw [leavesWith_eq, leavesWith_eq, hc.leaves ht hu hx hhead]
  refine List.filterMap_congr fun y _ => ?_
  rw [hc.leaf?]

/-- The check finds the same in both trees if nothing above the root was merged and every element
has its node below the root. -/
theorem violation? {source : String} {primary primary' : List NodeId} (hr : t.Contains root)
    (hroot : ∀ x, t.shape.Below root x → h.chain x = [x])
    (hp : t.parent? root = none → ∀ x ∈ primary, t.shape.Below x root)
    (hp' : u.parent? root = none → ∀ x ∈ primary', u.shape.Below x root) :
    t.violation? source primary = u.violation? source primary' := by
  have hhead := Chains.head_of_single (hroot root Relation.ReflTransGen.refl)
  have hparent := hc.parent?_eq hhead fun p hp => hroot p (Shape.below_of_parent? hp)
  rw [violation?_eq ht hr hp, violation?_eq hu ((hc.contains_iff root).mp hr) hp', hparent,
    hc.leavesWith ht hu hr hhead]

end WellFormed

end Tree.Contracts

end ParseTree
