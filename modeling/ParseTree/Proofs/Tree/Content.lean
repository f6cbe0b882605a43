import ParseTree.Proofs.Tree.Deferred
import ParseTree.Proofs.Tree.Edit

/-!
# What the nodes of a tree say

Errors, elements and lookahead leaves are attached to nodes without moving them.

## Main definitions

* `Tree.SameNodes`: the trees differ in errors, elements and lookahead leaves at most
* `Tree.SameButLookahead`: the trees differ in lookahead leaves at most

## Main results

* `isSome_error_attachError`: an attached error is there, and no other is lost
* `semantic_bind?`: a bound node carries the element
* `lookaheadLeaves_addLookaheadLeaf`, `mem_lookaheadLeaves_moveLookaheadLeaves`: the lookahead
  leaves after a change of them
-/

namespace ParseTree

namespace Tree

variable {t : Tree} {id x p : NodeId} {f : Node → Node}

/-! ## Errors and elements -/

/-- Two trees with the same nodes, up to what the nodes say of errors, elements and lookahead. -/
structure SameNodes (t t' : Tree) : Prop where
  /-- There are as many nodes. -/
  size : t'.size = t.size
  /-- They are linked in the same way. -/
  shape : t'.shape = t.shape
  /-- They stand for the same tokens. -/
  leaf? : ∀ x, (t'.node x).leaf? = (t.node x).leaf?
  /-- They are placed at the same positions. -/
  anchor : ∀ x, (t'.node x).anchor = (t.node x).anchor
  /-- They represent the same grammar elements. -/
  grammar : ∀ x, (t'.node x).grammar = (t.node x).grammar

namespace SameNodes

variable {t' t'' : Tree}

theorem refl (t : Tree) : t.SameNodes t :=
  ⟨rfl, rfl, fun _ => rfl, fun _ => rfl, fun _ => rfl⟩

theorem trans (h : t.SameNodes t') (h' : t'.SameNodes t'') : t.SameNodes t'' :=
  ⟨h'.size.trans h.size, h'.shape.trans h.shape, fun x => (h'.leaf? x).trans (h.leaf? x),
    fun x => (h'.anchor x).trans (h.anchor x), fun x => (h'.grammar x).trans (h.grammar x)⟩

theorem contains_iff (h : t.SameNodes t') (x : NodeId) : t'.Contains x ↔ t.Contains x := by
  rw [Contains, Contains, h.size]

theorem isComposite_iff (h : t.SameNodes t') (x : NodeId) : t'.IsComposite x ↔ t.IsComposite x :=
  ⟨fun hx => ⟨(h.contains_iff x).mp hx.contains, (h.leaf? x).symm.trans hx.leaf?⟩,
    fun hx => ⟨(h.contains_iff x).mpr hx.contains, (h.leaf? x).trans hx.leaf?⟩⟩

theorem parent? (h : t.SameNodes t') (x : NodeId) : t'.parent? x = t.parent? x :=
  congrFun (congrArg Shape.parent? h.shape) x

theorem children (h : t.SameNodes t') (x : NodeId) : t'.children x = t.children x :=
  congrFun (congrArg Shape.children h.shape) x

end SameNodes

theorem sameNodes_modify (hp : ∀ n, (f n).parent = n.parent)
    (hc : ∀ n, (f n).children = n.children) (hl : ∀ n, (f n).leaf? = n.leaf?)
    (ha : ∀ n, (f n).anchor = n.anchor) (hg : ∀ n, (f n).grammar = n.grammar) (t : Tree)
    (id : NodeId) : t.SameNodes (t.modify id f) :=
  ⟨size_modify .., shape_modify hp hc t id, view_modify hl t id, view_modify ha t id,
    view_modify hg t id⟩

theorem sameNodes_attachError (t : Tree) (id : NodeId) (e : SyntaxError) :
    t.SameNodes (t.attachError id e) := by
  refine sameNodes_modify ?_ ?_ ?_ ?_ ?_ t id <;> exact fun _ => rfl

theorem semantic_attachError (t : Tree) (id : NodeId) (e : SyntaxError) (x : NodeId) :
    ((t.attachError id e).node x).semantic = (t.node x).semantic := by
  refine view_modify (v := Node.semantic) ?_ t id x
  exact fun _ => rfl

theorem lookaheadLeaves_attachError (t : Tree) (id : NodeId) (e : SyntaxError) (x : NodeId) :
    (t.attachError id e).lookaheadLeaves x = t.lookaheadLeaves x := by
  refine view_modify (v := Node.lookaheadLeaves) ?_ t id x
  exact fun _ => rfl

/-- An attached error is there, and no other is lost. -/
theorem isSome_error_attachError (h : t.Contains id) (e : SyntaxError) (x : NodeId) :
    ((t.attachError id e).node x).error.isSome ↔ x = id ∨ (t.node x).error.isSome := by
  rw [attachError, node_modify]
  by_cases hx : x = id
  · rw [if_pos ⟨hx, h⟩]
    simp only [hx, true_or, iff_true]
    cases (t.node id).error <;> rfl
  · simp [hx]

section Bind

variable {t' : Tree} {e : SemanticId}

theorem bind?_eq_some (h : t.bind? id e = some t') :
    t' = t.modify id (fun n => { n with semantic := some e }) ∨
      t' = t ∧ (t.node id).semantic = some e := by
  rw [bind?] at h
  cases hs : (t.node id).semantic with
  | none =>
    rw [hs] at h
    exact Or.inl (Option.some.inj h).symm
  | some bound =>
    rw [hs] at h
    by_cases hb : bound = e
    · rw [hb]
      exact Or.inr ⟨(by simpa [hb] using h.symm), rfl⟩
    · simp [hb] at h

theorem sameNodes_bind? (h : t.bind? id e = some t') : t.SameNodes t' := by
  rcases bind?_eq_some h with rfl | ⟨rfl, -⟩
  · refine sameNodes_modify ?_ ?_ ?_ ?_ ?_ t id <;> exact fun _ => rfl
  · exact .refl t'

theorem error_bind? (h : t.bind? id e = some t') (x : NodeId) :
    (t'.node x).error = (t.node x).error := by
  rcases bind?_eq_some h with rfl | ⟨rfl, -⟩
  · refine view_modify (v := Node.error) ?_ t id x
    exact fun _ => rfl
  · rfl

theorem lookaheadLeaves_bind? (h : t.bind? id e = some t') (x : NodeId) :
    t'.lookaheadLeaves x = t.lookaheadLeaves x := by
  rcases bind?_eq_some h with rfl | ⟨rfl, -⟩
  · refine view_modify (v := Node.lookaheadLeaves) ?_ t id x
    exact fun _ => rfl
  · rfl

/-- A bound node carries the element; nothing else is bound anew. -/
theorem semantic_bind? (h : t.bind? id e = some t') (hc : t.Contains id) (x : NodeId) :
    (t'.node x).semantic = if x = id then some e else (t.node x).semantic := by
  rcases bind?_eq_some h with rfl | ⟨rfl, hs⟩
  · rw [node_modify]
    by_cases hx : x = id
    · rw [if_pos ⟨hx, hc⟩, if_pos hx]
    · rw [if_neg fun h => hx h.1, if_neg hx]
  · split_ifs with hx
    · rw [hx, hs]
    · rfl

/-- Binding a node keeps the elements that others are bound to, and its own. -/
theorem semantic_of_bind? (h : t.bind? id e = some t') {x : NodeId} {e' : SemanticId}
    (hx : (t.node x).semantic = some e') : (t'.node x).semantic = some e' := by
  rw [bind?] at h
  cases hs : (t.node id).semantic with
  | none =>
    rw [hs] at h
    obtain rfl := Option.some.inj h
    rw [node_modify, if_neg, hx]
    rintro ⟨rfl, -⟩
    simp [hs] at hx
  | some bound =>
    rw [hs] at h
    by_cases hb : bound = e
    · obtain rfl : t = t' := by simpa [hb] using h
      exact hx
    · simp [hb] at h

end Bind

/-! ## Lookahead leaves -/

/-- Two trees that differ in the lookahead leaves of their nodes only. -/
structure SameButLookahead (t t' : Tree) : Prop extends t.SameNodes t' where
  /-- The nodes carry the same errors. -/
  error : ∀ x, (t'.node x).error = (t.node x).error
  /-- They are bound to the same elements. -/
  semantic : ∀ x, (t'.node x).semantic = (t.node x).semantic

namespace SameButLookahead

variable {t' t'' : Tree}

theorem refl (t : Tree) : t.SameButLookahead t :=
  ⟨.refl t, fun _ => rfl, fun _ => rfl⟩

theorem trans (h : t.SameButLookahead t') (h' : t'.SameButLookahead t'') :
    t.SameButLookahead t'' :=
  ⟨h.toSameNodes.trans h'.toSameNodes, fun x => (h'.error x).trans (h.error x),
    fun x => (h'.semantic x).trans (h.semantic x)⟩

theorem foldl {β : Type} {g : Tree → β → Tree} (hg : ∀ t b, SameButLookahead t (g t b))
    (l : List β) (t : Tree) : t.SameButLookahead (l.foldl g t) := by
  induction l generalizing t with
  | nil => exact .refl t
  | cons b l ih => exact (hg t b).trans (ih (g t b))

end SameButLookahead

theorem sameButLookahead_modify {g : Composite → Composite} (hg : ∀ c, (g c).children = c.children)
    (ha : ∀ c, (g c).anchor = c.anchor) (t : Tree) (id : NodeId) :
    t.SameButLookahead (t.modify id (.mapComposite g)) where
  toSameNodes := sameNodes_modify (Node.parent_mapComposite g) (Node.children_mapComposite_of_eq hg)
    (Node.leaf?_mapComposite g) (Node.anchor_mapComposite ha) (Node.grammar_mapComposite g) t id
  error := view_modify (Node.error_mapComposite g) t id
  semantic := view_modify (Node.semantic_mapComposite g) t id

theorem sameButLookahead_addLookaheadLeaf (t : Tree) (composite leaf : NodeId) :
    t.SameButLookahead (t.addLookaheadLeaf composite leaf) := by
  refine sameButLookahead_modify ?_ ?_ t composite
  · intro c
    split_ifs <;> rfl
  · intro c
    split_ifs <;> rfl

theorem lookaheadLeaves_addLookaheadLeaf {composite : NodeId} (hc : t.IsComposite composite)
    (leaf x : NodeId) : (t.addLookaheadLeaf composite leaf).lookaheadLeaves x =
      if x = composite then Attribution.adjoin leaf (t.lookaheadLeaves x)
      else t.lookaheadLeaves x := by
  -- A leaf is taken only by a composite of the tree, hence the assumption.
  obtain ⟨c, hcomp⟩ := Option.isSome_iff_exists.mp ((Node.composite?_isSome_iff _).mpr hc.leaf?)
  rw [addLookaheadLeaf, lookaheadLeaves, node_modify]
  split_ifs with h h' h'
  · rw [Node.composite?_mapComposite, lookaheadLeaves, h', hcomp, Attribution.adjoin,
      Option.map_some, Option.elim_some, Option.elim_some, apply_ite Composite.lookaheadLeaves]
  · exact absurd h.1 h'
  · exact absurd ⟨h', hc.contains⟩ h
  · rfl

/-- No node lists a lookahead leaf twice. -/
def NodupLookahead (t : Tree) : Prop :=
  ∀ x, (t.lookaheadLeaves x).Nodup

/-- The tree in which composites have leaves among their lookahead leaves, pair by pair. -/
def addLookaheadLeaves (t : Tree) (pairs : List (NodeId × NodeId)) : Tree :=
  pairs.foldl (fun t p => t.addLookaheadLeaf p.1 p.2) t

section AddLookaheadLeaves

variable {composite source target y : NodeId} {pairs : List (NodeId × NodeId)}

theorem addLookaheadLeaves_map_target (target : NodeId) (leaves : List NodeId) (t : Tree) :
    t.addLookaheadLeaves (leaves.map (target, ·)) =
      leaves.foldl (fun t leaf => t.addLookaheadLeaf target leaf) t :=
  List.foldl_map ..

theorem addLookaheadLeaves_map_leaf (leaf : NodeId) (composites : List NodeId) (t : Tree) :
    t.addLookaheadLeaves (composites.map (·, leaf)) =
      composites.foldl (fun t composite => t.addLookaheadLeaf composite leaf) t :=
  List.foldl_map ..

theorem sameButLookahead_addLookaheadLeaves (t : Tree) (pairs : List (NodeId × NodeId)) :
    t.SameButLookahead (t.addLookaheadLeaves pairs) := by
  refine .foldl ?_ pairs t
  intro t p
  exact sameButLookahead_addLookaheadLeaf t p.1 p.2

/-- Only composites of the tree take leaves. -/
theorem mem_lookaheadLeaves_addLookaheadLeaf (t : Tree) (composite leaf : NodeId) :
    y ∈ (t.addLookaheadLeaf composite leaf).lookaheadLeaves x ↔
      y ∈ t.lookaheadLeaves x ∨ t.IsComposite x ∧ x = composite ∧ y = leaf := by
  by_cases hc : t.IsComposite composite
  · rw [lookaheadLeaves_addLookaheadLeaf hc]
    split_ifs with h
    · simp [Attribution.mem_adjoin, h, hc]
    · simp [h]
  · have hsame : (t.addLookaheadLeaf composite leaf).lookaheadLeaves x = t.lookaheadLeaves x := by
      rw [addLookaheadLeaf, lookaheadLeaves, node_modify]
      split_ifs with h
      · have hleaf : ¬ (t.node x).composite?.isSome := by
          rw [Node.composite?_isSome_iff]
          exact fun hl => hc ⟨h.2, h.1 ▸ hl⟩
        rw [Node.composite?_mapComposite, lookaheadLeaves, Option.not_isSome_iff_eq_none.mp hleaf]
        rfl
      · rfl
    rw [hsame, or_iff_left]
    rintro ⟨hx, rfl, -⟩
    exact hc hx

theorem NodupLookahead.addLookaheadLeaf (h : t.NodupLookahead) (hc : t.IsComposite composite)
    (leaf : NodeId) : (t.addLookaheadLeaf composite leaf).NodupLookahead := by
  intro x
  rw [lookaheadLeaves_addLookaheadLeaf hc]
  split_ifs
  · exact Attribution.nodup_adjoin (h x)
  · exact h x

/-- All leaves may go to one composite. -/
theorem IsComposite.of_mem_map_target (hc : t.IsComposite target) {leaves : List NodeId} :
    ∀ p ∈ leaves.map (target, ·), t.IsComposite p.1 := by
  intro p hp
  obtain ⟨y, -, rfl⟩ := List.mem_map.mp hp
  exact hc

/-- Each composite has its old lookahead leaves and those that it was given. -/
theorem mem_lookaheadLeaves_addLookaheadLeaves_iff (t : Tree) (pairs : List (NodeId × NodeId)) :
    y ∈ (t.addLookaheadLeaves pairs).lookaheadLeaves x ↔
      y ∈ t.lookaheadLeaves x ∨ t.IsComposite x ∧ (x, y) ∈ pairs := by
  induction pairs generalizing t with
  | nil => simp [addLookaheadLeaves]
  | cons p pairs ih =>
    have hs := (sameButLookahead_addLookaheadLeaf t p.1 p.2).toSameNodes
    rw [addLookaheadLeaves, List.foldl_cons, ← addLookaheadLeaves, ih, hs.isComposite_iff,
      mem_lookaheadLeaves_addLookaheadLeaf, List.mem_cons, or_assoc, ← and_or_left, Prod.ext_iff]

theorem mem_lookaheadLeaves_addLookaheadLeaves (hc : ∀ p ∈ pairs, t.IsComposite p.1) :
    y ∈ (t.addLookaheadLeaves pairs).lookaheadLeaves x ↔
      y ∈ t.lookaheadLeaves x ∨ (x, y) ∈ pairs := by
  rw [mem_lookaheadLeaves_addLookaheadLeaves_iff, and_iff_right_of_imp (hc (x, y))]

theorem NodupLookahead.addLookaheadLeaves (h : t.NodupLookahead)
    (hc : ∀ p ∈ pairs, t.IsComposite p.1) : (t.addLookaheadLeaves pairs).NodupLookahead := by
  induction pairs generalizing t with
  | nil => exact h
  | cons p pairs ih =>
    have hs := (sameButLookahead_addLookaheadLeaf t p.1 p.2).toSameNodes
    apply ih (h.addLookaheadLeaf (hc p List.mem_cons_self) p.2)
    intro q hq
    exact (hs.isComposite_iff q.1).mpr (hc q (List.mem_cons_of_mem _ hq))

/-- The tree in which a node has no lookahead leaves. -/
def clearLookahead (t : Tree) (id : NodeId) : Tree :=
  t.modify id (.mapComposite fun c => { c with lookaheadLeaves := [] })

theorem moveLookaheadLeaves_eq (t : Tree) (source target : NodeId) :
    t.moveLookaheadLeaves source target =
      (t.clearLookahead source).addLookaheadLeaves
        ((t.lookaheadLeaves source).map (target, ·)) := by
  rw [addLookaheadLeaves_map_target]
  rfl

theorem sameButLookahead_clearLookahead (t : Tree) (id : NodeId) :
    t.SameButLookahead (t.clearLookahead id) :=
  sameButLookahead_modify (g := fun c => { c with lookaheadLeaves := [] }) (fun _ => rfl)
    (fun _ => rfl) t id

theorem sameButLookahead_moveLookaheadLeaves (t : Tree) (source target : NodeId) :
    t.SameButLookahead (t.moveLookaheadLeaves source target) := by
  rw [moveLookaheadLeaves_eq]
  apply (sameButLookahead_clearLookahead t source).trans
  exact sameButLookahead_addLookaheadLeaves _ _

theorem lookaheadLeaves_clearLookahead (t : Tree) (id x : NodeId) :
    (t.clearLookahead id).lookaheadLeaves x = if x = id then [] else t.lookaheadLeaves x := by
  rw [clearLookahead, lookaheadLeaves, node_modify]
  by_cases hx : x = id
  · rw [if_pos hx]
    split_ifs with h
    · rw [Node.composite?_mapComposite]
      cases (t.node x).composite? <;> rfl
    · rw [node_of_not_contains fun hc => h ⟨hx, hx ▸ hc⟩]
      rfl
  · rw [if_neg hx, if_neg fun h => hx h.1]
    rfl

theorem mem_lookaheadLeaves_moveLookaheadLeaves (hc : t.IsComposite target) :
    y ∈ (t.moveLookaheadLeaves source target).lookaheadLeaves x ↔
      x ≠ source ∧ y ∈ t.lookaheadLeaves x ∨ x = target ∧ y ∈ t.lookaheadLeaves source := by
  have hs := (sameButLookahead_clearLookahead t source).toSameNodes
  rw [moveLookaheadLeaves_eq, mem_lookaheadLeaves_addLookaheadLeaves,
    lookaheadLeaves_clearLookahead]
  · by_cases hx : x = source
    · simp [hx, eq_comm, and_comm]
    · simp [hx, eq_comm, and_comm]
  · exact ((hs.isComposite_iff target).mpr hc).of_mem_map_target

theorem NodupLookahead.moveLookaheadLeaves (h : t.NodupLookahead) (hc : t.IsComposite target) :
    (t.moveLookaheadLeaves source target).NodupLookahead := by
  have hs := (sameButLookahead_clearLookahead t source).toSameNodes
  rw [moveLookaheadLeaves_eq]
  refine NodupLookahead.addLookaheadLeaves ?_ ?_
  · intro x
    rw [lookaheadLeaves_clearLookahead]
    split_ifs
    · exact List.nodup_nil
    · exact h x
  · exact ((hs.isComposite_iff target).mpr hc).of_mem_map_target

end AddLookaheadLeaves

end Tree

namespace Attribution

theorem sameButLookahead_claim (composite : NodeId) (s : Attribution × Tree) (token : ℕ) :
    s.2.SameButLookahead (claim composite s token).2 := by
  rw [claim]
  split
  · exact Tree.sameButLookahead_addLookaheadLeaf ..
  · exact .refl _

theorem sameButLookahead_foldl_claim (composite : NodeId) (s : Attribution × Tree) (l : List ℕ) :
    s.2.SameButLookahead (l.foldl (claim composite) s).2 := by
  induction l generalizing s with
  | nil => exact .refl _
  | cons token l ih => exact (sameButLookahead_claim composite s token).trans (ih _)

theorem sameButLookahead_claimAll (a : Attribution) (t : Tree) (composite : NodeId)
    (tokens : List Token) : t.SameButLookahead (a.claimAll t composite tokens).2 :=
  sameButLookahead_foldl_claim composite (a, t) _

end Attribution

end ParseTree
