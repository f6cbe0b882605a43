import ParseTree.Proofs.Tree.Merge

/-!
# Trees and the nodes merged away

However composites are opened, closed, wrapped and merged, the nodes that were merged away stay
apart, and all others form one tree. An open composite keeps the root from being merged: nothing
that lies above both of them has a node above it.

## Main definitions

* `Intact`: a tree whose remaining nodes belong together, seen from its open composite

## Main results

* `Intact.append`, `Intact.interpose`, `Intact.contract`: the edits keep a tree intact
* `Intact.below_root`: if nothing is above the root, everything that remains is below it
-/

namespace ParseTree

open ParseTree.Tree

/-- The nodes that were merged away have no relatives. All others form one tree, with the root of
the tree and the open composite among them. -/
structure Intact (A : NodeId → Prop) (t : Tree) (c : NodeId) : Prop where
  /-- The tree has a root. -/
  contains_root : t.Contains root
  /-- The root was not merged away. -/
  root : ¬ A root
  /-- Nor was the open composite. -/
  current : ¬ A c
  /-- A node that was merged away is left without relatives. -/
  absorbed : ∀ x, A x → t.Contains x ∧ t.shape.Isolated x
  /-- Of the others, only one has nothing above. -/
  top : ∀ x y, t.Contains x → t.Contains y → ¬ A x → ¬ A y → t.parent? x = none →
    t.parent? y = none → x = y
  /-- What lies above the root and the open composite has nothing above. -/
  above : ∀ x, t.shape.Below c x → t.shape.Below Tree.root x → t.parent? x = none

namespace Intact

variable {A : NodeId → Prop} {t t' : Tree} {c p x child : NodeId}

theorem not_absorbed_of_parent? (h : Intact A t c) (hx : t.parent? x = some p) : ¬ A x := by
  intro ha
  exact absurd ((h.absorbed x ha).2.parent.symm.trans hx) (by simp)

theorem not_absorbed_of_mem_children (h : Intact A t c) (hx : x ∈ t.children p) : ¬ A p := by
  intro ha
  have := (h.absorbed p ha).2.children
  rw [children_shape] at this
  rw [this] at hx
  exact absurd hx List.not_mem_nil

/-- An intact tree only depends on the links. -/
theorem sameNodes (h : Intact A t c) (hs : t.SameNodes t') : Intact A t' c where
  contains_root := (hs.contains_iff _).mpr h.contains_root
  root := h.root
  current := h.current
  absorbed x hx := ⟨(hs.contains_iff x).mpr (h.absorbed x hx).1, hs.shape ▸ (h.absorbed x hx).2⟩
  top x y hx hy hax hay hpx hpy :=
    h.top x y ((hs.contains_iff x).mp hx) ((hs.contains_iff y).mp hy) hax hay
      ((hs.parent? x).symm.trans hpx) ((hs.parent? y).symm.trans hpy)
  above x hx hr := by
    rw [hs.shape] at hx hr
    exact (hs.parent? x).trans (h.above x hx hr)

/-- The node above the open composite is opened again. -/
theorem up (h : Intact A t c) (hw : t.shape.WellFormed) (hp : t.parent? c = some p) :
    Intact A t p :=
  { h with
    current := h.not_absorbed_of_mem_children (hw.mem_of_parent? hp)
    above := fun x hx hr => h.above x (Relation.ReflTransGen.head hp hx) hr }

section Append

variable (h : Intact A t c) (hw : t.shape.WellFormed) (hc : t.IsComposite c)
  (hs : t'.shape = t.shape.append c t.nextId) (hsize : t'.size = t.size + 1)

include h hw hc hs hsize

/-- A new last child keeps a tree intact. -/
theorem append : Intact A t' c where
  contains_root := by
    rw [Contains, hsize]
    exact Nat.lt_succ_of_lt h.contains_root
  root := h.root
  current := h.current
  absorbed x hx := by
    obtain ⟨hxc, hxi⟩ := h.absorbed x hx
    have hxn := ne_nextId_of_contains hxc
    have hxc' : x ≠ c := fun e => h.current (e ▸ hx)
    refine ⟨?_, ?_, ?_⟩
    · rw [Contains, hsize]
      exact Nat.lt_succ_of_lt hxc
    · rw [hs, Shape.parent?_append, if_neg hxn]
      exact hxi.parent
    · rw [hs, Shape.children_append, if_neg hxc']
      exact hxi.children
  top x y hx hy hax hay hpx hpy := by
    have hold {z : NodeId} (hz : t'.Contains z) (hpz : t'.parent? z = none) :
        t.Contains z ∧ t.parent? z = none := by
      rw [← parent?_shape, hs, Shape.parent?_append] at hpz
      split_ifs at hpz with hzn
      exact ⟨contains_of_lt_succ (hsize ▸ hz) hzn, hpz⟩
    exact h.top x y (hold hx hpx).1 (hold hy hpy).1 hax hay (hold hx hpx).2 (hold hy hpy).2
  above x hx hr := by
    have hne := ne_nextId_of_contains hc.contains
    rw [hs, Shape.below_append_iff hw t.isolated_nextId hne] at hx
    rw [hs, Shape.below_append_iff hw t.isolated_nextId (ne_nextId_of_contains h.contains_root)]
      at hr
    have hxn : x ≠ t.nextId := by
      rintro rfl
      exact hne (hw.eq_of_below_isolated t.isolated_nextId hx)
    rw [← parent?_shape, hs, Shape.parent?_append, if_neg hxn]
    exact h.above x hx hr

/-- A new last child may be opened. -/
theorem append_new : Intact A t' t.nextId :=
  have h' := h.append hw hc hs hsize
  { h' with
    current := fun ha => t.not_contains_nextId (h.absorbed _ ha).1
    above := fun x hx hr => by
      by_cases hxn : x = t.nextId
      · have hrn := ne_nextId_of_contains h.contains_root
        rw [hs, Shape.below_append_iff hw t.isolated_nextId hrn, hxn] at hr
        exact absurd (hw.eq_of_below_isolated t.isolated_nextId hr) hrn
      · rw [hs] at hx
        exact h'.above x (hs ▸ Shape.below_append_new hx hxn) hr }

end Append

section Interpose

variable (h : Intact A t c) (hw : t.shape.WellFormed) (hc : t.Contains c)
  (hs : t'.shape = t.shape.interpose c t.nextId) (hsize : t'.size = t.size + 1)

include h hw hc hs hsize

/-- A wrapper of the open composite keeps a tree intact and may be opened. -/
theorem interpose : Intact A t' t.nextId where
  contains_root := by
    rw [Contains, hsize]
    exact Nat.lt_succ_of_lt h.contains_root
  root := h.root
  current ha := t.not_contains_nextId (h.absorbed _ ha).1
  absorbed x hx := by
    obtain ⟨hxc, hxi⟩ := h.absorbed x hx
    have hxn := ne_nextId_of_contains hxc
    have hxc' : x ≠ c := fun e => h.current (e ▸ hx)
    refine ⟨?_, ?_, ?_⟩
    · rw [Contains, hsize]
      exact Nat.lt_succ_of_lt hxc
    · rw [hs, Shape.parent?_interpose, if_neg hxn, if_neg hxc']
      exact hxi.parent
    · rw [hs, Shape.children_interpose, if_neg hxn, hxi.children, List.map_nil]
  top x y hx hy hax hay hpx hpy := by
    have hold {z : NodeId} (hz : t'.Contains z) (haz : ¬ A z) (hpz : t'.parent? z = none) :
        ∃ w, t.Contains w ∧ ¬ A w ∧ t.parent? w = none ∧ w = (if z = t.nextId then c else z) ∧
          (w = c → z = t.nextId) := by
      rw [← parent?_shape, hs, Shape.parent?_interpose] at hpz
      split_ifs at hpz with hzn hzc
      · exact ⟨c, hc, h.current, hpz, by rw [if_pos hzn], fun _ => hzn⟩
      · exact ⟨z, contains_of_lt_succ (hsize ▸ hz) hzn, haz, hpz, by rw [if_neg hzn],
          fun e => absurd e hzc⟩
    obtain ⟨v, hv, hav, hpv, hvx, hvn⟩ := hold hx hax hpx
    obtain ⟨w, hw', haw, hpw, hwy, hwn⟩ := hold hy hay hpy
    have hvw := h.top v w hv hw' hav haw hpv hpw
    by_cases hxn : x = t.nextId
    · rw [if_pos hxn] at hvx
      rw [hxn, hwn (hvw.symm.trans hvx)]
    · rw [if_neg hxn] at hvx
      by_cases hyn : y = t.nextId
      · rw [if_pos hyn] at hwy
        exact absurd (hvn (hvw.trans hwy)) hxn
      · rw [if_neg hyn] at hwy
        rw [← hvx, hvw, hwy]
  above x hx hr := by
    have hne := ne_nextId_of_contains hc
    have hf := t.isolated_nextId
    rw [hs] at hx hr
    have hr := Shape.below_of_interpose hw hf (ne_nextId_of_contains h.contains_root) hr
    rw [← parent?_shape, hs, Shape.parent?_interpose]
    by_cases hxn : x = t.nextId
    · rw [if_pos hxn] at hr ⊢
      exact h.above c Relation.ReflTransGen.refl hr
    · rw [if_neg hxn] at hr ⊢
      rcases Relation.ReflTransGen.cases_head hx with rfl | ⟨q, hq, hqx⟩
      · exact absurd rfl hxn
      · rw [Shape.Up, Shape.parent?_interpose, if_pos rfl] at hq
        have hqn : q ≠ t.nextId := by
          rintro rfl
          exact hw.parent?_ne_of_isolated hf c hq
        have hbelow := Shape.below_of_interpose hw hf hqn hqx
        rw [if_neg hxn] at hbelow
        have hxc : x ≠ c := by
          rintro rfl
          exact hw.not_below_of_parent? hq hbelow
        rw [if_neg hxc]
        exact h.above x (Relation.ReflTransGen.head hq hbelow) hr

end Interpose

section Contract

variable (h : Intact A t c) (hw : t.shape.WellFormed) (hch : t.children c = [child])
  (hs : t'.shape = t.shape.contract c child) (hsize : t'.size = t.size)
  (hp : t.parent? c = some p)

include h hw hch hs hsize hp

/-- Merging the open composite with its only child keeps a tree intact. -/
theorem contract : Intact (fun x => A x ∨ x = child) t' p := by
  have hchild : t.shape.parent? child = some c := hw.parent?_of_mem (by simp [hch])
  have hne := hw.ne_of_parent? hchild
  have hpc : p ≠ child := by
    rintro rfl
    exact hw.not_below_of_parent? hp (Shape.below_of_parent? hchild)
  have hroot : Tree.root ≠ child := by
    intro e
    have := h.above c Relation.ReflTransGen.refl (e ▸ Shape.below_of_parent? hchild)
    exact absurd (hp.symm.trans this) (by simp)
  have hcontains (x : NodeId) : t'.Contains x ↔ t.Contains x := by rw [Contains, Contains, hsize]
  have hparent (x : NodeId) : t'.parent? x =
      if x = child then none else if x ∈ t.children child then some c else t.parent? x := by
    rw [← parent?_shape, hs, Shape.parent?_contract]
    rfl
  refine ⟨?_, ?_, ?_, ?_, ?_, ?_⟩
  · exact (hcontains _).mpr h.contains_root
  · exact fun ha => ha.elim h.root hroot
  · exact fun ha => ha.elim (h.not_absorbed_of_mem_children (hw.mem_of_parent? hp)) hpc
  · rintro x (hx | rfl)
    · obtain ⟨hxc, hxi⟩ := h.absorbed x hx
      have hxne : x ≠ c := fun e => h.current (e ▸ hx)
      refine ⟨(hcontains x).mpr hxc, ?_, ?_⟩
      · rw [parent?_shape, hparent]
        split_ifs with _ hmem
        · rfl
        · exact absurd (hxi.parent.symm.trans (hw.parent?_of_mem hmem)) (by simp)
        · exact hxi.parent
      · rw [hs, Shape.children_contract, if_neg hxne, hxi.children]
        exact ite_self _
    · exact ⟨(hcontains x).mpr (contains_of_parent? hchild), hs ▸ Shape.isolated_contract hne⟩
  · intro x y hx hy hax hay hpx hpy
    have hold {z : NodeId} (haz : ¬ (A z ∨ z = child)) (hpz : t'.parent? z = none) :
        t.parent? z = none := by
      rw [hparent, if_neg fun e => haz (Or.inr e)] at hpz
      split_ifs at hpz
      exact hpz
    exact h.top x y ((hcontains x).mp hx) ((hcontains y).mp hy) (fun ha => hax (Or.inl ha))
      (fun ha => hay (Or.inl ha)) (hold hax hpx) (hold hay hpy)
  · intro x hx hr
    rw [hs] at hx hr
    have hx := Shape.below_of_contract hw hch hx
    have hr := Shape.below_of_contract hw hch hr
    have hold := h.above x (Relation.ReflTransGen.head hp hx) hr
    rw [hparent]
    split_ifs with _ hmem
    · rfl
    · exact absurd (hold.symm.trans (hw.parent?_of_mem hmem)) (by simp)
    · exact hold

end Contract

/-- If nothing is above the root, everything that was not merged away lies below it. -/
theorem below_root (h : Intact A t c) (hw : t.shape.WellFormed) (hr : t.parent? Tree.root = none)
    (hx : t.Contains x) (ha : ¬ A x) : t.shape.Below x Tree.root := by
  obtain ⟨rank, hrank⟩ := hw.ranked
  -- The way up from a node ends, and only the root has nothing above it.
  induction hn : rank x using Nat.strongRecOn generalizing x with
  | ind n ih =>
    cases hp : t.parent? x with
    | none =>
      rw [h.top x Tree.root hx h.contains_root ha h.root hp hr]
      exact Relation.ReflTransGen.refl
    | some p =>
      have hmem := hw.mem_of_parent? hp
      have hlt : rank p < n := hn ▸ hrank p x hp
      exact Relation.ReflTransGen.head hp
        (ih _ hlt (contains_of_mem_children hmem) (h.not_absorbed_of_mem_children hmem) rfl)

end Intact

end ParseTree
