import Mathlib.Data.List.Nodup
import Mathlib.Logic.Function.Basic
import Mathlib.Logic.Relation
import ParseTree.Identifier

/-!
# Shapes of trees

A shape is what remains of a tree when the content of its nodes is forgotten: the node above each
node and the nodes directly below it. Trees grow by three changes of shape. A node is added as last
child of another, a node is inserted above another, and an only child is contracted into the node
above it. Each keeps a shape well-formed.

## Main definitions

* `Shape`: links upwards and downwards
* `Shape.WellFormed`: the links agree and no node is above itself
* `Shape.Below`: a node is another one or somewhere below it
* `Shape.append`, `Shape.interpose`, `Shape.contract`: the changes

## Main results

* `WellFormed.append`, `WellFormed.interpose`, `WellFormed.contract`: the changes keep shapes
  well-formed
* `below_append_iff`, `below_of_interpose`, `below_of_contract`: what is below what afterwards
-/

namespace ParseTree

open Relation

/-- How the nodes of a tree hang together. -/
structure Shape where
  /-- The node above. -/
  parent? : NodeId → Option NodeId
  /-- The nodes directly below, in document order. -/
  children : NodeId → List NodeId

namespace Shape

variable {s : Shape} {a b c p x y : NodeId}

/-- One step up from a node leads to another. -/
def Up (s : Shape) (c p : NodeId) : Prop :=
  s.parent? c = some p

/-- The node is another one or lies below it. -/
def Below (s : Shape) : NodeId → NodeId → Prop :=
  ReflTransGen s.Up

/-- The node has no relatives. -/
structure Isolated (s : Shape) (x : NodeId) : Prop where
  /-- Nothing is above. -/
  parent : s.parent? x = none
  /-- Nothing is below. -/
  children : s.children x = []

/-- The links up and down agree, no child is listed twice, and no node is above itself. -/
structure WellFormed (s : Shape) : Prop where
  /-- A node is listed as a child by the node above it and by no other. -/
  mem_children_iff : ∀ p c, c ∈ s.children p ↔ s.parent? c = some p
  /-- No node is listed twice. -/
  nodup : ∀ p, (s.children p).Nodup
  /-- Nodes can be ranked so that ranks increase downwards. -/
  ranked : ∃ rank : NodeId → ℕ, ∀ p c, s.parent? c = some p → rank p < rank c

theorem up_rightUnique : Relator.RightUnique s.Up := by
  intro c p q hp hq
  exact Option.some.inj (hp.symm.trans hq)

theorem below_of_parent? (h : s.parent? c = some p) : s.Below c p :=
  ReflTransGen.single h

theorem eq_of_below_of_parent?_eq_none (h : s.Below a x) (ha : s.parent? a = none) : x = a := by
  rcases ReflTransGen.cases_head h with rfl | ⟨p, hp, -⟩
  · rfl
  · exact absurd (ha.symm.trans hp) (by simp)

/-- Of two nodes above the same node, one is above the other. -/
theorem below_total (ha : s.Below x a) (hb : s.Below x b) : s.Below a b ∨ s.Below b a :=
  ReflTransGen.total_of_right_unique up_rightUnique ha hb

/-- Going up from a node leads to the node above it first. -/
theorem below_parent_of_below_of_ne (h : s.Below c a) (hp : s.parent? c = some p) (hne : a ≠ c) :
    s.Below p a := by
  rcases ReflTransGen.cases_head h with rfl | ⟨q, hq, h⟩
  · exact absurd rfl hne
  · obtain rfl := up_rightUnique hp hq
    exact h

namespace WellFormed

theorem parent?_of_mem (hw : s.WellFormed) (h : c ∈ s.children p) : s.parent? c = some p :=
  (hw.mem_children_iff p c).mp h

theorem mem_of_parent? (hw : s.WellFormed) (h : s.parent? c = some p) : c ∈ s.children p :=
  (hw.mem_children_iff p c).mpr h

theorem transGen_irrefl (hw : s.WellFormed) (x : NodeId) : ¬ TransGen s.Up x x := by
  obtain ⟨rank, hr⟩ := hw.ranked
  -- Every step up lowers the rank, so no path leads back to where it started.
  have lt : ∀ {c p}, TransGen s.Up c p → rank p < rank c := by
    intro c p h
    induction h with
    | single h => exact hr _ _ h
    | tail _ h ih => exact Nat.lt_trans (hr _ _ h) ih
  exact fun h => Nat.lt_irrefl _ (lt h)

/-- The way up from a node ends. -/
theorem exists_top (hw : s.WellFormed) (x : NodeId) : ∃ y, s.Below x y ∧ s.parent? y = none := by
  obtain ⟨rank, hr⟩ := hw.ranked
  induction hn : rank x using Nat.strongRecOn generalizing x with
  | ind n ih =>
    cases hp : s.parent? x with
    | none => exact ⟨x, ReflTransGen.refl, hp⟩
    | some p =>
      obtain ⟨y, hy, hnone⟩ := ih _ (hn ▸ hr p x hp) p rfl
      exact ⟨y, ReflTransGen.head hp hy, hnone⟩

theorem not_below_of_parent? (hw : s.WellFormed) (h : s.parent? c = some p) : ¬ s.Below p c := by
  intro hb
  exact hw.transGen_irrefl c (TransGen.head' h hb)

theorem ne_of_parent? (hw : s.WellFormed) (h : s.parent? c = some p) : c ≠ p := by
  rintro rfl
  exact hw.not_below_of_parent? h ReflTransGen.refl

/-- Two children of a node have nothing below them in common. -/
theorem eq_of_below_of_below (hw : s.WellFormed) (ha : s.parent? a = some p)
    (hb : s.parent? b = some p) (hxa : s.Below x a) (hxb : s.Below x b) : a = b := by
  by_contra hne
  rcases below_total hxa hxb with h | h
  · exact hw.not_below_of_parent? hb (below_parent_of_below_of_ne h ha (Ne.symm hne))
  · exact hw.not_below_of_parent? ha (below_parent_of_below_of_ne h hb hne)

/-- Nothing hangs on a node without children. -/
theorem parent?_ne_of_isolated (hw : s.WellFormed) (hx : s.Isolated x) (c : NodeId) :
    s.parent? c ≠ some x := by
  intro h
  have := hw.mem_of_parent? h
  rw [hx.children] at this
  exact absurd this List.not_mem_nil

theorem eq_of_below_isolated (hw : s.WellFormed) (hx : s.Isolated x) (h : s.Below y x) : y = x := by
  rcases ReflTransGen.cases_tail h with rfl | ⟨z, -, hz⟩
  · rfl
  · exact absurd hz (hw.parent?_ne_of_isolated hx z)

end WellFormed

/-! ## A new last child -/

/-- The shape in which a node has one more child at the end. -/
def append (s : Shape) (p new : NodeId) : Shape where
  parent? := Function.update s.parent? new (some p)
  children := Function.update s.children p (s.children p ++ [new])

section Append

variable {new : NodeId}

theorem parent?_append (x : NodeId) :
    (s.append p new).parent? x = if x = new then some p else s.parent? x := by
  simp [append, Function.update_apply]

theorem children_append (x : NodeId) :
    (s.append p new).children x = if x = p then s.children p ++ [new] else s.children x := by
  simp [append, Function.update_apply]

theorem WellFormed.append (hw : s.WellFormed) (hf : s.Isolated new) (hne : p ≠ new) :
    (s.append p new).WellFormed where
  mem_children_iff q c := by
    rw [parent?_append, children_append]
    have hnew (q : NodeId) : new ∉ s.children q := by
      rw [hw.mem_children_iff, hf.parent]
      simp
    have := hw.mem_children_iff q c
    by_cases hq : q = p <;> by_cases hc : c = new <;> grind
  nodup q := by
    rw [children_append]
    split_ifs with hq
    · apply List.Nodup.append (hw.nodup p) (List.nodup_singleton new)
      rw [List.disjoint_singleton, hw.mem_children_iff, hf.parent]
      simp
    · exact hw.nodup q
  ranked := by
    obtain ⟨rank, hr⟩ := hw.ranked
    refine ⟨Function.update rank new (rank p + 1), ?_⟩
    intro q c h
    rw [parent?_append] at h
    rw [Function.update_apply, Function.update_apply]
    split_ifs at h with hc
    · obtain rfl := Option.some.inj h
      rw [if_neg hne, if_pos hc]
      exact Nat.lt_succ_self _
    · have hq : q ≠ new := by
        rintro rfl
        exact hw.parent?_ne_of_isolated hf c h
      rw [if_neg hq, if_neg hc]
      exact hr q c h

theorem below_append_iff (hw : s.WellFormed) (hf : s.Isolated new) (hx : x ≠ new) :
    (s.append p new).Below x a ↔ s.Below x a := by
  constructor
  · intro h
    suffices H : s.Below x a ∧ a ≠ new from H.1
    induction h with
    | refl => exact ⟨ReflTransGen.refl, hx⟩
    | tail _ h ih =>
      rw [Up, parent?_append, if_neg ih.2] at h
      refine ⟨ih.1.tail h, ?_⟩
      rintro rfl
      exact hw.parent?_ne_of_isolated hf _ h
  · intro h
    refine ReflTransGen.mono (r := s.Up) ?_ _ _ h
    intro c q hc
    rw [Up, parent?_append, if_neg]
    · exact hc
    · rintro rfl
      exact absurd (hf.parent.symm.trans hc) (by simp)

theorem below_append_new (h : (s.append p new).Below new a) (ha : a ≠ new) :
    (s.append p new).Below p a :=
  below_parent_of_below_of_ne h (by rw [parent?_append, if_pos rfl]) ha

end Append

/-! ## A node above another -/

/-- The shape in which a new node takes the place of another and has it as only child. -/
def interpose (s : Shape) (inner outer : NodeId) : Shape where
  parent? := Function.update (Function.update s.parent? inner (some outer)) outer (s.parent? inner)
  children := Function.update
    (fun x => (s.children x).map fun c => if c = inner then outer else c) outer [inner]

section Interpose

variable {inner outer : NodeId}

theorem parent?_interpose (x : NodeId) : (s.interpose inner outer).parent? x =
    if x = outer then s.parent? inner else if x = inner then some outer else s.parent? x := by
  simp [interpose, Function.update_apply]

theorem children_interpose (x : NodeId) : (s.interpose inner outer).children x =
    if x = outer then [inner]
    else (s.children x).map fun c => if c = inner then outer else c := by
  simp [interpose, Function.update_apply]

/-- Nothing takes the place of what is not listed. -/
theorem map_replace_of_not_mem {l : List NodeId} (h : inner ∉ l) (outer : NodeId) :
    (l.map fun c => if c = inner then outer else c) = l := by
  refine (List.map_congr_left fun c hc => if_neg ?_).trans (List.map_id _)
  rintro rfl
  exact h hc

/-- A node may take its own place. -/
theorem map_replace_self (l : List NodeId) (inner : NodeId) :
    (l.map fun c => if c = inner then inner else c) = l := by
  refine (List.map_congr_left fun c _ => ?_).trans (List.map_id _)
  split_ifs with hc
  · exact hc.symm
  · rfl

theorem children_interpose_of_parent?_ne (hw : s.WellFormed) (hx : x ≠ outer)
    (h : s.parent? inner ≠ some x) : (s.interpose inner outer).children x = s.children x := by
  rw [children_interpose, if_neg hx, map_replace_of_not_mem]
  exact fun hc => h (hw.parent?_of_mem hc)

theorem WellFormed.interpose (hw : s.WellFormed) (hf : s.Isolated outer) (hne : inner ≠ outer) :
    (s.interpose inner outer).WellFormed where
  mem_children_iff q c := by
    rw [parent?_interpose, children_interpose]
    have hout (q : NodeId) : outer ∉ s.children q := by
      rw [hw.mem_children_iff, hf.parent]
      simp
    have hm := hw.mem_children_iff q
    have hp := hw.parent?_ne_of_isolated hf
    by_cases hq : q = outer
    · grind
    · rw [if_neg hq, List.mem_map]
      grind
  nodup q := by
    rw [children_interpose]
    split_ifs with hq
    · exact List.nodup_singleton inner
    · refine List.Nodup.map_on ?_ (hw.nodup q)
      have hout : ∀ c ∈ s.children q, c ≠ outer := by
        rintro c hc rfl
        exact absurd (hf.parent.symm.trans (hw.parent?_of_mem hc)) (by simp)
      grind
  ranked := by
    obtain ⟨rank, hr⟩ := hw.ranked
    -- doubled ranks leave room for the new node just above the inner one
    refine ⟨fun x => if x = outer then 2 * rank inner else 2 * rank x + 1, ?_⟩
    intro q c h
    have hq := hw.parent?_ne_of_isolated hf
    have hrank := hr q
    rw [parent?_interpose] at h
    grind

/-- What is below what stays so, and the new node is between. -/
theorem below_interpose (hf : s.Isolated outer) (h : s.Below x a) :
    (s.interpose inner outer).Below x a := by
  induction h with
  | refl => exact ReflTransGen.refl
  | @tail c q h hc ih =>
    have hco : c ≠ outer := by
      rintro rfl
      exact absurd (hf.parent.symm.trans hc) (by simp)
    by_cases hci : c = inner
    · subst hci
      refine (ih.tail (c := outer) ?_).tail ?_
      · rw [Up, parent?_interpose, if_neg hco, if_pos rfl]
      · rw [Up, parent?_interpose, if_pos rfl]
        exact hc
    · apply ih.tail
      rw [Up, parent?_interpose, if_neg hco, if_neg hci]
      exact hc

/-- What is below an old node was below it before; what is below the new node was below the inner
one. -/
theorem below_of_interpose (hw : s.WellFormed) (hf : s.Isolated outer) (hx : x ≠ outer)
    (h : (s.interpose inner outer).Below x a) :
    if a = outer then s.Below x inner else s.Below x a := by
  -- A path that ends in the new node is read as one that ends in the inner node.
  induction h with
  | refl =>
    rw [if_neg hx]
    exact ReflTransGen.refl
  | @tail c q _ hc ih =>
    rw [Up, parent?_interpose] at hc
    have hq := hw.parent?_ne_of_isolated hf
    by_cases hco : c = outer
    · rw [if_pos hco] at hc ih
      have hqo : q ≠ outer := by
        rintro rfl
        exact hq inner hc
      rw [if_neg hqo]
      exact ih.tail hc
    · rw [if_neg hco] at hc ih
      by_cases hci : c = inner
      · rw [if_pos hci] at hc
        rw [if_pos (Option.some.inj hc).symm, ← hci]
        exact ih
      · rw [if_neg hci] at hc
        have hqo : q ≠ outer := by
          rintro rfl
          exact hq c hc
        rw [if_neg hqo]
        exact ih.tail hc

end Interpose

/-! ## Contracting an only child -/

/-- The shape in which the children of a node's only child belong to the node, and the child is left
without relatives. -/
def contract (s : Shape) (id child : NodeId) : Shape where
  parent? x :=
    if x = child then none else if x ∈ s.children child then some id else s.parent? x
  children := Function.update (Function.update s.children child []) id (s.children child)

section Contract

variable {id child : NodeId}

theorem parent?_contract (x : NodeId) : (s.contract id child).parent? x =
    if x = child then none else if x ∈ s.children child then some id else s.parent? x :=
  rfl

theorem children_contract (x : NodeId) : (s.contract id child).children x =
    if x = id then s.children child else if x = child then [] else s.children x := by
  simp [contract, Function.update_apply]

theorem isolated_contract (hne : child ≠ id) : (s.contract id child).Isolated child where
  parent := by rw [parent?_contract, if_pos rfl]
  children := by rw [children_contract, if_neg hne, if_pos rfl]

theorem WellFormed.contract (hw : s.WellFormed) (hc : s.children id = [child]) :
    (s.contract id child).WellFormed where
  mem_children_iff q c := by
    have hchild : s.parent? child = some id := hw.parent?_of_mem (by simp [hc])
    have hne := hw.ne_of_parent? hchild
    have hself : child ∉ s.children child := fun h => hw.ne_of_parent? (hw.parent?_of_mem h) rfl
    have hm := hw.mem_children_iff
    have hid := hm id c
    rw [hc, List.mem_singleton] at hid
    rw [parent?_contract, children_contract]
    grind
  nodup q := by
    rw [children_contract]
    split_ifs
    · exact hw.nodup child
    · exact List.nodup_nil
    · exact hw.nodup q
  ranked := by
    obtain ⟨rank, hr⟩ := hw.ranked
    -- The old ranks will do: grandchildren rank above the child, hence above the node.
    refine ⟨rank, ?_⟩
    intro q c h
    have hchild : rank id < rank child := hr id child (hw.parent?_of_mem (by simp [hc]))
    rw [parent?_contract] at h
    split_ifs at h with h₁ h₂
    · obtain rfl := Option.some.inj h
      exact Nat.lt_trans hchild (hr child c (hw.parent?_of_mem h₂))
    · exact hr q c h

/-- What is below a node was below it before. -/
theorem below_of_contract (hw : s.WellFormed) (hc : s.children id = [child])
    (h : (s.contract id child).Below x a) : s.Below x a := by
  induction h with
  | refl => exact ReflTransGen.refl
  | @tail c q _ hcq ih =>
    rw [Up, parent?_contract] at hcq
    split_ifs at hcq with h₁ h₂
    · obtain rfl := Option.some.inj hcq
      refine (ih.tail (hw.parent?_of_mem h₂)).tail (hw.parent?_of_mem ?_)
      simp [hc]
    · exact ih.tail hcq

/-- What was below a node stays below it, the contracted child apart. -/
theorem below_contract (hw : s.WellFormed) (hc : s.children id = [child]) (hx : x ≠ child)
    (ha : a ≠ child) (h : s.Below x a) : (s.contract id child).Below x a := by
  have hchild : s.parent? child = some id := hw.parent?_of_mem (by simp [hc])
  suffices H : (s.contract id child).Below x (if a = child then id else a) by
    rwa [if_neg ha] at H
  clear ha
  induction h with
  | refl =>
    rw [if_neg hx]
    exact ReflTransGen.refl
  | @tail c q _ hcq ih =>
    by_cases hcc : c = child
    · obtain rfl : q = id := up_rightUnique (s := s) hcq (hcc ▸ hchild)
      rw [if_pos hcc] at ih
      split_ifs
      · exact ih
      · exact ih
    · rw [if_neg hcc] at ih
      apply ih.tail
      rw [Up, parent?_contract, if_neg hcc]
      by_cases hq : q = child
      · subst hq
        rw [if_pos (hw.mem_of_parent? hcq), if_pos rfl]
      · rw [if_neg hq, if_neg]
        · exact hcq
        · intro hmem
          exact hq (up_rightUnique (s := s) hcq (hw.parent?_of_mem hmem))

end Contract

end Shape

end ParseTree
