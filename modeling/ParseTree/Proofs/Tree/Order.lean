import Mathlib.Data.Finset.Lattice.Fold
import ParseTree.Proofs.Tree.Shape

/-!
# Document order

A traversal visits the nodes on a stack and everything below them, each node before its children and
the children from left to right. In a well-formed shape every node has one traversal, and it visits
no node twice.

A tree grows at its right edge: the spine is the way from the root down last children. A node that
is added below a node of the spine comes last in document order.

## Main definitions

* `Shape.Traversal`: the nodes on a stack and below it in document order
* `Shape.Spine`: a node on the right edge, at a depth

## Main results

* `WellFormed.exists_traversal`, `Traversal.unique`, `Traversal.nodup`: every node has one
  traversal, without repetitions
* `Traversal.mem_iff`: a traversal visits what is below its stack
* `Traversal.append`: a node added on the spine comes last
* `Traversal.interpose`, `Traversal.contract`: the order after the other changes
-/

namespace ParseTree.Shape

open Relation

variable {s s' : Shape} {a c p x root new id child inner outer : NodeId}
  {stack l : List NodeId} {n : ℕ}

/-- The nodes on a stack and everything below them, in document order. -/
inductive Traversal (s : Shape) : List NodeId → List NodeId → Prop where
  /-- An empty stack is done. -/
  | nil : Traversal s [] []
  /-- The first node is visited; its children come before the rest of the stack. -/
  | cons {id : NodeId} {stack l : List NodeId} (h : Traversal s (s.children id ++ stack) l) :
    Traversal s (id :: stack) (id :: l)

namespace Traversal

theorem unique {l' : List NodeId} (h : s.Traversal stack l) (h' : s.Traversal stack l') :
    l = l' := by
  induction h generalizing l' with
  | nil => cases h'; rfl
  | cons _ ih =>
    cases h' with
    | cons h' => rw [ih h']

theorem concat {st st' l' : List NodeId} (h : s.Traversal st l) (h' : s.Traversal st' l') :
    s.Traversal (st ++ st') (l ++ l') := by
  induction h with
  | nil => exact h'
  | cons _ ih =>
    apply Traversal.cons
    rw [List.append_assoc] at ih
    exact ih

theorem split {st st' : List NodeId} (h : s.Traversal (st ++ st') l) :
    ∃ l₁ l₂, l = l₁ ++ l₂ ∧ s.Traversal st l₁ ∧ s.Traversal st' l₂ := by
  generalize hst : st ++ st' = stack at h
  induction h generalizing st with
  | nil =>
    obtain ⟨rfl, rfl⟩ := List.append_eq_nil_iff.mp hst
    exact ⟨[], [], rfl, .nil, .nil⟩
  | @cons id stack l h ih =>
    cases st with
    | nil =>
      rw [List.nil_append] at hst
      subst hst
      exact ⟨[], id :: l, rfl, .nil, .cons h⟩
    | cons id' st =>
      rw [List.cons_append, List.cons.injEq] at hst
      obtain ⟨rfl, rfl⟩ := hst
      obtain ⟨l₁, l₂, rfl, h₁, h₂⟩ := @ih (s.children id' ++ st) (List.append_assoc _ _ _)
      exact ⟨id' :: l₁, l₂, rfl, .cons h₁, h₂⟩

theorem split_cons (h : s.Traversal (x :: stack) l) :
    ∃ l₁ l₂, l = l₁ ++ l₂ ∧ s.Traversal [x] l₁ ∧ s.Traversal stack l₂ :=
  (show s.Traversal ([x] ++ stack) l from h).split

theorem mem_iff (hw : s.WellFormed) (h : s.Traversal stack l) :
    x ∈ l ↔ ∃ a ∈ stack, s.Below x a := by
  induction h with
  | nil => simp
  | @cons id stack l _ ih =>
    rw [List.mem_cons, ih]
    constructor
    · rintro (rfl | ⟨c, hc, hx⟩)
      · exact ⟨x, List.mem_cons_self, ReflTransGen.refl⟩
      · rcases List.mem_append.mp hc with hc | hc
        · exact ⟨id, List.mem_cons_self, hx.tail (hw.parent?_of_mem hc)⟩
        · exact ⟨c, List.mem_cons_of_mem _ hc, hx⟩
    · rintro ⟨c, hc, hx⟩
      rcases List.mem_cons.mp hc with rfl | hc
      · rcases ReflTransGen.cases_tail hx with rfl | ⟨q, hq, hup⟩
        · exact Or.inl rfl
        · exact Or.inr ⟨q, List.mem_append_left _ (hw.mem_of_parent? hup), hq⟩
      · exact Or.inr ⟨c, List.mem_append_right _ hc, hx⟩

theorem mem_singleton_iff (hw : s.WellFormed) (h : s.Traversal [a] l) : x ∈ l ↔ s.Below x a := by
  simp [h.mem_iff hw]

/-- What lies below a node that is visited comes in one piece. -/
theorem exists_part (h : s.Traversal stack l) (hx : x ∈ l) :
    ∃ l₁ l₂ l₃, l = l₁ ++ l₂ ++ l₃ ∧ s.Traversal [x] l₂ := by
  induction h with
  | nil => cases hx
  | @cons id stack l h ih =>
    rcases List.mem_cons.mp hx with rfl | hx
    · obtain ⟨l₂, l₃, hl, h₂, -⟩ := (Traversal.cons h).split_cons
      exact ⟨[], l₂, l₃, hl, h₂⟩
    · obtain ⟨l₁, l₂, l₃, rfl, h₂⟩ := ih hx
      exact ⟨id :: l₁, l₂, l₃, rfl, h₂⟩

/-- A traversal sees nothing but the children of the nodes that it visits. -/
theorem congr (h : s.Traversal stack l) (hc : ∀ x ∈ l, s'.children x = s.children x) :
    s'.Traversal stack l := by
  induction h with
  | nil => exact .nil
  | @cons id stack l _ ih =>
    refine .cons ?_
    rw [hc id List.mem_cons_self]
    exact ih fun x hx => hc x (List.mem_cons_of_mem _ hx)

/-- If the nodes on the stack have nothing in common, no node is visited twice. -/
theorem nodup_of_pairwise (hw : s.WellFormed) (h : s.Traversal stack l)
    (hst : stack.Pairwise fun a b => ∀ x, s.Below x a → ¬ s.Below x b) : l.Nodup := by
  induction h with
  | nil => exact List.nodup_nil
  | @cons id stack l h ih =>
    obtain ⟨hid, hst⟩ := List.pairwise_cons.mp hst
    refine List.nodup_cons.mpr ⟨?_, ih ?_⟩
    · rw [h.mem_iff hw]
      rintro ⟨c, hc, hb⟩
      rcases List.mem_append.mp hc with hc | hc
      · exact hw.not_below_of_parent? (hw.parent?_of_mem hc) hb
      · exact hid c hc id ReflTransGen.refl hb
    · refine List.pairwise_append.mpr ⟨?_, hst, ?_⟩
      · apply (hw.nodup id).pairwise_of_forall_ne
        intro c hc d hd hne x hxc hxd
        exact hne (hw.eq_of_below_of_below (hw.parent?_of_mem hc) (hw.parent?_of_mem hd) hxc hxd)
      · intro c hc b hb x hxc
        exact hid b hb x (hxc.tail (hw.parent?_of_mem hc))

theorem nodup (hw : s.WellFormed) (h : s.Traversal [a] l) : l.Nodup :=
  h.nodup_of_pairwise hw (List.pairwise_singleton _ _)

end Traversal

/-- The traversals of the nodes on a stack, one after the other. -/
theorem Traversal.flatMap {order : NodeId → List NodeId}
    (h : ∀ a ∈ stack, s.Traversal [a] (order a)) : s.Traversal stack (stack.flatMap order) := by
  induction stack with
  | nil => exact .nil
  | cons a stack ih =>
    exact (h a List.mem_cons_self).concat (ih fun b hb => h b (List.mem_cons_of_mem _ hb))

theorem exists_traversal_of_forall (h : ∀ a ∈ stack, ∃ l, s.Traversal [a] l) :
    ∃ l, s.Traversal stack l := by
  choose! order horder using h
  exact ⟨_, .flatMap horder⟩

/-- In a well-formed shape of finitely many nodes a traversal ends. -/
theorem WellFormed.exists_traversal (hw : s.WellFormed) (hf : ∀ c, s.parent? c ≠ none → c.index < n)
    (a : NodeId) : ∃ l, s.Traversal [a] l := by
  obtain ⟨rank, hr⟩ := hw.ranked
  let top := (Finset.range n).sup fun i => rank ⟨i⟩
  have hle : ∀ c, s.parent? c ≠ none → rank c ≤ top := fun c hc =>
    Finset.le_sup (f := fun i => rank ⟨i⟩) (Finset.mem_range.mpr (hf c hc))
  -- induction on how far the rank of the node is from the highest one
  suffices H : ∀ k a, top < rank a + k → ∃ l, s.Traversal [a] l from
    H (top + 1) a (by omega)
  intro k
  induction k with
  | zero =>
    intro a ha
    have hnil : s.children a = [] := by
      apply List.eq_nil_iff_forall_not_mem.mpr
      intro c hc
      have hp := hw.parent?_of_mem hc
      have := hle c (by simp [hp])
      have := hr a c hp
      omega
    refine ⟨[a], .cons ?_⟩
    rw [hnil]
    exact .nil
  | succ k ih =>
    intro a ha
    obtain ⟨l, hl⟩ : ∃ l, s.Traversal (s.children a) l := by
      refine exists_traversal_of_forall fun c hc => ih c ?_
      have := hr a c (hw.parent?_of_mem hc)
      omega
    exact ⟨a :: l, .cons (by rwa [List.append_nil])⟩

/-! ## The right edge -/

/-- The node is reached from the root by going to the last child a number of times. -/
inductive Spine (s : Shape) (root : NodeId) : NodeId → ℕ → Prop where
  /-- The root is on its own right edge. -/
  | root : Spine s root root 0
  /-- The last child of a node on the right edge is on it. -/
  | child {p c : NodeId} {n : ℕ} (hp : Spine s root p n) (hc : (s.children p).getLast? = some c) :
    Spine s root c (n + 1)

namespace Spine

theorem parent? (hw : s.WellFormed) (h : s.Spine root c (n + 1)) :
    ∃ p, s.Spine root p n ∧ s.parent? c = some p := by
  cases h with
  | @child p _ _ hp hc => exact ⟨p, hp, hw.parent?_of_mem (List.mem_of_getLast? hc)⟩

theorem below_root (hw : s.WellFormed) (h : s.Spine root c n) : s.Below c root := by
  induction h with
  | root => exact ReflTransGen.refl
  | child _ hc ih => exact ReflTransGen.head (hw.parent?_of_mem (List.mem_of_getLast? hc)) ih

/-- A node on the right edge is on that of every node above it, up to the root. -/
theorem of_below (hw : s.WellFormed) (hr : s.parent? root = none) (h : s.Spine root c n)
    (hx : s.Below c x) : ∃ m, s.Spine x c m := by
  induction h with
  | root =>
    obtain rfl := eq_of_below_of_parent?_eq_none hx hr
    exact ⟨0, .root⟩
  | @child p c n hp hc ih =>
    rcases ReflTransGen.cases_head hx with rfl | ⟨q, hq, hqx⟩
    · exact ⟨0, .root⟩
    · obtain ⟨m, hm⟩ := ih (up_rightUnique (s := s) (hw.parent?_of_mem (List.mem_of_getLast? hc)) hq
        ▸ hqx)
      exact ⟨m + 1, .child hm hc⟩

/-- The way to a node sees nothing but the children of the nodes above it. -/
theorem congr (hw : s.WellFormed) (h : s.Spine root c n)
    (hc : ∀ x, s.Below c x → x ≠ c → s'.children x = s.children x) : s'.Spine root c n := by
  induction h with
  | root => exact .root
  | @child p c n _ hl ih =>
    have hp := hw.parent?_of_mem (List.mem_of_getLast? hl)
    refine .child (ih fun x hx hne => hc x (ReflTransGen.head hp hx) ?_) ?_
    · rintro rfl
      exact hw.not_below_of_parent? hp hx
    · rwa [hc p (below_of_parent? hp) (hw.ne_of_parent? hp).symm]

/-- What is below a node on the spine comes last in document order, and may be exchanged. -/
theorem split_traversal (h : s.Spine root p n) (ht : s.Traversal [root] l) :
    ∃ l₁ l₂, l = l₁ ++ l₂ ∧ s.Traversal [p] l₂ ∧
      ∀ s' l', (∀ x ∈ l₁, Shape.children s' x = s.children x) → s'.Traversal [p] l' →
        s'.Traversal [root] (l₁ ++ l') := by
  induction h with
  | root => exact ⟨[], l, rfl, ht, fun _ _ _ h => h⟩
  | @child p c n _ hc ih =>
    obtain ⟨l₁, l₂, rfl, hp, hx⟩ := ih
    obtain ⟨init, hinit⟩ := List.getLast?_eq_some_iff.mp hc
    cases hp with
    | @cons _ _ l₂ hp =>
      rw [List.append_nil, hinit] at hp
      obtain ⟨l₃, l₄, rfl, h₃, h₄⟩ := hp.split
      refine ⟨l₁ ++ p :: l₃, l₄, by simp, h₄, ?_⟩
      intro s' l' hs' hl'
      have hp' : s'.Traversal [p] (p :: (l₃ ++ l')) := by
        refine .cons ?_
        rw [List.append_nil, hs' p (by simp), hinit]
        exact (h₃.congr fun x hx => hs' x (by simp [hx])).concat hl'
      rw [List.append_assoc, List.cons_append]
      exact hx s' _ (fun x hx => hs' x (by simp [hx])) hp'

theorem append (hw : s.WellFormed) (h : s.Spine root p n) : (s.append p new).Spine root p n := by
  apply h.congr hw
  intro x _ hne
  rw [children_append, if_neg hne]

theorem append_new (hw : s.WellFormed) (h : s.Spine root p n) :
    (s.append p new).Spine root new (n + 1) := by
  refine .child (h.append hw) ?_
  rw [children_append, if_pos rfl, List.getLast?_concat]

/-- The new node takes the place of the inner one on the spine. -/
theorem interpose (hw : s.WellFormed) (hf : s.Isolated outer) (h : s.Spine root inner (n + 1)) :
    (s.interpose inner outer).Spine root outer (n + 1) := by
  cases h with
  | @child p _ _ hp hc =>
    have hin := hw.parent?_of_mem (List.mem_of_getLast? hc)
    have hpo : p ≠ outer := by
      rintro rfl
      exact hw.parent?_ne_of_isolated hf inner hin
    refine .child (hp.congr hw ?_) ?_
    · intro x hx hxp
      have hxo : x ≠ outer := by
        rintro rfl
        exact hpo (hw.eq_of_below_isolated hf hx)
      refine children_interpose_of_parent?_ne hw hxo fun h => hxp ?_
      exact up_rightUnique (s := s) h hin
    · rw [children_interpose, if_neg hpo, List.getLast?_map, hc]
      simp

/-- After an only child was contracted into a node of the spine, the nodes above are as before. -/
theorem contract (hw : s.WellFormed) (hc : s.children id = [child]) (h : s.Spine root p n)
    (hp : s.parent? id = some p) : (s.contract id child).Spine root p n := by
  have hchild : s.parent? child = some id := hw.parent?_of_mem (by simp [hc])
  apply h.congr hw
  intro x hx _
  have hxid : x ≠ id := by
    rintro rfl
    exact hw.not_below_of_parent? hp hx
  have hxchild : x ≠ child := by
    rintro rfl
    exact hw.not_below_of_parent? hchild (ReflTransGen.head hp hx)
  rw [children_contract, if_neg hxid, if_neg hxchild]

end Spine

/-! ## The order after a change -/

namespace Traversal

/-- A node that is added below a node of the spine comes last. -/
theorem append (hw : s.WellFormed) (hf : s.Isolated new) (hne : p ≠ new)
    (hp : s.Spine root p n) (h : s.Traversal [root] l) :
    (s.append p new).Traversal [root] (l ++ [new]) := by
  obtain ⟨l₁, l₂, rfl, h₂, hx⟩ := hp.split_traversal h
  have hnd := h.nodup hw
  rw [List.append_assoc]
  cases h₂ with
  | @cons _ _ l₂ h₂ =>
    obtain ⟨-, hnd₂, hdisj⟩ := List.nodup_append.mp hnd
    refine hx _ _ ?_ (.cons ?_)
    · intro x hx
      rw [children_append, if_neg (hdisj x hx p List.mem_cons_self)]
    · rw [List.append_nil] at h₂ ⊢
      rw [children_append, if_pos rfl]
      refine Traversal.concat (h₂.congr ?_) (.cons ?_)
      · intro x hmem
        rw [children_append, if_neg]
        rintro rfl
        exact (List.nodup_cons.mp hnd₂).1 hmem
      · rw [children_append, if_neg hne.symm, hf.children]
        exact .nil

variable (inner) in
/-- The new node comes just before the inner one. -/
theorem interpose (ho : outer ∉ l) (h : s.Traversal stack l) :
    (s.interpose inner outer).Traversal (stack.map fun c => if c = inner then outer else c)
      (l.flatMap fun x => if x = inner then [outer, inner] else [x]) := by
  induction h with
  | nil => exact .nil
  | @cons id stack l _ ih =>
    obtain ⟨hid, hl⟩ : outer ≠ id ∧ outer ∉ l := by simpa using ho
    have ih := ih hl
    rw [List.map_append] at ih
    rw [List.map_cons, List.flatMap_cons]
    have hstep : (s.interpose inner outer).Traversal
        (id :: stack.map fun c => if c = inner then outer else c)
        (id :: l.flatMap fun x => if x = inner then [outer, inner] else [x]) := by
      refine .cons ?_
      rw [children_interpose, if_neg (Ne.symm hid)]
      exact ih
    by_cases hin : id = inner
    · subst hin
      rw [if_pos rfl, if_pos rfl]
      refine .cons ?_
      rw [children_interpose, if_pos rfl]
      exact hstep
    · rw [if_neg hin, if_neg hin]
      exact hstep

/-- The contracted node is left out. -/
theorem contract (hw : s.WellFormed) (hc : s.children id = [child]) (hst : child ∉ stack)
    (h : s.Traversal stack l) :
    (s.contract id child).Traversal stack (l.filter fun x => x ≠ child) := by
  have hchild : s.parent? child = some id := hw.parent?_of_mem (by simp [hc])
  -- The child goes with its node, two steps at once, so the induction is on the length.
  induction hn : l.length using Nat.strong_induction_on generalizing stack l with
  | _ n ih =>
    cases h with
    | nil => exact .nil
    | @cons x stack l h =>
      obtain ⟨hx, hst⟩ : child ≠ x ∧ child ∉ stack := by simpa using hst
      rw [List.filter_cons_of_pos (by simpa using hx.symm)]
      refine .cons ?_
      rw [children_contract]
      by_cases hxid : x = id
      · rw [if_pos hxid]
        rw [hxid, hc] at h
        cases h with
        | @cons _ _ l h =>
          rw [List.filter_cons_of_neg (by simp)]
          refine ih l.length (by simp at hn; omega) ?_ h rfl
          rw [List.mem_append, not_or]
          exact ⟨fun hmem => hw.ne_of_parent? (hw.parent?_of_mem hmem) rfl, hst⟩
      · rw [if_neg hxid, if_neg hx.symm]
        refine ih l.length (by simp at hn; omega) ?_ h rfl
        rw [List.mem_append, not_or]
        refine ⟨fun hmem => hxid ?_, hst⟩
        exact up_rightUnique (s := s) (hw.parent?_of_mem hmem) hchild

end Traversal

end ParseTree.Shape
