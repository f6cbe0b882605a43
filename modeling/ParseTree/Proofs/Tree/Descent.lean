import Mathlib.Data.Fintype.Card
import ParseTree.Proofs.Tree.Order

/-!
# Going down a shape

A path names a position among the children at each step down. The links of a shape may be of any
kind: a node may be listed by several others or by a node below it, so that many paths, or endlessly
many, lead to it. A traversal still meets what paths lead to, and it meets no node twice if and only
if no two paths lead to the same node. Among finitely many nodes it then comes to an end.

## Main definitions

* `Shape.descend?`: the node that a path leads to
* `Shape.Reached`: the nodes that some path leads to
* `Shape.ReachedOnce`: no two paths lead to the same node

## Main results

* `Traversal.mem_iff_reached`: a traversal meets the nodes that paths lead to
* `Traversal.nodup_iff_reachedOnce`: it meets each of them once if they are reached once
* `ReachedOnce.exists_traversal`: and it ends if there are finitely many of them
-/

namespace ParseTree.Shape

variable {s : Shape} {a x y id : NodeId} {stack l : List NodeId} {path path' : List ℕ} {n k : ℕ}

/-- The node that a path leads to: the path lists the positions of the children to go to. -/
def descend? (s : Shape) : NodeId → List ℕ → Option NodeId
  | id, [] => some id
  | id, i :: path => (s.children id)[i]?.bind fun c => s.descend? c path

/-- Some path leads from one node to another. -/
def Reached (s : Shape) (id x : NodeId) : Prop :=
  ∃ path, s.descend? id path = some x

/-- No two paths from the node lead to the same node. -/
def ReachedOnce (s : Shape) (id : NodeId) : Prop :=
  ∀ path path' x, s.descend? id path = some x → s.descend? id path' = some x → path = path'

theorem descend?_append (s : Shape) (id : NodeId) (path path' : List ℕ) :
    s.descend? id (path ++ path') = (s.descend? id path).bind fun x => s.descend? x path' := by
  induction path generalizing id with
  | nil => rfl
  | cons i path ih =>
    rw [List.cons_append, descend?, descend?, Option.bind_assoc]
    exact congrArg _ (funext fun c => ih c)

theorem reached_self (s : Shape) (id : NodeId) : s.Reached id id :=
  ⟨[], rfl⟩

theorem reached_iff : s.Reached id x ↔ x = id ∨ ∃ c ∈ s.children id, s.Reached c x := by
  constructor
  · rintro ⟨path, hpath⟩
    cases path with
    | nil => exact Or.inl (Option.some.inj hpath).symm
    | cons i path =>
      obtain ⟨c, hc, hpath⟩ := Option.bind_eq_some_iff.mp hpath
      exact Or.inr ⟨c, List.mem_of_getElem? hc, path, hpath⟩
  · rintro (rfl | ⟨c, hc, path, hpath⟩)
    · exact s.reached_self x
    · obtain ⟨i, hi⟩ := List.mem_iff_getElem?.mp hc
      exact ⟨i :: path, Option.bind_eq_some_iff.mpr ⟨c, hi, hpath⟩⟩

theorem reached_of_mem_children (h : x ∈ s.children id) : s.Reached id x :=
  reached_iff.mpr (Or.inr ⟨x, h, s.reached_self x⟩)

theorem Reached.trans (h : s.Reached id x) (h' : s.Reached x y) : s.Reached id y := by
  obtain ⟨path, hpath⟩ := h
  obtain ⟨path', hpath'⟩ := h'
  refine ⟨path ++ path', ?_⟩
  rw [descend?_append, hpath, Option.bind_some, hpath']

/-- What is reached once from a node is reached once from every node on the way. -/
theorem ReachedOnce.of_reached (h : s.ReachedOnce id) (hx : s.Reached id x) : s.ReachedOnce x := by
  obtain ⟨path, hpath⟩ := hx
  have hthrough (p : List ℕ) : s.descend? id (path ++ p) = s.descend? x p := by
    rw [descend?_append, hpath, Option.bind_some]
  intro p p' y hp hp'
  exact List.append_cancel_left (h _ _ y ((hthrough p).trans hp) ((hthrough p').trans hp'))

/-- A traversal meets the nodes on its stack and what paths from them lead to. -/
theorem Traversal.mem_iff_reached (h : s.Traversal stack l) :
    x ∈ l ↔ ∃ a ∈ stack, s.Reached a x := by
  induction h with
  | nil => simp
  | @cons id stack l _ ih =>
    rw [List.mem_cons, ih, List.exists_mem_cons_iff, reached_iff]
    simp only [List.mem_append, or_and_right, exists_or, or_assoc]

/-! ## Paths from the nodes on a stack -/

/-- The node that a path leads to whose first step chooses among the nodes on a stack. -/
def descendFrom? (s : Shape) (stack : List NodeId) : List ℕ → Option NodeId
  | [] => none
  | i :: path => stack[i]?.bind fun a => s.descend? a path

/-- No two such paths lead to the same node. -/
def ReachedOnceFrom (s : Shape) (stack : List NodeId) : Prop :=
  ∀ path path' x, s.descendFrom? stack path = some x → s.descendFrom? stack path' = some x →
    path = path'

/-- The path from the nodes on a stack that does what another one does after the first node, which
has `n` children, was replaced by its children. -/
def unshift (n : ℕ) : List ℕ → List ℕ
  | [] => []
  | i :: path => if i < n then 0 :: i :: path else (i - n + 1) :: path

theorem unshift_injective (n : ℕ) : Function.Injective (unshift n) := by
  intro path path' h
  rcases path with - | ⟨i, path⟩ <;> rcases path' with - | ⟨j, path'⟩
  · rfl
  · rw [unshift, unshift] at h
    split_ifs at h
  · rw [unshift, unshift] at h
    split_ifs at h
  · rw [unshift, unshift] at h
    split_ifs at h with hi hj hj
    · exact (List.cons.inj h).2
    · exact absurd (List.cons.inj h).1 (Nat.succ_ne_zero _).symm
    · exact absurd (List.cons.inj h).1 (Nat.succ_ne_zero _)
    · obtain ⟨hij, rfl⟩ := List.cons.inj h
      rw [show i = j by omega]

theorem unshift_ne_singleton (n : ℕ) (path : List ℕ) : unshift n path ≠ [0] := by
  cases path with
  | nil => exact (List.cons_ne_nil _ _).symm
  | cons i path =>
    rw [unshift]
    split_ifs
    · simp
    · simp

theorem descendFrom?_unshift (s : Shape) (id : NodeId) (stack : List NodeId) (path : List ℕ) :
    s.descendFrom? (id :: stack) (unshift (s.children id).length path) =
      s.descendFrom? (s.children id ++ stack) path := by
  cases path with
  | nil => rfl
  | cons i path =>
    rw [unshift]
    split_ifs with hi
    · rw [descendFrom?, descendFrom?, List.getElem?_append_left hi]
      rfl
    · rw [descendFrom?, descendFrom?, List.getElem?_append_right (Nat.le_of_not_lt hi),
        List.getElem?_cons_succ]

/-- A path ends at the first node or goes on from its children or the rest of the stack. -/
theorem descendFrom?_cons (h : s.descendFrom? (id :: stack) path = some x) :
    path = [0] ∧ x = id ∨ ∃ path', path = unshift (s.children id).length path' ∧
      s.descendFrom? (s.children id ++ stack) path' = some x := by
  suffices H : path = [0] ∧ x = id ∨ ∃ path', path = unshift (s.children id).length path' by
    refine H.imp_right ?_
    rintro ⟨path', rfl⟩
    exact ⟨path', rfl, (s.descendFrom?_unshift id stack path').symm.trans h⟩
  match path, h with
  | [0], h => exact Or.inl ⟨rfl, (Option.some.inj h).symm⟩
  | 0 :: i :: path, h =>
    obtain ⟨c, hc, -⟩ :=
      Option.bind_eq_some_iff.mp (show (s.children id)[i]?.bind _ = some x from h)
    have hi := (List.getElem?_eq_some_iff.mp hc).1
    exact Or.inr ⟨i :: path, by rw [unshift, if_pos hi]⟩
  | (i + 1) :: path, _ =>
    refine Or.inr ⟨((s.children id).length + i) :: path, ?_⟩
    rw [unshift, if_neg (by omega), Nat.add_sub_cancel_left]

theorem exists_descendFrom? (ha : a ∈ stack) (h : s.Reached a x) :
    ∃ path, s.descendFrom? stack path = some x := by
  obtain ⟨i, hi⟩ := List.mem_iff_getElem?.mp ha
  obtain ⟨path, hpath⟩ := h
  exact ⟨i :: path, Option.bind_eq_some_iff.mpr ⟨a, hi, hpath⟩⟩

theorem reached_of_descendFrom? (h : s.descendFrom? stack path = some x) :
    ∃ a ∈ stack, s.Reached a x := by
  cases path with
  | nil => cases h
  | cons i path =>
    obtain ⟨a, ha, hpath⟩ := Option.bind_eq_some_iff.mp h
    exact ⟨a, List.mem_of_getElem? ha, path, hpath⟩

/-- No path through the children or the rest of the stack leads back to the first node, and no two
of them lead to the same node. -/
theorem reachedOnceFrom_cons : s.ReachedOnceFrom (id :: stack) ↔
    (∀ a ∈ s.children id ++ stack, ¬ s.Reached a id) ∧
      s.ReachedOnceFrom (s.children id ++ stack) := by
  constructor
  · intro h
    constructor
    · intro a ha hid
      obtain ⟨path, hpath⟩ := exists_descendFrom? ha hid
      rw [← descendFrom?_unshift] at hpath
      exact unshift_ne_singleton _ _ (h _ [0] id hpath rfl)
    · intro path path' x hpath hpath'
      rw [← descendFrom?_unshift] at hpath hpath'
      exact unshift_injective _ (h _ _ x hpath hpath')
  · rintro ⟨hid, h⟩ path path' x hpath hpath'
    have hne : ∀ {path}, s.descendFrom? (s.children id ++ stack) path ≠ some id := by
      intro path hpath
      obtain ⟨a, ha, hid'⟩ := reached_of_descendFrom? hpath
      exact hid a ha hid'
    rcases descendFrom?_cons hpath with ⟨rfl, rfl⟩ | ⟨q, rfl, hq⟩ <;>
      rcases descendFrom?_cons hpath' with ⟨rfl, h'⟩ | ⟨q', rfl, hq'⟩
    · rfl
    · exact absurd hq' hne
    · exact absurd (h' ▸ hq) hne
    · rw [h q q' x hq hq']

theorem reachedOnceFrom_singleton : s.ReachedOnceFrom [id] ↔ s.ReachedOnce id := by
  constructor
  · intro h path path' x hpath hpath'
    exact (List.cons.inj (h (0 :: path) (0 :: path') x hpath hpath')).2
  · intro h path path' x hpath hpath'
    match path, path', hpath, hpath' with
    | 0 :: path, 0 :: path', hpath, hpath' => rw [h path path' x hpath hpath']

theorem Traversal.nodup_iff (h : s.Traversal stack l) : l.Nodup ↔ s.ReachedOnceFrom stack := by
  induction h with
  | nil =>
    refine iff_of_true List.nodup_nil ?_
    intro path _ x hpath
    obtain ⟨a, ha, -⟩ := reached_of_descendFrom? hpath
    cases ha
  | @cons id stack l h ih =>
    rw [List.nodup_cons, reachedOnceFrom_cons, ih, h.mem_iff_reached]
    simp only [not_exists, not_and]

/-- A traversal meets no node twice if and only if no two paths lead to the same node. -/
theorem Traversal.nodup_iff_reachedOnce (h : s.Traversal [id] l) : l.Nodup ↔ s.ReachedOnce id :=
  h.nodup_iff.trans reachedOnceFrom_singleton

/-! ## Traversals of finitely many nodes -/

/-- If nodes are reached once, the nodes on the way of a path are different ones. So a path is
shorter than there are nodes. -/
theorem ReachedOnce.length_lt (h : s.ReachedOnce id) (hn : ∀ x, s.Reached id x → x.index < n)
    (hpath : s.descend? id path = some x) : path.length < n := by
  have hnode (i : ℕ) : ∃ y, s.descend? id (path.take i) = some y := by
    rw [← List.take_append_drop i path, descend?_append] at hpath
    obtain ⟨y, hy, -⟩ := Option.bind_eq_some_iff.mp hpath
    exact ⟨y, hy⟩
  choose node hnode using hnode
  let f : Fin (path.length + 1) → Fin n := fun i => ⟨(node i).index, hn _ ⟨_, hnode i⟩⟩
  have hf : Function.Injective f := by
    intro i j hij
    have hij : node i = node j := (NodeId.mk.injEq _ _).mpr (Fin.mk.inj hij)
    have htake := congrArg List.length (h _ _ _ (hnode i) (hij ▸ hnode j))
    rw [List.length_take, List.length_take] at htake
    omega
  have hcard := Fintype.card_le_of_injective f hf
  rwa [Fintype.card_fin, Fintype.card_fin] at hcard

/-- If finitely many nodes are reached and each once, the traversal from the node comes to an
end. -/
theorem ReachedOnce.exists_traversal (h : s.ReachedOnce id)
    (hn : ∀ x, s.Reached id x → x.index < n) : ∃ l, s.Traversal [id] l := by
  -- Paths end before `n` steps, so the induction is on how many steps are left.
  suffices H : ∀ k path x, s.descend? id path = some x → n ≤ path.length + k →
      ∃ l, s.Traversal [x] l from H n [] id rfl (Nat.le_add_left ..)
  intro k
  induction k with
  | zero =>
    intro path x hpath hlen
    exact absurd (h.length_lt hn hpath) (Nat.not_lt.mpr hlen)
  | succ k ih =>
    intro path x hpath hlen
    obtain ⟨l, hl⟩ : ∃ l, s.Traversal (s.children x) l := by
      refine exists_traversal_of_forall fun c hc => ?_
      obtain ⟨i, hi⟩ := List.mem_iff_getElem?.mp hc
      refine ih (path ++ [i]) c ?_ (by rw [List.length_append, List.length_singleton]; omega)
      rw [descend?_append, hpath, Option.bind_some, descend?, hi]
      rfl
    exact ⟨x :: l, .cons (by rwa [List.append_nil])⟩

end ParseTree.Shape
