import ParseTree.Proofs.Tree.Content

/-!
# Trees with attributed lookahead

A composite owns tokens. For those that have a leaf, the leaf is among its lookahead leaves; for the
others, it waits. Making a leaf, handing out a token and putting one composite in the place of
another keep both in step.

## Main definitions

* `Attributed`: lookahead leaves and waiting lists say which tokens each composite owns

## Main results

* `Attributed.resolve`: the leaf of the next token is made
* `Attributed.claimAll`: a composite is handed tokens
* `Attributed.transfer`: one composite takes the place of another
* `Attributed.unresolved_eq_zero`: once all tokens have a leaf, nothing waits
-/

namespace ParseTree

/-- The first `n` of `m` tokens have a leaf each. The lookahead leaves of a composite are those of
the tokens that it owns; for the tokens without a leaf, it waits. -/
structure Attributed (m n : ℕ) (owns : NodeId → ℕ → Prop) (a : Attribution) (t : Tree) :
    Prop where
  /-- There is a place for the leaf of every token. -/
  size : a.leaves.size = m
  /-- The first tokens have one. -/
  made : ∀ i, (a.leafOf? i).isSome ↔ i < n
  /-- It is a leaf of the tree that stands for the token. -/
  leaf : ∀ i x, a.leafOf? i = some x ↔ (t.node x).leaf?.map (·.token) = some i
  /-- Composites own tokens of the stream. -/
  owner : ∀ c i, owns c i → t.IsComposite c ∧ i < m
  /-- The lookahead leaves are those of the owned tokens. -/
  lookahead : ∀ c x, x ∈ t.lookaheadLeaves c ↔ ∃ i, a.leafOf? i = some x ∧ owns c i
  /-- None is listed twice. -/
  nodup : t.NodupLookahead
  /-- Owned tokens without a leaf are waited for. -/
  waiting : ∀ c i, c ∈ a.waiting i ↔ a.leafOf? i = none ∧ owns c i
  /-- No other entries are kept. -/
  awaited : ∀ i, a.IsAwaited i → a.leafOf? i = none ∧ i < m

namespace Attributed

variable {m n : ℕ} {owns owns' : NodeId → ℕ → Prop} {a : Attribution} {t t' : Tree}

theorem congr (h : Attributed m n owns a t) (ho : ∀ c i, owns c i ↔ owns' c i) :
    Attributed m n owns' a t := by
  have heq : owns = owns' := funext₂ fun c i => propext (ho c i)
  exact heq ▸ h

theorem le_size (h : Attributed m n owns a t) : n ≤ m := by
  by_contra hn
  have hsome := (h.made m).mpr (Nat.lt_of_not_le hn)
  rw [Attribution.leafOf?, ← h.size, Array.getElem?_eq_none (Nat.le_refl _)] at hsome
  cases hsome

/-- The lookahead leaves of a composite are the leaves of the tokens that it owns. -/
theorem mem_lookaheadLeaves_iff (h : Attributed m n owns a t) {c x : NodeId} :
    x ∈ t.lookaheadLeaves c ↔ ∃ i, (t.node x).leaf?.map (·.token) = some i ∧ owns c i := by
  simp only [h.lookahead, h.leaf]

/-- Once all tokens have a leaf, nothing waits. -/
theorem unresolved_eq_zero (h : Attributed m m owns a t) : a.unresolved = 0 := by
  apply Attribution.unresolved_eq_zero
  intro i hi
  obtain ⟨hnone, hlt⟩ := h.awaited i hi
  have hsome := (h.made i).mpr hlt
  rw [hnone] at hsome
  cases hsome

/-- At the start no token has a leaf, and none is owned. -/
theorem start (m : ℕ) (h : ∀ c i, ¬ owns c i) : Attributed m 0 owns (.start m) .empty := by
  have hnone (i : ℕ) : (Attribution.start m).leafOf? i = none := by
    rw [Attribution.leafOf?, Attribution.start, Array.getElem?_replicate]
    split_ifs <;> rfl
  have hlookahead (c : NodeId) : Tree.empty.lookaheadLeaves c = [] := by
    rw [Tree.lookaheadLeaves, Tree.node_empty]
    rfl
  refine ⟨Array.size_replicate, ?_, ?_, fun c i ho => absurd ho (h c i), ?_, ?_, ?_, ?_⟩
  · intro i
    simp [hnone]
  · intro i x
    rw [hnone, Tree.node_empty]
    simp [Node.leaf?, Node.detached]
  · intro c x
    simp [hlookahead, hnone]
  · intro x
    rw [hlookahead]
    exact List.nodup_nil
  · intro c i
    simp [h, Attribution.waiting, Attribution.start]
  · intro i hi
    obtain ⟨entry, hentry, -⟩ := hi
    cases hentry

/-- All that counts of the tree are its leaves, composites and lookahead. -/
theorem of_tree (h : Attributed m n owns a t) (hl : ∀ x, (t'.node x).leaf? = (t.node x).leaf?)
    (hc : ∀ x, t.IsComposite x → t'.IsComposite x)
    (hla : ∀ x, t'.lookaheadLeaves x = t.lookaheadLeaves x) : Attributed m n owns a t' where
  size := h.size
  made := h.made
  leaf i x := by rw [hl, h.leaf]
  owner c i ho := ⟨hc c (h.owner c i ho).1, (h.owner c i ho).2⟩
  lookahead c x := by rw [hla, h.lookahead]
  nodup x := by rw [hla]; exact h.nodup x
  waiting := h.waiting
  awaited := h.awaited

/-- The next token has no leaf. -/
theorem leafOf?_eq_none (h : Attributed m n owns a t) : a.leafOf? n = none := by
  rw [← Option.not_isSome_iff_eq_none, h.made]
  exact Nat.lt_irrefl n

/-- What waits for a token is a composite. -/
theorem isComposite_of_waiting (h : Attributed m n owns a t) (x : NodeId) {p : NodeId × NodeId}
    (hp : p ∈ (a.waiting n).map (·, x)) : t.IsComposite p.1 := by
  obtain ⟨c, hc, rfl⟩ := List.mem_map.mp hp
  exact (h.owner c n ((h.waiting c n).mp hc).2).1

/-- The composites that wait for the next token are those that own it, so when they get its leaf,
every composite has the leaves of what it owns. -/
theorem exists_owned_iff (h : Attributed m n owns a t) (x₀ c x : NodeId) :
    (∃ i, (if i = n then some x₀ else a.leafOf? i) = some x ∧ owns c i) ↔
      x ∈ t.lookaheadLeaves c ∨ (c, x) ∈ (a.waiting n).map (·, x₀) := by
  rw [h.lookahead]
  constructor
  · rintro ⟨i, hix, ho⟩
    split_ifs at hix with hin
    · obtain rfl := Option.some.inj hix
      refine Or.inr (List.mem_map.mpr ⟨c, ?_, rfl⟩)
      exact (h.waiting c n).mpr ⟨h.leafOf?_eq_none, hin ▸ ho⟩
    · exact Or.inl ⟨i, hix, ho⟩
  · rintro (⟨i, hix, ho⟩ | hmem)
    · have hin : i ≠ n := by
        rintro rfl
        cases h.leafOf?_eq_none.symm.trans hix
      exact ⟨i, (if_neg hin).trans hix, ho⟩
    · obtain ⟨c', hc', heq⟩ := List.mem_map.mp hmem
      obtain ⟨rfl, rfl⟩ := Prod.mk.inj heq
      exact ⟨n, if_pos rfl, ((h.waiting c' n).mp hc').2⟩

/-- The leaf of the next token is made, and all composites that wait for it get it. -/
theorem resolve {x₀ : NodeId} {l : Leaf} (h : Attributed m n owns a t) (hn : n < m)
    (hl : ∀ x, (t'.node x).leaf? = if x = x₀ then some l else (t.node x).leaf?)
    (hi : l.token = n) (hx₀ : (t.node x₀).leaf? = none)
    (hc : ∀ x, t.IsComposite x → t'.IsComposite x)
    (hla : ∀ x, t'.lookaheadLeaves x = t.lookaheadLeaves x) :
    Attributed m (n + 1) owns (a.resolve t' n x₀).1 (a.resolve t' n x₀).2 := by
  have hleafOf (i : ℕ) : (a.resolve t' n x₀).1.leafOf? i =
      if i = n then some x₀ else a.leafOf? i :=
    Attribution.leafOf?_resolve (h.size.symm ▸ hn)
  have htree : (a.resolve t' n x₀).2 = t'.addLookaheadLeaves ((a.waiting n).map (·, x₀)) :=
    (Tree.addLookaheadLeaves_map_leaf ..).symm
  have hwaiting : ∀ p ∈ (a.waiting n).map (·, x₀), t'.IsComposite p.1 := fun p hp =>
    hc p.1 (h.isComposite_of_waiting x₀ hp)
  have hsame := Tree.sameButLookahead_addLookaheadLeaves t' ((a.waiting n).map (·, x₀))
  rw [htree]
  constructor
  case size =>
    exact (Array.size_setIfInBounds ..).trans h.size
  case made =>
    intro i
    rw [hleafOf]
    split_ifs with hin
    · simp [hin]
    · rw [h.made]
      omega
  case leaf =>
    intro i x
    rw [hleafOf, hsame.leaf?, hl]
    by_cases hin : i = n
    · by_cases hx : x = x₀
      · simp [hin, hx, hi]
      · rw [if_pos hin, if_neg hx, hin, ← h.leaf, h.leafOf?_eq_none]
        simp [Ne.symm hx]
    · by_cases hx : x = x₀
      · rw [if_neg hin, if_pos hx, h.leaf, hx, hx₀]
        simp [hi, Ne.symm hin]
      · rw [if_neg hin, if_neg hx, h.leaf]
  case owner =>
    intro c i ho
    exact ⟨(hsame.toSameNodes.isComposite_iff c).mpr (hc c (h.owner c i ho).1), (h.owner c i ho).2⟩
  case lookahead =>
    intro c x
    simp only [hleafOf]
    rw [Tree.mem_lookaheadLeaves_addLookaheadLeaves hwaiting, hla, h.exists_owned_iff]
  case nodup =>
    refine Tree.NodupLookahead.addLookaheadLeaves ?_ hwaiting
    intro x
    rw [hla]
    exact h.nodup x
  case waiting =>
    intro c i
    rw [Attribution.waiting_resolve, hleafOf]
    split_ifs with hin
    · simp
    · exact h.waiting c i
  case awaited =>
    intro i hai
    obtain ⟨hai, hin⟩ := Attribution.isAwaited_resolve.mp hai
    rw [hleafOf, if_neg hin]
    exact h.awaited i hai

theorem isComposite_of_claim {composite : NodeId} {token : ℕ} (h : Attributed m n owns a t)
    (hc : t.IsComposite composite) (ht : token < m) {c : NodeId} {i : ℕ}
    (ho : owns c i ∨ c = composite ∧ i = token) : t.IsComposite c ∧ i < m := by
  rcases ho with ho | ⟨rfl, rfl⟩
  · exact h.owner c i ho
  · exact ⟨hc, ht⟩

/-- A composite is handed a token that has a leaf, which it takes among its lookahead leaves. -/
theorem addLookaheadLeaf {composite leaf : NodeId} {token : ℕ} (h : Attributed m n owns a t)
    (hc : t.IsComposite composite) (ht : token < m) (hleaf : a.leafOf? token = some leaf) :
    Attributed m n (fun c i => owns c i ∨ c = composite ∧ i = token) a
      (t.addLookaheadLeaf composite leaf) := by
  have hsame := Tree.sameButLookahead_addLookaheadLeaf t composite leaf
  constructor
  case size => exact h.size
  case made => exact h.made
  case leaf =>
    intro i x
    rw [hsame.leaf?, h.leaf]
  case owner =>
    intro c i ho
    obtain ⟨hcomposite, hi⟩ := h.isComposite_of_claim hc ht ho
    exact ⟨(hsame.toSameNodes.isComposite_iff c).mpr hcomposite, hi⟩
  case lookahead =>
    intro c x
    rw [Tree.mem_lookaheadLeaves_addLookaheadLeaf, h.lookahead]
    constructor
    · rintro (⟨i, hi, ho⟩ | ⟨-, rfl, rfl⟩)
      · exact ⟨i, hi, Or.inl ho⟩
      · exact ⟨token, hleaf, Or.inr ⟨rfl, rfl⟩⟩
    · rintro ⟨i, hi, ho | ⟨rfl, rfl⟩⟩
      · exact Or.inl ⟨i, hi, ho⟩
      · exact Or.inr ⟨hc, rfl, Option.some.inj (hi.symm.trans hleaf)⟩
  case nodup => exact h.nodup.addLookaheadLeaf hc leaf
  case waiting =>
    intro c i
    rw [h.waiting]
    refine and_congr_right fun hi => ⟨Or.inl, fun ho => ho.resolve_right ?_⟩
    rintro ⟨-, rfl⟩
    rw [hleaf] at hi
    cases hi
  case awaited => exact h.awaited

/-- A composite is handed a token that has no leaf, for which it waits. -/
theorem defer {composite : NodeId} {token : ℕ} (h : Attributed m n owns a t)
    (hc : t.IsComposite composite) (ht : token < m) (hleaf : a.leafOf? token = none) :
    Attributed m n (fun c i => owns c i ∨ c = composite ∧ i = token)
      (a.defer token composite) t := by
  constructor
  case size =>
    rw [Attribution.defer]
    split_ifs <;> exact h.size
  case made =>
    intro i
    rw [Attribution.leafOf?_defer]
    exact h.made i
  case leaf =>
    intro i x
    rw [Attribution.leafOf?_defer]
    exact h.leaf i x
  case owner =>
    intro c i ho
    exact h.isComposite_of_claim hc ht ho
  case lookahead =>
    intro c x
    simp only [Attribution.leafOf?_defer]
    rw [h.lookahead]
    refine exists_congr fun i => and_congr_right fun hi => ⟨Or.inl, fun ho => ho.resolve_right ?_⟩
    rintro ⟨-, rfl⟩
    rw [hleaf] at hi
    cases hi
  case nodup => exact h.nodup
  case waiting =>
    intro c i
    rw [Attribution.mem_waiting_defer, Attribution.leafOf?_defer, h.waiting, and_or_left]
    refine or_congr_right ⟨?_, And.right⟩
    rintro ⟨rfl, rfl⟩
    exact ⟨hleaf, rfl, rfl⟩
  case awaited =>
    intro i hi
    rw [Attribution.leafOf?_defer]
    rcases Attribution.isAwaited_of_defer hi with hi | rfl
    · exact h.awaited i hi
    · exact ⟨hleaf, ht⟩

/-- A composite is handed a token, whether its leaf was made or not. -/
theorem claim {composite : NodeId} {token : ℕ} (h : Attributed m n owns a t)
    (hc : t.IsComposite composite) (ht : token < m) :
    Attributed m n (fun c i => owns c i ∨ c = composite ∧ i = token)
      (Attribution.claim composite (a, t) token).1
      (Attribution.claim composite (a, t) token).2 := by
  rw [Attribution.claim]
  cases hleaf : a.leafOf? token with
  | some leaf => exact h.addLookaheadLeaf hc ht hleaf
  | none => exact h.defer hc ht hleaf

theorem foldl_claim {composite : NodeId} {l : List ℕ} {s : Attribution × Tree}
    (h : Attributed m n owns s.1 s.2) (hc : s.2.IsComposite composite) (hl : ∀ i ∈ l, i < m) :
    Attributed m n (fun c i => owns c i ∨ c = composite ∧ i ∈ l)
      (l.foldl (Attribution.claim composite) s).1 (l.foldl (Attribution.claim composite) s).2 := by
  induction l generalizing s owns with
  | nil => exact h.congr fun c i => by simp
  | cons token l ih =>
    have hsame := (Attribution.sameButLookahead_claim composite s token).toSameNodes
    have h' := ih (h.claim hc (hl token List.mem_cons_self))
      ((hsame.isComposite_iff composite).mpr hc) fun i hi => hl i (List.mem_cons_of_mem _ hi)
    exact h'.congr fun c i => by rw [or_assoc, ← and_or_left, List.mem_cons]

/-- A composite is handed tokens, one after the other. -/
theorem claimAll {composite : NodeId} {tokens : List Token} (h : Attributed m n owns a t)
    (hc : t.IsComposite composite) (ht : ∀ i ∈ tokens.filterMap (·.index), i < m) :
    Attributed m n (fun c i => owns c i ∨ c = composite ∧ i ∈ tokens.filterMap (·.index))
      (a.claimAll t composite tokens).1 (a.claimAll t composite tokens).2 :=
  foldl_claim (s := (a, t)) h hc ht

/-- One composite takes the place of another: it owns what that one owned. -/
theorem transfer {source target : NodeId} (h : Attributed m n owns a t) (t₀ : Tree)
    (hl : ∀ x, (t'.node x).leaf? = (t.node x).leaf?)
    (hc : ∀ x, t.IsComposite x → t'.IsComposite x) (ht : t'.IsComposite target)
    (hla : ∀ c x, x ∈ t'.lookaheadLeaves c ↔
      c ≠ source ∧ x ∈ t.lookaheadLeaves c ∨ c = target ∧ x ∈ t.lookaheadLeaves source)
    (hn : t'.NodupLookahead) :
    Attributed m n (fun c i => c ≠ source ∧ owns c i ∨ c = target ∧ owns source i)
      (a.transfer t₀ source target).1 t' where
  size := h.size
  made i := by rw [Attribution.leafOf?_transfer, h.made]
  leaf i x := by rw [Attribution.leafOf?_transfer, hl, h.leaf]
  owner c i ho := by
    rcases ho with ⟨-, ho⟩ | ⟨rfl, ho⟩
    · exact ⟨hc c (h.owner c i ho).1, (h.owner c i ho).2⟩
    · exact ⟨ht, (h.owner source i ho).2⟩
  lookahead c x := by
    rw [hla, h.lookahead, h.lookahead]
    simp only [Attribution.leafOf?_transfer, and_or_left, exists_or, exists_and_left,
      and_left_comm]
  nodup := hn
  waiting c i := by
    rw [Attribution.mem_waiting_transfer, Attribution.leafOf?_transfer, h.waiting, h.waiting,
      and_or_left]
    exact or_congr and_left_comm and_left_comm
  awaited i hi := by
    rw [Attribution.leafOf?_transfer]
    exact h.awaited i (Attribution.isAwaited_transfer.mp hi)

end Attributed

end ParseTree
