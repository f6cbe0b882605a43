import ParseTree.Proofs.Tree.Contracts

/-!
# Lookahead in a tree and a contracted one

A composite that stands for a chain waits for the leaves that the composites of the chain wait for.
Handing out lookahead keeps that so.

## Main definitions

* `Attribution.Contracts`: the leaves are the same, and chains wait as one

## Main results

* `contracts_claimAll`, `contracts_resolve`, `contracts_transfer`: lookahead is handed out in both
  trees
* `contracts_absorb`: one more merge joins two chains
-/

namespace ParseTree.Attribution

/-- The leaves made so far are the same, and a chain waits for what its composites wait for. -/
structure Contracts (h : Chains) (a b : Attribution) : Prop where
  /-- The tokens have the same leaves. -/
  leaves : a.leaves = b.leaves
  /-- The first node of a chain waits for what any of them waits for. -/
  waiting : ∀ token x, x ∈ a.waiting token ↔ ∃ c ∈ h.chain x, c ∈ b.waiting token

variable {h : Chains} {a b : Attribution} {t u : Tree} {id child c x leaf source target : NodeId}
  {token : ℕ}

theorem contracts_start (h : Chains) (size : ℕ) : Contracts h (.start size) (.start size) where
  leaves := rfl
  waiting token x := by simp [start, Attribution.waiting]

section

variable (ha : Contracts h a b) (ht : t.Contracts h u)

include ha

theorem Contracts.leafOf? (token : ℕ) : a.leafOf? token = b.leafOf? token := by
  rw [Attribution.leafOf?, Attribution.leafOf?, ha.leaves]

theorem Contracts.defer (hs : h.chain c = [c]) (token : ℕ) :
    Contracts h (a.defer token c) (b.defer token c) where
  leaves := by
    rw [Attribution.defer, Attribution.defer]
    split_ifs <;> exact ha.leaves
  waiting other x := by
    simp only [mem_waiting_defer, ha.waiting, and_or_left, exists_or]
    refine or_congr_right ⟨?_, ?_⟩
    · rintro ⟨rfl, rfl⟩
      exact ⟨x, by simp [hs], rfl, rfl⟩
    · rintro ⟨d, hd, rfl, rfl⟩
      exact ⟨(Chains.mem_chain_of_single hs).mp hd, rfl⟩

include ht

/-- A composite with a chain of its own is handed a token in both trees. -/
theorem contracts_claim (hu : u.shape.WellFormed) (hs : h.chain c = [c]) (token : ℕ) :
    Contracts h (claim c (a, t) token).1 (claim c (b, u) token).1 ∧
      (claim c (a, t) token).2.Contracts h (claim c (b, u) token).2 := by
  rw [claim, claim]
  dsimp only
  rw [ha.leafOf? token]
  cases b.leafOf? token with
  | none => exact ⟨ha.defer hs token, ht⟩
  | some leaf =>
    refine ⟨ha, ht.relabel (Tree.sameButLookahead_addLookaheadLeaf t c leaf)
      (Tree.sameButLookahead_addLookaheadLeaf u c leaf) fun x y => ?_⟩
    have hcomposite : t.IsComposite c ↔ u.IsComposite c := by
      have := ht.isComposite_head_iff hu c
      rwa [Chains.head_of_single hs] at this
    simp only [Tree.mem_lookaheadLeaves_addLookaheadLeaf, ht.lookahead, and_or_left, exists_or]
    refine or_congr_right ⟨?_, ?_⟩
    · rintro ⟨hx, rfl, rfl⟩
      exact ⟨x, by simp [hs], hcomposite.mp hx, rfl, rfl⟩
    · rintro ⟨d, hd, hdc, rfl, rfl⟩
      obtain rfl := (Chains.mem_chain_of_single hs).mp hd
      exact ⟨hcomposite.mpr hdc, rfl, rfl⟩

/-- A composite with a chain of its own is handed tokens in both trees. -/
theorem contracts_claimAll (hu : u.shape.WellFormed) (hs : h.chain c = [c]) (tokens : List Token) :
    Contracts h (a.claimAll t c tokens).1 (b.claimAll u c tokens).1 ∧
      (a.claimAll t c tokens).2.Contracts h (b.claimAll u c tokens).2 := by
  rw [claimAll, claimAll]
  generalize tokens.filterMap (·.index) = l
  induction l generalizing a b t u with
  | nil => exact ⟨ha, ht⟩
  | cons token l ih =>
    obtain ⟨ha', ht'⟩ := contracts_claim ha ht hu hs token
    refine ih ha' ht' ?_
    show (claim c (b, u) token).2.shape.WellFormed
    rw [(sameButLookahead_claim c (b, u) token).shape]
    exact hu

/-- The leaf of a token is made in both trees. -/
theorem contracts_resolve (hu : u.shape.WellFormed) (token : ℕ) (leaf : NodeId) :
    Contracts h (a.resolve t token leaf).1 (b.resolve u token leaf).1 ∧
      (a.resolve t token leaf).2.Contracts h (b.resolve u token leaf).2 := by
  have htree (a : Attribution) (t : Tree) : (a.resolve t token leaf).2 =
      t.addLookaheadLeaves ((a.waiting token).map (·, leaf)) := by
    rw [Tree.addLookaheadLeaves_map_leaf]
    rfl
  refine ⟨⟨?_, ?_⟩, ?_⟩
  · rw [resolve, resolve, ha.leaves]
  · intro other x
    simp only [waiting_resolve]
    split_ifs
    · simp
    · exact ha.waiting other x
  · rw [htree, htree]
    refine ht.relabel (Tree.sameButLookahead_addLookaheadLeaves ..)
      (Tree.sameButLookahead_addLookaheadLeaves ..) fun x y => ?_
    simp only [Tree.mem_lookaheadLeaves_addLookaheadLeaves_iff, ht.lookahead, and_or_left,
      exists_or, List.mem_map, Prod.mk.injEq, ha.waiting]
    refine or_congr_right ⟨?_, ?_⟩
    · rintro ⟨hx, _, ⟨d, hd, hw⟩, rfl, rfl⟩
      rw [← (h.mem_chain_iff d _).mp hd, ht.isComposite_head_iff hu] at hx
      exact ⟨d, hd, hx, d, hw, rfl, rfl⟩
    · rintro ⟨d, hd, hx, _, hw, rfl, rfl⟩
      rw [← ht.isComposite_head_iff hu, (h.mem_chain_iff _ x).mp hd] at hx
      exact ⟨hx, x, ⟨_, hd, hw⟩, rfl, rfl⟩

end

/-! ## One composite in the place of another -/

section Transfer

variable {P Q : NodeId → Prop} (hPQ : ∀ x, P x ↔ ∃ c ∈ h.chain x, Q c)

include hPQ

/-- What passes from one node with a chain of its own to another passes between their chains. -/
theorem passes_iff (hs : h.chain source = [source]) (ht : h.chain target = [target]) (x : NodeId) :
    x ≠ source ∧ P x ∨ x = target ∧ P source ↔
      ∃ c ∈ h.chain x, c ≠ source ∧ Q c ∨ c = target ∧ Q source := by
  have hsource : P source ↔ Q source := by simp [hPQ, hs]
  rw [hPQ, hsource]
  constructor
  · rintro (⟨hx, c, hc, hQ⟩ | ⟨rfl, hQ⟩)
    · refine ⟨c, hc, Or.inl ⟨?_, hQ⟩⟩
      rintro rfl
      exact hx ((Chains.mem_chain_of_single hs).mp hc)
    · exact ⟨x, by simp [ht], Or.inr ⟨rfl, hQ⟩⟩
  · rintro ⟨c, hc, ⟨hcs, hQ⟩ | ⟨rfl, hQ⟩⟩
    · refine Or.inl ⟨?_, c, hc, hQ⟩
      rintro rfl
      rw [hs, List.mem_singleton] at hc
      exact hcs hc
    · exact Or.inr ⟨(Chains.mem_chain_of_single ht).mp hc, hQ⟩

/-- What passes from a chain to the one that it is joined to is there afterwards. -/
theorem passes_join_iff (hid : h.head id = id) (hne : child ≠ id) (x : NodeId) :
    x ≠ child ∧ P x ∨ x = id ∧ P child ↔ ∃ c ∈ (h.join id child hid hne).chain x, Q c := by
  rw [Chains.chain_join, hPQ, hPQ]
  by_cases hx : x = id
  · simp [hx, hne.symm, or_and_right, exists_or]
  · by_cases hxc : x = child
    · simp [hxc, hne]
    · simp [hx, hxc]

end Transfer

variable (ha : Contracts h a b) (ht : t.Contracts h u)

include ha ht

/-- One composite takes the place of another in both trees. -/
theorem contracts_transfer (htarget : t.IsComposite target) (hu : u.IsComposite target)
    (hs : h.chain source = [source]) (hs' : h.chain target = [target]) :
    Contracts h (a.transfer t source target).1 (b.transfer u source target).1 ∧
      (a.transfer t source target).2.Contracts h (b.transfer u source target).2 := by
  refine ⟨⟨ha.leaves, fun token x => ?_⟩, ?_⟩
  · simp only [mem_waiting_transfer]
    exact passes_iff (ha.waiting token) hs hs' x
  · refine ht.relabel (Tree.sameButLookahead_moveLookaheadLeaves t source target)
      (Tree.sameButLookahead_moveLookaheadLeaves u source target) fun x y => ?_
    simp only [transfer, Tree.mem_lookaheadLeaves_moveLookaheadLeaves htarget,
      Tree.mem_lookaheadLeaves_moveLookaheadLeaves hu]
    exact passes_iff (fun x => ht.lookahead x y) hs hs' x

/-- Merging a composite with its only child in the contracted tree joins two chains. -/
theorem contracts_absorb (hw : t.shape.WellFormed) (hm : t.Mergeable id child)
    (hid : h.head id = id) :
    Contracts (h.join id child hid (hm.ne hw)) (a.transfer (t.absorb id child) child id).1 b ∧
      (a.transfer (t.absorb id child) child id).2.Contracts (h.join id child hid (hm.ne hw)) u := by
  have htree := ht.absorb hw hm hid
  refine ⟨⟨ha.leaves, fun token x => ?_⟩, ?_⟩
  · rw [mem_waiting_transfer]
    exact passes_join_iff (ha.waiting token) hid (hm.ne hw) x
  · have hcomposite : (t.absorb id child).IsComposite id := by
      refine ⟨?_, (Tree.leaf?_absorb hw hm id).trans (hm.leaf?_id hw)⟩
      rw [Tree.Contains, Tree.size_absorb]
      exact hm.contains_id hw
    refine htree.relabel (Tree.sameButLookahead_moveLookaheadLeaves _ child id) (.refl u)
      fun x y => ?_
    show y ∈ ((t.absorb id child).moveLookaheadLeaves child id).lookaheadLeaves x ↔ _
    rw [Tree.mem_lookaheadLeaves_moveLookaheadLeaves hcomposite, htree.lookahead, htree.lookahead,
      Chains.chain_join, Chains.chain_join, if_neg (hm.ne hw), if_pos rfl]
    by_cases hx : x = child
    · simp [hx, hm.ne hw]
    · simp [hx]

end ParseTree.Attribution
