import Mathlib.Data.List.Nodup
import ParseTree.Tree.Attribution

/-!
# Composites that wait for leaves

A composite that is handed a token without a leaf waits for it. The entries say who waits for which
token; all that counts of them is who waits and for what.

## Main definitions

* `Attribution.IsAwaited`: there is an entry for a token

## Main results

* `mem_waiting_defer`, `waiting_resolve`, `mem_waiting_transfer`: who waits after an operation
* `leafOf?_resolve`: the leaf of a token after it was made
* `isAwaited_of_defer`, `isAwaited_resolve`, `isAwaited_transfer`: the entries after an operation
-/

namespace ParseTree.Attribution

/-! ## Lists without duplicates -/

/-- The list with an item that was not there is the list with it at the end. -/
theorem mem_adjoin {x y : NodeId} {l : List NodeId} :
    x ∈ adjoin y l ↔ x ∈ l ∨ x = y := by
  unfold adjoin
  split_ifs with h
  · exact ⟨Or.inl, fun hx => hx.elim id fun hx => hx ▸ h⟩
  · simp

theorem nodup_adjoin {y : NodeId} {l : List NodeId} (h : l.Nodup) :
    (adjoin y l).Nodup := by
  unfold adjoin
  split_ifs with hy
  · exact h
  · exact List.concat_eq_append ▸ h.concat hy

/-! ## Entries -/

section Entries

variable {α : Type} {key : ℕ}

/-- A change of the values leaves the keys alone. -/
theorem lookup_map_value (f : ℕ → α → α) (l : List (ℕ × α)) (key : ℕ) :
    (l.map fun entry => (entry.1, f entry.1 entry.2)).lookup key = (l.lookup key).map (f key) := by
  induction l with
  | nil => rfl
  | cons entry l ih =>
    rw [List.map_cons, List.lookup_cons, List.lookup_cons, ih]
    by_cases h : key = entry.1
    · rw [h, beq_self_eq_true]
      rfl
    · rw [beq_eq_false_iff_ne.mpr h]

theorem lookup_filter_fst_ne (l : List (ℕ × α)) (token key : ℕ) :
    (l.filter (·.1 != token)).lookup key = if key = token then none else l.lookup key := by
  induction l with
  | nil => simp
  | cons entry l ih =>
    obtain ⟨k, v⟩ := entry
    by_cases ht : k = token
    · rw [List.filter_cons_of_neg (by simp [ht]), ih, List.lookup_cons]
      split_ifs with hk
      · rfl
      · rw [beq_eq_false_iff_ne.mpr fun h => hk (h.trans ht)]
    · rw [List.filter_cons_of_pos (by simp [ht]), List.lookup_cons, List.lookup_cons, ih]
      by_cases hk : key = k
      · rw [if_neg fun h => ht (hk.symm.trans h), hk, beq_self_eq_true, if_neg ht]
      · rw [beq_eq_false_iff_ne.mpr hk]

theorem lookup_append_singleton (l : List (ℕ × α)) (token : ℕ) (v : α) (h : l.lookup token = none) :
    (l ++ [(token, v)]).lookup key = if key = token then some v else l.lookup key := by
  rw [List.lookup_append]
  by_cases hk : key = token
  · rw [if_pos hk, hk, h]
    simp
  · rw [if_neg hk]
    simp [List.lookup_cons, beq_eq_false_iff_ne.mpr hk]

end Entries

/-! ## Waiting lists -/

variable {a : Attribution} {token other : ℕ} {c composite source target leaf : NodeId}
  {t : Tree}

/-- A composite that is deferred waits for the token. -/
theorem mem_waiting_defer : c ∈ (a.defer token composite).waiting other ↔
    c ∈ a.waiting other ∨ c = composite ∧ other = token := by
  rw [defer, waiting, waiting]
  split_ifs with h
  · obtain ⟨ids, hids⟩ := Option.isSome_iff_exists.mp h
    have hmap : (fun entry : ℕ × List NodeId =>
        if entry.1 == token then (entry.1, adjoin composite entry.2) else entry) =
        fun entry => (entry.1, if entry.1 = token then adjoin composite entry.2 else entry.2) := by
      funext entry
      by_cases he : entry.1 = token <;> simp [he]
    rw [hmap, lookup_map_value fun key ids => if key = token then adjoin composite ids else ids]
    by_cases ho : other = token
    · simp [ho, hids, mem_adjoin]
    · simp [ho]
  · rw [lookup_append_singleton _ _ _ (Option.not_isSome_iff_eq_none.mp h)]
    by_cases ho : other = token
    · simp [ho, Option.not_isSome_iff_eq_none.mp h]
    · simp [ho]

theorem waiting_resolve : (a.resolve t token leaf).1.waiting other =
    if other = token then [] else a.waiting other := by
  rw [resolve, waiting, lookup_filter_fst_ne]
  split_ifs <;> rfl

theorem leafOf?_resolve (h : token < a.leaves.size) :
    (a.resolve t token leaf).1.leafOf? other =
      if other = token then some leaf else a.leafOf? other := by
  rw [resolve, leafOf?, leafOf?, Array.getElem?_setIfInBounds]
  by_cases ho : other = token
  · rw [if_pos ho.symm, if_pos ho, if_pos h]
    rfl
  · rw [if_neg (Ne.symm ho), if_neg ho]

theorem mem_replace {ids : List NodeId} : c ∈ replace source target ids ↔
    c ≠ source ∧ c ∈ ids ∨ c = target ∧ source ∈ ids := by
  have hrest : c ∈ ids.filter (· != source) ↔ c ≠ source ∧ c ∈ ids := by
    rw [List.mem_filter, bne_iff_ne, and_comm]
  unfold replace
  split_ifs with h
  · rw [mem_adjoin, hrest]
    simp [h]
  · rw [hrest]
    simp [h]

/-- Where one composite took the place of another, it waits for what that one waited for. -/
theorem mem_waiting_transfer : c ∈ (a.transfer t source target).1.waiting token ↔
    c ≠ source ∧ c ∈ a.waiting token ∨ c = target ∧ source ∈ a.waiting token := by
  rw [transfer, waiting, lookup_map_value fun _ => replace source target, waiting]
  cases a.deferred.lookup token with
  | none => simp
  | some ids => exact mem_replace

/-! ## Awaited tokens -/

/-- There is an entry for the token. -/
def IsAwaited (a : Attribution) (token : ℕ) : Prop :=
  ∃ entry ∈ a.deferred, entry.1 = token

theorem isAwaited_of_defer (h : (a.defer token composite).IsAwaited other) :
    a.IsAwaited other ∨ other = token := by
  obtain ⟨entry, hentry, rfl⟩ := h
  rw [defer] at hentry
  split_ifs at hentry
  · obtain ⟨e, he, rfl⟩ := List.mem_map.mp hentry
    refine Or.inl ⟨e, he, ?_⟩
    split_ifs <;> rfl
  · rcases List.mem_append.mp hentry with hentry | hentry
    · exact Or.inl ⟨entry, hentry, rfl⟩
    · rw [List.mem_singleton.mp hentry]
      exact Or.inr rfl

theorem isAwaited_resolve : (a.resolve t token leaf).1.IsAwaited other ↔
    a.IsAwaited other ∧ other ≠ token := by
  constructor
  · rintro ⟨entry, hentry, rfl⟩
    obtain ⟨hmem, hne⟩ := List.mem_filter.mp hentry
    exact ⟨⟨entry, hmem, rfl⟩, bne_iff_ne.mp hne⟩
  · rintro ⟨⟨entry, hmem, rfl⟩, hne⟩
    exact ⟨entry, List.mem_filter.mpr ⟨hmem, bne_iff_ne.mpr hne⟩, rfl⟩

theorem isAwaited_transfer :
    (a.transfer t source target).1.IsAwaited token ↔ a.IsAwaited token := by
  constructor
  · rintro ⟨entry, hentry, rfl⟩
    obtain ⟨e, he, rfl⟩ := List.mem_map.mp hentry
    exact ⟨e, he, rfl⟩
  · rintro ⟨entry, hmem, rfl⟩
    exact ⟨_, List.mem_map.mpr ⟨entry, hmem, rfl⟩, rfl⟩

theorem unresolved_eq_zero (h : ∀ token, ¬ a.IsAwaited token) : a.unresolved = 0 :=
  List.length_eq_zero_iff.mpr
    (List.eq_nil_iff_forall_not_mem.mpr fun entry hentry => h _ ⟨entry, hentry, rfl⟩)

end ParseTree.Attribution
