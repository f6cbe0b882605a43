import ParseTree.Proofs.Session.Recorded
import ParseTree.Proofs.Tree.Attributed

/-!
# Who owns the recorded lookahead

When a rule is entered, the open composite claims the tokens recorded so far. The claim passes on to
whatever takes the place of the composite: the wrapper that an action puts around it, the composite
that it is merged into.

## Main definitions

* `Transition.owner`, `finalOwner`: who owns after an operation, after a history, what a composite
  owned before
* `Claimed`: the claims of a history, with their final owners

## Main results

* `claimed_concat`: what one more operation does to the claims
-/

namespace ParseTree

open Session

variable {σ γ : Type}

/-- Who owns after an operation what a composite owned before: the wrapper of the open composite,
the composite that another one was merged into, or the composite itself. -/
def Transition.owner (env : Setting σ γ) (tr : Transition σ γ) (c : NodeId) : NodeId :=
  match tr.op with
  | .createWrapper _ _ => redirect tr.before.current tr.after.current c
  | .command .afterRuleCall =>
    (tr.before.absorbed? env).elim c fun child => redirect child tr.before.current c
  | _ => c

/-- Who owns after a history what a composite owned before. -/
def finalOwner (env : Setting σ γ) (ts : List (Transition σ γ)) (c : NodeId) : NodeId :=
  ts.foldl (fun c tr => tr.owner env c) c

/-- The token was recorded when a rule was entered, and the composite is the final owner of what was
claimed then. -/
def Claimed (env : Setting σ γ) (ts : List (Transition σ γ)) (c : NodeId) (i : ℕ) : Prop :=
  ∃ us tr vs, ts = us ++ tr :: vs ∧ tr.op = .command .enterRule ∧
    i ∈ tr.before.cursor.recorded.filterMap (·.index) ∧
      finalOwner env vs tr.before.current = c

section Claimed

variable {env : Setting σ γ} {ts us : List (Transition σ γ)} {tr : Transition σ γ} {c : NodeId}
  {i : ℕ}

theorem not_claimed_nil : ¬ Claimed env [] c i := by
  rintro ⟨us, tr, vs, h, -⟩
  simp at h

theorem finalOwner_concat :
    finalOwner env (ts ++ [tr]) c = tr.owner env (finalOwner env ts c) := by
  rw [finalOwner, List.foldl_append]
  rfl

/-- After one more operation, the old claims have new owners, and there may be new claims. -/
theorem claimed_concat : Claimed env (ts ++ [tr]) c i ↔
    (∃ c₀, Claimed env ts c₀ i ∧ tr.owner env c₀ = c) ∨
      tr.op = .command .enterRule ∧ i ∈ tr.before.cursor.recorded.filterMap (·.index) ∧
        tr.before.current = c := by
  constructor
  · rintro ⟨us, u, vs, hsplit, hop, hi, howner⟩
    rcases List.eq_nil_or_concat vs with rfl | ⟨vs, v, rfl⟩
    · obtain ⟨-, hu⟩ := List.append_inj' hsplit rfl
      obtain rfl := List.singleton_inj.mp hu
      exact Or.inr ⟨hop, hi, howner⟩
    · rw [List.concat_eq_append, ← List.cons_append, ← List.append_assoc] at hsplit
      obtain ⟨hts, hv⟩ := List.append_inj' hsplit rfl
      obtain rfl := List.singleton_inj.mp hv
      rw [List.concat_eq_append, finalOwner_concat] at howner
      exact Or.inl ⟨_, ⟨us, u, vs, hts, hop, hi, rfl⟩, howner⟩
  · rintro (⟨c₀, ⟨us, u, vs, rfl, hop, hi, howner⟩, hc⟩ | ⟨hop, hi, hc⟩)
    · refine ⟨us, u, vs ++ [tr], by simp, hop, hi, ?_⟩
      rw [finalOwner_concat, howner, hc]
    · exact ⟨ts, tr, [], rfl, hop, hi, hc⟩

/-- Claims on one composite pass to another. -/
theorem exists_redirect_iff {P : NodeId → Prop} {source target : NodeId} :
    (∃ c₀, P c₀ ∧ redirect source target c₀ = c) ↔ c ≠ source ∧ P c ∨ c = target ∧ P source := by
  constructor
  · rintro ⟨c₀, hc₀, rfl⟩
    unfold redirect
    split_ifs with h
    · exact Or.inr ⟨rfl, h ▸ hc₀⟩
    · exact Or.inl ⟨h, hc₀⟩
  · rintro (⟨h, hc⟩ | ⟨rfl, hs⟩)
    · exact ⟨c, hc, if_neg h⟩
    · exact ⟨source, hs, if_pos rfl⟩

theorem claimed_concat_of_owner (tr : Transition σ γ) (h : tr.op ≠ .command .enterRule)
    {source target : NodeId} (ho : tr.owner env = redirect source target) :
    Claimed env (ts ++ [tr]) c i ↔
      c ≠ source ∧ Claimed env ts c i ∨ c = target ∧ Claimed env ts source i := by
  rw [claimed_concat, ho, exists_redirect_iff]
  simp [h]

theorem claimed_concat_of_owner_eq_id (tr : Transition σ γ) (h : tr.op ≠ .command .enterRule)
    (ho : tr.owner env = id) : Claimed env (ts ++ [tr]) c i ↔ Claimed env ts c i := by
  rw [claimed_concat, ho]
  simp [h]

theorem claimed_concat_enterRule (tr : Transition σ γ) (h : tr.op = .command .enterRule) :
    Claimed env (ts ++ [tr]) c i ↔ Claimed env ts c i ∨
      c = tr.before.current ∧ i ∈ tr.before.cursor.recorded.filterMap (·.index) := by
  have ho : tr.owner env = id := by
    funext c
    rw [Transition.owner, h]
    rfl
  rw [claimed_concat, ho]
  simp only [id, exists_eq_right, h, true_and]
  exact or_congr_right ⟨fun h => ⟨h.2.symm, h.1⟩, fun h => ⟨h.2, h.1.symm⟩⟩

/-- Every operation of the history is looked at once, with the rest of the history behind it. -/
theorem claimed_iff : Claimed env ts c i ↔ ∃ us ∈ ts.tails, ∃ tr ∈ us.head?,
    tr.op = .command .enterRule ∧ i ∈ tr.before.cursor.recorded.filterMap (·.index) ∧
      finalOwner env us.tail tr.before.current = c := by
  constructor
  · rintro ⟨us, tr, vs, rfl, h⟩
    exact ⟨tr :: vs, (List.mem_tails _ _).mpr (List.suffix_append us _), tr, rfl, h⟩
  · rintro ⟨us, hus, tr, htr, h⟩
    obtain ⟨ws, rfl⟩ := (List.mem_tails us ts).mp hus
    refine ⟨ws, tr, us.tail, ?_, h⟩
    rw [List.cons_head?_tail htr]

instance (env : Setting σ γ) (ts : List (Transition σ γ)) (c : NodeId) (i : ℕ) :
    Decidable (Claimed env ts c i) :=
  decidable_of_iff' _ claimed_iff

end Claimed

end ParseTree
