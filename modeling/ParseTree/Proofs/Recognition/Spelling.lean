import Mathlib.Data.List.Induction
import ParseTree.Recognition.RuleTable

/-!
# Spellings of entry rules

Names of entry rules are compared in one form, so a rule is found in every spelling of this form.
Its name after `rule` and after `entryRule` are two such spellings, unless the name begins with one
of these words itself: then it counts as a spelling already, of a shorter name, and the rule is
found under that one.

## Main definitions

* `IsSpelling`: the name begins with `rule` or `entryRule`
* `RuleTable.attempt`, `RuleTable.afterCalls`: tables after calls that may be refused

## Main results

* `entryName_eq_iff`: names that are no spellings are compared after `entryRule`
* `spelled_of_calls`: a registered rule is found, and under which spellings
-/

namespace ParseTree

/-! ### Names -/

/-- The name begins like a spelling of another one. -/
def IsSpelling (name : String) : Prop :=
  "rule".toList <+: name.toList ∨ "entryRule".toList <+: name.toList

instance : DecidablePred IsSpelling := fun _ => inferInstanceAs (Decidable (_ ∨ _))

theorem entryName_entryRule (name : String) :
    entryName ("entryRule" ++ name) = "entryRule" ++ name :=
  if_pos (by simp)

theorem entryName_rule (name : String) : entryName ("rule" ++ name) = "entryRule" ++ name := by
  rw [entryName, if_neg (by simp), if_pos (by simp)]
  refine String.toList_injective ?_
  simp

/-- Names that are no spellings are compared after `entryRule`, all others in a shorter form. -/
theorem entryName_eq_iff {name : String} :
    entryName name = "entryRule" ++ name ↔ ¬ IsSpelling name := by
  rw [entryName]
  split
  · next h =>
    refine iff_of_false (fun heq => ?_) (not_not_intro (Or.inr (List.isPrefixOf_iff_prefix.mp h)))
    have hlength := congrArg (List.length ∘ String.toList) heq
    simp at hlength
    omega
  · next h =>
    split
    · next h' =>
      have hprefix := List.isPrefixOf_iff_prefix.mp h'
      refine iff_of_false (fun heq => ?_) (not_not_intro (Or.inl hprefix))
      have hlength := congrArg (List.length ∘ String.toList) heq
      have hle := hprefix.length_le
      simp at hlength hle
      omega
    · next h' =>
      exact iff_of_true rfl (not_or.mpr ⟨fun h'' => h' (List.isPrefixOf_iff_prefix.mpr h''),
        fun h'' => h (List.isPrefixOf_iff_prefix.mpr h'')⟩)

/-- A rule has one name. -/
theorem Grammar.ruleName?_of_rule? {g : Grammar} {name : String} {id : ElementId}
    (h : g.rule? name = some id) : g.ruleName? id = some name := by
  simpa using List.find?_some h

namespace RuleTable

variable {π : Type} {t t' : RuleTable π} {g : Grammar} {name : String} {procedure : π}
  {calls : List (String × π)} {call : String × π}

/-! ### Calls -/

/-- The table after a call, which is the same if the rule is refused. -/
def attempt (t : RuleTable π) (g : Grammar) (call : String × π) : RuleTable π :=
  (t.register g call.1 call.2).toOption.getD t

/-- The table after calls on an empty table. -/
def afterCalls (g : Grammar) (calls : List (String × π)) : RuleTable π :=
  calls.foldl (fun t call => t.attempt g call) empty

theorem afterCalls_concat (g : Grammar) (calls : List (String × π)) (call : String × π) :
    afterCalls g (calls ++ [call]) = (afterCalls g calls).attempt g call := by
  rw [afterCalls, List.foldl_append]
  rfl

/-- A call is accepted if the grammar has the rule and no other has its form. -/
theorem register_eq_ok_iff : t.register g name procedure = .ok t' ↔
    ∃ id, g.rule? name = some id ∧ t.find? name = none ∧
      t' = ⟨t.entries ++ [(entryName name, id, procedure)]⟩ := by
  rw [register]
  cases hid : g.rule? name with
  | none => simp
  | some id =>
    cases hfind : t.find? name with
    | none => simp [eq_comm]
    | some found => simp

/-- A new entry is found where no other is. -/
theorem find?_append (t : RuleTable π) (name name' : String) (found : ElementId × π) :
    (RuleTable.mk (t.entries ++ [(entryName name, found)])).find? name' =
      (t.find? name').or (if entryName name' = entryName name then some found else none) := by
  rw [find?, List.lookup_append, List.lookup_cons, List.lookup_nil]
  congr 1
  split <;> simp_all

/-- What is found stays found. -/
theorem find?_attempt {found : ElementId × π} (h : t.find? name = some found) :
    (t.attempt g call).find? name = some found := by
  rw [attempt]
  cases hr : t.register g call.1 call.2 with
  | error => exact h
  | ok t' =>
    obtain ⟨id, -, -, rfl⟩ := register_eq_ok_iff.mp hr
    exact (find?_append ..).trans (by rw [h]; rfl)

theorem find?_foldl_attempt {found : ElementId × π} (h : t.find? name = some found) :
    (calls.foldl (fun t call => t.attempt g call) t).find? name = some found := by
  induction calls generalizing t with
  | nil => exact h
  | cons call calls ih => exact ih (find?_attempt h)

/-- What is found was registered for a name of the same form. -/
theorem exists_of_find?_afterCalls {id : ElementId}
    (h : (afterCalls g calls).find? name = some (id, procedure)) :
    ∃ name', entryName name' = entryName name ∧ g.rule? name' = some id := by
  induction calls using List.reverseRecOn with
  | nil => cases h
  | append_singleton calls call ih =>
    rw [afterCalls_concat, attempt] at h
    cases hr : (afterCalls g calls).register g call.1 call.2 with
    | error => rw [hr] at h; exact ih h
    | ok t' =>
      rw [hr] at h
      obtain ⟨id', hid', -, rfl⟩ := register_eq_ok_iff.mp hr
      rcases Option.or_eq_some_iff.mp ((find?_append ..).symm.trans h) with h' | ⟨-, h'⟩
      · exact ih h'
      · split at h'
        · next heq =>
          cases h'
          exact ⟨call.1, heq.symm, hid'⟩
        · cases h'

/-- After a call that was accepted the rule is found under all names of its form. -/
theorem find?_of_register {before : List (String × π)} {id : ElementId} {name' : String}
    (after : List (String × π)) (h : (afterCalls g before).register g name procedure = .ok t)
    (hid : g.rule? name = some id) (hname : entryName name' = entryName name) :
    (afterCalls g (before ++ (name, procedure) :: after)).find? name' = some (id, procedure) := by
  have hcall : (afterCalls g before).attempt g (name, procedure) = t := by rw [attempt, h]; rfl
  rw [afterCalls, List.foldl_append, List.foldl_cons, ← afterCalls, hcall]
  refine find?_foldl_attempt ?_
  obtain ⟨id', hid', hnone, rfl⟩ := register_eq_ok_iff.mp h
  cases hid.symm.trans hid'
  have hnone' : (afterCalls g before).find? name' = none := by rw [find?, hname]; exact hnone
  rw [find?_append, hnone', if_pos hname]
  rfl

/-- A name of another form leads to another rule, because a rule has one name. -/
theorem find?_eq_some_iff {id : ElementId} {name' : String}
    (h : ∀ name', entryName name' = entryName name →
      (afterCalls g calls).find? name' = some (id, procedure)) (hid : g.rule? name = some id) :
    (afterCalls g calls).find? name' = some (id, procedure) ↔ entryName name' = entryName name := by
  refine ⟨fun hfound => ?_, h name'⟩
  obtain ⟨other, hform, hother⟩ := exists_of_find?_afterCalls hfound
  have hname : some other = some name :=
    (Grammar.ruleName?_of_rule? hother).symm.trans (Grammar.ruleName?_of_rule? hid)
  rw [← hform, Option.some.inj hname]

/-- **A registered rule is found** under the names of its form and under no others. These are its
own name, and its name after `rule` and after `entryRule` exactly if it is no spelling itself. A
refused call changes nothing. -/
theorem spelled_of_calls (g : Grammar) (before after : List (String × π)) (name : String)
    (procedure : π) :
    (∀ e, (afterCalls g before).register g name procedure = .error e →
      afterCalls g (before ++ [(name, procedure)]) = afterCalls g before) ∧
    ∀ t, (afterCalls g before).register g name procedure = .ok t →
      ∃ id, g.rule? name = some id ∧
        let table := afterCalls g (before ++ (name, procedure) :: after)
        (∀ name', table.find? name' = some (id, procedure) ↔ entryName name' = entryName name) ∧
        table.find? name = some (id, procedure) ∧
        (table.find? ("rule" ++ name) = some (id, procedure) ↔ ¬ IsSpelling name) ∧
        (table.find? ("entryRule" ++ name) = some (id, procedure) ↔ ¬ IsSpelling name) := by
  refine ⟨fun e he => ?_, fun t ht => ?_⟩
  · rw [afterCalls_concat, attempt, he]
    rfl
  · obtain ⟨id, hid, -⟩ := register_eq_ok_iff.mp ht
    have hfound : ∀ name', _ ↔ entryName name' = entryName name := fun name' =>
      find?_eq_some_iff (fun name' => find?_of_register after ht hid) hid
    refine ⟨id, hid, hfound, (hfound name).mpr rfl, ?_, ?_⟩
    · rw [hfound, entryName_rule, eq_comm, entryName_eq_iff]
    · rw [hfound, entryName_entryRule, eq_comm, entryName_eq_iff]

/-- Three rules, two of whose names are spellings. -/
def clashing : Grammar :=
  ⟨"Clash", #[⟨.rule "Foo" .parser none none, none, .one⟩,
    ⟨.rule "ruleFoo" .parser none none, none, .one⟩,
    ⟨.rule "ruleBar" .parser none none, none, .one⟩]⟩

/-- The second rule is refused in favour of the first, and the third is found without `rule`. -/
theorem spelled_of_clashing :
    (∃ e, (afterCalls clashing [("Foo", 0)]).register clashing "ruleFoo" 1 = .error e) ∧
      afterCalls clashing [("Foo", 0), ("ruleFoo", 1)] = afterCalls clashing [("Foo", 0)] ∧
      (∃ t, (afterCalls clashing [("Foo", 0)]).register clashing "ruleBar" 2 = .ok t) ∧
      let table := afterCalls clashing [("Foo", 0), ("ruleBar", 2), ("Baz", 3)]
      table.find? "ruleBar" = some (⟨2⟩, 2) ∧ table.find? "Bar" = some (⟨2⟩, 2) ∧
        table.find? "ruleruleBar" ≠ some (⟨2⟩, 2) := by
  obtain ⟨hrefused, -⟩ := spelled_of_calls clashing [("Foo", 0)] [] "ruleFoo" 1
  obtain ⟨-, haccepted⟩ := spelled_of_calls clashing [("Foo", 0)] [("Baz", 3)] "ruleBar" 2
  obtain ⟨id, hid, hforms, hself, hrule, -⟩ := haccepted _ rfl
  cases (show clashing.rule? "ruleBar" = some ⟨2⟩ by decide).symm.trans hid
  exact ⟨⟨_, rfl⟩, hrefused _ rfl, ⟨_, rfl⟩, hself, (hforms "Bar").mpr (by decide),
    fun h => hrule.mp h (by decide)⟩

/-- A rule with the name of a spelling is not found after `rule` or `entryRule`. -/
theorem not_found_of_spelling :
    (∃ t, (afterCalls clashing []).register clashing "ruleFoo" 0 = .ok t) ∧
      (afterCalls clashing [("ruleFoo", 0)]).find? "ruleFoo" = some (⟨1⟩, 0) ∧
      (afterCalls clashing [("ruleFoo", 0)]).find? "ruleruleFoo" = none ∧
      (afterCalls clashing [("ruleFoo", 0)]).find? "entryRuleruleFoo" = none := by
  exact ⟨⟨_, rfl⟩, by decide, by decide, by decide⟩

end RuleTable

end ParseTree
