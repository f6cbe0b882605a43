import Mathlib.Data.Finset.Insert
import ParseTree.Grammar.GroupHelper
import ParseTree.Proofs.Token.Members

/-!
# Selected members

The activations of an unordered group form a stack, and each holds the members that were selected in
it. Entering the group puts an empty set on the stack, leaving it takes the innermost set away, a
selection adds to the innermost set. The helper that remembers selections in words and prepares the
members that must occur gives the answers of these stacks.

## Main definitions

* `GroupCall`: the calls that change the selections
* `GroupCall.stack`: the sets of selected members of a group after calls
* `GroupCall.Nested`: the calls that leave as many activations of a group as they enter
* `Selections.Stacked`: the answers are those of the stacks

## Main results

* `MemberSet.contains_insert`, `contains_mandatory`: sets of members as words
* `canSelect_iff`, `canLeave_iff`: the answers, by the stack of the group
* `stacked_afterCalls`: so they are after any calls
-/

namespace ParseTree

/-! ### Sets of members -/

namespace MemberSet

variable {s : MemberSet} {i j : ℕ}

theorem contains_insert : (s.insert j).contains i = true ↔ i = j ∨ s.contains i = true := by
  show TokenSet.bit (s.insert j).words (i / 64) (i % 64) = true ↔
    i = j ∨ TokenSet.bit s.words (i / 64) (i % 64) = true
  rw [insert, TokenSet.bit_modify_padded _ _ _ _ (Nat.mod_lt j (by decide)), Bool.or_eq_true,
    decide_eq_true_iff]
  have hsame : j / 64 = i / 64 ∧ j % 64 = i % 64 ↔ i = j := by omega
  rw [hsame]

theorem contains_foldl_insert (members : List ℕ) (s : MemberSet) :
    (members.foldl insert s).contains i = true ↔ i ∈ members ∨ s.contains i = true := by
  induction members generalizing s with
  | nil => simp
  | cons j members ih =>
    rw [List.foldl_cons, ih, contains_insert, List.mem_cons]
    exact or_left_comm.trans or_assoc.symm

theorem contains_ofList {members : List ℕ} : (ofList members).contains i = true ↔ i ∈ members := by
  rw [ofList, contains_foldl_insert, or_iff_left]
  exact Bool.false_ne_true

end MemberSet

/-! ### Calls and stacks -/

/-- A call that changes what is selected, or leaves it as it is. -/
inductive GroupCall where
  /-- A new activation of a group starts. -/
  | enter (group : ElementId)
  /-- The innermost activation of a group ends. -/
  | leave (group : ElementId)
  /-- A member of a group is selected. -/
  | select (group : ElementId) (member : ℕ)
  /-- The selected member of a group was recognized. -/
  | returnFrom (group : ElementId)
deriving DecidableEq, Repr

namespace GroupCall

/-- The group that is called. -/
def group : GroupCall → ElementId
  | enter group | leave group | select group _ | returnFrom group => group

/-- The sets of selected members of a group after one more call, the innermost activation first. -/
def push (group : ElementId) (stack : List (Finset ℕ)) : GroupCall → List (Finset ℕ)
  | enter g => if g = group then ∅ :: stack else stack
  | leave g => if g = group then stack.tail else stack
  | select g member => if g = group then stack.modifyHead (Insert.insert member) else stack
  | returnFrom _ => stack

/-- The sets of selected members of a group after calls. -/
def stack (group : ElementId) (calls : List GroupCall) : List (Finset ℕ) :=
  calls.foldl (push group) []

/-- The calls leave the activations of a group that they enter, and no others. -/
inductive Nested (group : ElementId) : List GroupCall → Prop
  /-- There is no call. -/
  | nil : Nested group []
  /-- A call that neither enters nor leaves the group. -/
  | cons {call : GroupCall} {calls : List GroupCall} (enter : call ≠ .enter group)
    (leave : call ≠ .leave group) (h : Nested group calls) : Nested group (call :: calls)
  /-- An activation within the calls. -/
  | activation {inner calls : List GroupCall} (h : Nested group inner) (h' : Nested group calls) :
    Nested group (.enter group :: inner ++ .leave group :: calls)

variable {group : ElementId} {call : GroupCall} {calls inner : List GroupCall}

theorem push_of_ne (h : call.group ≠ group) (stack : List (Finset ℕ)) :
    push group stack call = stack := by
  cases call with
  | enter g | leave g | select g member => exact if_neg h
  | returnFrom g => rfl

/-- Only the innermost activation is known to calls that do not leave it. -/
theorem Nested.foldl_push (h : Nested group calls) (selected : Finset ℕ)
    (outer : List (Finset ℕ)) :
    ∃ selected', calls.foldl (push group) (selected :: outer) = selected' :: outer := by
  induction h generalizing selected outer with
  | nil => exact ⟨selected, rfl⟩
  | @cons call calls henter hleave _ ih =>
    have hcall : ∃ selected', push group (selected :: outer) call = selected' :: outer := by
      by_cases hgroup : call.group = group
      · subst hgroup
        cases call with
        | enter g => exact absurd rfl henter
        | leave g => exact absurd rfl hleave
        | select g member => exact ⟨Insert.insert member selected, if_pos rfl⟩
        | returnFrom g => exact ⟨selected, rfl⟩
      · exact ⟨selected, push_of_ne hgroup _⟩
    obtain ⟨selected', hcall⟩ := hcall
    rw [List.foldl_cons, hcall]
    exact ih selected' outer
  | activation _ _ ih ih' =>
    obtain ⟨selected', hinner⟩ := ih ∅ (selected :: outer)
    rw [List.cons_append, List.foldl_cons, push, if_pos rfl, List.foldl_append, hinner,
      List.foldl_cons, push, if_pos rfl]
    exact ih' selected outer

/-- Leaving an activation leaves the stack that was there when it was entered. -/
theorem stack_leave (h : Nested group inner) (calls : List GroupCall) :
    stack group (calls ++ .enter group :: inner ++ [.leave group]) = stack group calls := by
  obtain ⟨selected, hinner⟩ := h.foldl_push ∅ (stack group calls)
  rw [stack, List.append_assoc, List.foldl_append, ← stack, List.cons_append, List.foldl_cons,
    push, if_pos rfl, List.foldl_append, hinner, List.foldl_cons, push, if_pos rfl]
  rfl

theorem stack_append_of_ne (h : call.group ≠ group) (calls : List GroupCall) :
    stack group (calls ++ [call]) = stack group calls := by
  rw [stack, List.foldl_append, ← stack]
  exact push_of_ne h _

end GroupCall

/-! ### What is tracked -/

/-- The element must occur: its cardinality is one, or one or more. -/
def Grammar.Mandatory (g : Grammar) (id : ElementId) : Prop :=
  ∀ e ∈ g.entry? id, e.cardinality = .one ∨ e.cardinality = .oneOrMore

theorem Grammar.isOptional_eq_false_iff {g : Grammar} {id : ElementId} :
    g.isOptional id = false ↔ g.Mandatory id := by
  rw [isOptional, Mandatory]
  cases g.entry? id with
  | none => simp
  | some e => cases he : e.cardinality <;> simp [he, Cardinality.isOptional]

/-- The state of a helper after a call. -/
def GroupHelper.after {γ : Type} (h : GroupHelper γ) (s : γ) : GroupCall → γ
  | .enter group => h.enter group s
  | .leave group => h.leave group s
  | .select group member => h.select group member s
  | .returnFrom group => h.returnFrom group s

namespace Selections

open GroupHelper (standard)

/-- The selections after calls on those of a grammar. -/
def reached (g : Grammar) (calls : List GroupCall) : Selections :=
  calls.foldl standard.after (.ofGrammar g)

variable {g : Grammar} {s t : Selections} {group : ElementId} {stack : List (Finset ℕ)} {i : ℕ}

/-- The words of an activation stand for its selected members. -/
def Stands (words : MemberSet) (selected : Finset ℕ) : Prop :=
  ∀ i, words.contains i = true ↔ i ∈ selected

/-- The activations of a group are a stack, if it is an unordered group of the grammar; other groups
have no state. -/
def Tracks (g : Grammar) (s : Selections) (group : ElementId) (stack : List (Finset ℕ)) : Prop :=
  ∃ activations, List.Forall₂ Stands activations stack ∧
    s.find? group = (initialState g group).map ({ · with activations })

theorem group_of_initialState {st : GroupState} (h : initialState g group = some st) :
    st.group = group ∧ st.activations = [] := by
  rw [initialState] at h
  split at h
  · obtain rfl := Option.some.inj h
    exact ⟨rfl, rfl⟩
  · cases h

theorem mem_ids_of_initialState {st : GroupState} (h : initialState g group = some st) :
    group ∈ g.ids := by
  have hentry : group.index < g.size := by
    by_contra hn
    have hnone : g.element? group = none := by
      rw [Grammar.element?, Grammar.entry?, Array.getElem?_eq_none (Nat.le_of_not_lt hn)]
      rfl
    rw [initialState, hnone] at h
    cases h
  exact List.mem_map.mpr ⟨group.index, List.mem_range.mpr hentry, rfl⟩

/-- Every unordered group of the grammar has its state. -/
theorem find?_ofGrammar (g : Grammar) (group : ElementId) :
    (ofGrammar g).find? group = initialState g group := by
  have hfound (id : ElementId) (h : (initialState g id).any (·.group == group) = true) :
      id = group := by
    obtain ⟨st, hst, he⟩ := (Option.any_eq_true _ _).mp h
    exact (group_of_initialState hst).1.symm.trans (eq_of_beq he)
  have hids : (ofGrammar g).find? group =
      (g.ids.find? fun id => (initialState g id).any (·.group == group)).bind (initialState g) := by
    rw [find?, ofGrammar, List.find?_filterMap]
  rw [hids]
  cases hst : initialState g group with
  | none =>
    rw [List.find?_eq_none.mpr]
    · rfl
    · intro id _ h
      obtain rfl := hfound id h
      rw [hst] at h
      cases h
  | some st =>
    have hp : (initialState g group).any (·.group == group) = true := by
      rw [hst, Option.any_some, (group_of_initialState hst).1, beq_self_eq_true]
    cases hid : g.ids.find? fun id => (initialState g id).any (·.group == group) with
    | none => exact absurd hp (List.find?_eq_none.mp hid group (mem_ids_of_initialState hst))
    | some id =>
      have hp' := List.find?_some (p := fun id => (initialState g id).any (·.group == group)) hid
      obtain rfl := hfound id hp'
      exact hst

theorem find?_update_of_initialState {f : List MemberSet → List MemberSet} {called : ElementId}
    {activations : List MemberSet}
    (h : s.find? group = (initialState g group).map ({ · with activations })) :
    (s.update called f).find? group = (initialState g group).map
      ({ · with activations := if called = group then f activations else activations }) := by
  rw [find?_update, h, Option.map_map]
  cases hst : initialState g group with
  | none => rfl
  | some st =>
    have hgroup := (group_of_initialState hst).1
    by_cases hc : called = group
    · simp [hgroup, hc]
    · simp [hgroup, hc, Ne.symm hc]

theorem Tracks.update (h : Tracks g s group stack) {f : List MemberSet → List MemberSet}
    (f' : List (Finset ℕ) → List (Finset ℕ))
    (hf : ∀ {activations stack}, List.Forall₂ Stands activations stack →
      List.Forall₂ Stands (f activations) (f' stack)) (called : ElementId) :
    Tracks g (s.update called f) group (if called = group then f' stack else stack) := by
  obtain ⟨activations, hall, hfind⟩ := h
  refine ⟨_, ?_, find?_update_of_initialState hfind⟩
  split_ifs
  · exact hf hall
  · exact hall

theorem stands_empty : Stands ∅ ∅ :=
  fun _ => iff_of_false Bool.false_ne_true (Finset.notMem_empty _)

theorem Stands.insert {words : MemberSet} {selected : Finset ℕ} (h : Stands words selected)
    (member : ℕ) : Stands (words.insert member) (Insert.insert member selected) := by
  intro i
  rw [MemberSet.contains_insert, h i, Finset.mem_insert]

/-- One call changes the words as it changes the stack. -/
theorem Tracks.after (h : Tracks g s group stack) (call : GroupCall) :
    Tracks g (standard.after s call) group (call.push group stack) := by
  cases call with
  | enter called => exact h.update (∅ :: ·) (fun hall => .cons stands_empty hall) called
  | leave called =>
    refine h.update List.tail (fun hall => ?_) called
    cases hall with
    | nil => exact .nil
    | cons _ hall => exact hall
  | select called member =>
    show Tracks g (s.select called member) group (if called = group then _ else stack)
    rw [Selections.select]
    refine h.update (·.modifyHead (Insert.insert member)) (fun hall => ?_) called
    cases hall with
    | nil => exact .nil
    | cons hhead hall => exact .cons (hhead.insert member) hall
  | returnFrom _ => exact h

theorem tracks_reached (g : Grammar) (group : ElementId) (calls : List GroupCall) :
    Tracks g (reached g calls) group (GroupCall.stack group calls) := by
  induction calls using List.reverseRecOn with
  | nil =>
    refine ⟨[], .nil, ?_⟩
    show (ofGrammar g).find? group = _
    rw [find?_ofGrammar]
    cases hst : initialState g group with
    | none => rfl
    | some st => exact congrArg some (congrArg (GroupState.mk _ _ _) (group_of_initialState hst).2)
  | append_singleton calls call ih =>
    rw [reached, GroupCall.stack, List.foldl_append, List.foldl_append]
    exact ih.after call

/-! ### Answers -/

theorem contains_mandatory {ms : List ElementId} : (MemberSet.ofList
    ((ms.zipIdx.filter fun m => !g.isOptional m.1).map (·.2))).contains i = true ↔
      ∃ m, ms[i]? = some m ∧ g.Mandatory m := by
  rw [MemberSet.contains_ofList, List.mem_map]
  constructor
  · rintro ⟨⟨m, j⟩, hm, rfl⟩
    rw [List.mem_filter, List.mem_zipIdx_iff_getElem?, Bool.not_eq_true'] at hm
    exact ⟨m, hm.1, Grammar.isOptional_eq_false_iff.mp hm.2⟩
  · rintro ⟨m, hm, hman⟩
    refine ⟨(m, i), List.mem_filter.mpr ⟨List.mem_zipIdx_iff_getElem?.mpr hm, ?_⟩, rfl⟩
    rw [Grammar.isOptional_eq_false_iff.mpr hman]
    rfl

/-- A member can be selected if it was not selected yet in the innermost activation. -/
theorem canSelect_iff (h : Tracks g s group stack) :
    s.canSelect group i = true ↔ ∃ ms selected outer, g.element? group = some (.unorderedGroup ms) ∧
      i < ms.length ∧ stack = selected :: outer ∧ i ∉ selected := by
  obtain ⟨activations, hall, hfind⟩ := h
  rw [canSelect, hfind, initialState]
  split
  · next ms hms =>
    rw [hms]
    cases hall with
    | nil => simp
    | @cons words selected _ outer hhead _ => simp [← hhead i]
  · next hms =>
    refine iff_of_false Bool.false_ne_true ?_
    rintro ⟨ms, -, -, he, -⟩
    exact hms ms he

/-- A group can be left if no member that must occur can be selected. -/
theorem canLeave_iff (h : Tracks g s group stack) :
    s.canLeave group = true ↔ ¬ ∃ i m, (g.members group)[i]? = some m ∧ g.Mandatory m ∧
      s.canSelect group i = true := by
  simp only [canSelect_iff h]
  obtain ⟨activations, hall, hfind⟩ := h
  rw [canLeave, hfind, initialState, Grammar.members]
  split
  · next ms hms =>
    rw [hms]
    cases hall with
    | nil => simp
    | @cons words selected _ outer hhead _ =>
      have hmissing (i : ℕ) : (!(MemberSet.ofList ((ms.zipIdx.filter fun m =>
          !g.isOptional m.1).map (·.2))).contains i || words.contains i) = true ↔
            ∀ m, ms[i]? = some m → g.Mandatory m → i ∈ selected := by
        rw [Bool.or_eq_true, Bool.not_eq_true', ← Bool.not_eq_true, contains_mandatory, hhead i,
          ← imp_iff_not_or]
        exact ⟨fun h m hm hman => h ⟨m, hm, hman⟩, fun h ⟨m, hm, hman⟩ => h m hm hman⟩
      show ((List.range ms.length).all fun i => _) = true ↔ _
      simp only [List.all_eq_true, List.mem_range, hmissing]
      constructor
      · rintro h ⟨i, m, hm, hman, ms', selected', outer', he, hi, hs, hnot⟩
        obtain ⟨rfl, -⟩ := List.cons.inj hs
        obtain rfl := Element.unorderedGroup.inj (Option.some.inj he)
        exact hnot (h i hi m hm hman)
      · intro h i hi m hm hman
        by_contra hnot
        exact h ⟨i, m, hm, hman, ms, selected, outer, rfl, hi, rfl, hnot⟩
  · next hms =>
    refine iff_of_true rfl ?_
    rintro ⟨_, _, -, -, ms, -, -, he, -⟩
    exact hms ms he

/-! ### Missing members -/

/-- The members that must occur in a group and are not selected yet in its innermost activation. -/
def remaining (g : Grammar) (group : ElementId) (stack : List (Finset ℕ)) : List ElementId :=
  match g.element? group, stack with
  | some (.unorderedGroup ms), selected :: _ =>
    (ms.zipIdx.filter fun m => !g.isOptional m.1 && decide (m.2 ∉ selected)).map (·.1)
  | _, _ => []

/-- What must occur and can be selected are the remaining members. -/
theorem remaining_eq (h : Tracks g s group stack) :
    (((g.members group).zipIdx.filter fun m =>
      !g.isOptional m.1 && s.canSelect group m.2).map (·.1)) = remaining g group stack := by
  unfold remaining
  split
  · next ms selected outer hms =>
    rw [Grammar.members, hms]
    refine congrArg (List.map Prod.fst) (List.filter_congr ?_)
    rintro ⟨m, i⟩ hm
    have hi : i < ms.length :=
      (List.getElem?_eq_some_iff.mp (List.mem_zipIdx_iff_getElem?.mp hm)).1
    have hselect : s.canSelect group i = decide (i ∉ selected) := by
      rw [Bool.eq_iff_iff, canSelect_iff h, decide_eq_true_iff]
      constructor
      · rintro ⟨ms', selected', outer', -, -, hs, hnot⟩
        rwa [(List.cons.inj hs).1]
      · exact fun hnot => ⟨ms, selected, outer, hms, hi, rfl, hnot⟩
    rw [hselect]
  · next hnone =>
    rw [List.filter_eq_nil_iff.mpr, List.map_nil]
    intro m _ hm
    rw [Bool.and_eq_true, canSelect_iff h] at hm
    obtain ⟨-, ms, selected, outer, hms, -, hs, -⟩ := hm
    exact hnone ms selected outer hms hs

theorem remaining_eq_nil_iff (h : Tracks g s group stack) :
    remaining g group stack = [] ↔ s.canLeave group = true := by
  rw [canLeave_iff h, ← remaining_eq h, List.map_eq_nil_iff, List.filter_eq_nil_iff]
  constructor
  · rintro hall ⟨i, m, hm, hman, hselect⟩
    refine hall (m, i) (List.mem_zipIdx_iff_getElem?.mpr hm) ?_
    rw [Grammar.isOptional_eq_false_iff.mpr hman, hselect]
    rfl
  · rintro hnot ⟨m, i⟩ hm hboth
    rw [Bool.and_eq_true, Bool.not_eq_true', Grammar.isOptional_eq_false_iff] at hboth
    exact hnot ⟨i, m, List.mem_zipIdx_iff_getElem?.mp hm, hboth.1, hboth.2⟩

/-! ### Any calls -/

/-- A group has the same answers in both states. -/
def SameAnswers (group : ElementId) (s t : Selections) : Prop :=
  (∀ i, s.canSelect group i = t.canSelect group i) ∧ s.canLeave group = t.canLeave group

theorem Tracks.sameAnswers (h : Tracks g s group stack) (h' : Tracks g t group stack) :
    SameAnswers group s t := by
  have hselect (i : ℕ) : s.canSelect group i = t.canSelect group i := by
    rw [Bool.eq_iff_iff, canSelect_iff h, canSelect_iff h']
  refine ⟨hselect, ?_⟩
  rw [Bool.eq_iff_iff, canLeave_iff h, canLeave_iff h']
  simp only [hselect]

/-- After calls on the selections of a grammar, the answers are those of the stacks of selected
members. -/
structure Stacked (g : Grammar) (calls : List GroupCall) : Prop where
  /-- A member can be selected if the innermost activation of its unordered group has not yet. -/
  canSelect : ∀ group i, (reached g calls).canSelect group i = true ↔
    ∃ ms selected outer, g.element? group = some (.unorderedGroup ms) ∧ i < ms.length ∧
      GroupCall.stack group calls = selected :: outer ∧ i ∉ selected
  /-- A group can be left if no member that must occur can be selected. -/
  canLeave : ∀ group, (reached g calls).canLeave group = true ↔
    ¬ ∃ i m, (g.members group)[i]? = some m ∧ g.Mandatory m ∧
      (reached g calls).canSelect group i = true
  /-- Leaving an activation brings the answers of the enclosing one back. -/
  restored : ∀ group inner, GroupCall.Nested group inner →
    SameAnswers group (reached g (calls ++ .enter group :: inner ++ [.leave group]))
      (reached g calls)
  /-- A call on a group changes no answers for another. -/
  separate : ∀ call group, call.group ≠ group →
    SameAnswers group (reached g (calls ++ [call])) (reached g calls)

theorem stacked_reached (g : Grammar) (calls : List GroupCall) : Stacked g calls where
  canSelect group i := canSelect_iff (tracks_reached g group calls)
  canLeave group := canLeave_iff (tracks_reached g group calls)
  restored group inner h := by
    have htracks := tracks_reached g group (calls ++ .enter group :: inner ++ [.leave group])
    rw [GroupCall.stack_leave h] at htracks
    exact htracks.sameAnswers (tracks_reached g group calls)
  separate call group h := by
    have htracks := tracks_reached g group (calls ++ [call])
    rw [GroupCall.stack_append_of_ne h] at htracks
    exact htracks.sameAnswers (tracks_reached g group calls)

end Selections

end ParseTree
