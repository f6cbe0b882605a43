import Mathlib.Data.List.Nodup
import Mathlib.Logic.Relation
import ParseTree.Grammar.Walk
import ParseTree.Proofs.Grammar.Containment

/-!
# Forests below rules

A grammar whose containers are declared first is a forest: elements and parts are linked both ways,
containers come before their parts, and the trees grow below the rules. A walk to the containers
descends to the one rule that an element lies in. On the way it meets the assignment of the element,
if only elements that an assignment sees through lie in between.

## Main definitions

* `Grammar.LiesIn`, `Grammar.Passes`: the steps of the walks to the containers
* `Grammar.Assigns`: the feature of an assignment
* `Grammar.Forest`: what it means for the elements to form a forest

## Main results

* `forest_of_topDown`: so they do, and the walks to the containers have the answers of the forest
-/

namespace ParseTree

open Relation

/-- An assignment sees through the element to what lies inside. -/
def Element.isTransparent : Element → Bool
  | ruleCall _ | keyword _ | crossReference .. | alternatives _ => true
  | _ => false

namespace Grammar

/-- An element lies directly in another. -/
def LiesIn (g : Grammar) (c p : ElementId) : Prop :=
  g.container? c = some p

/-- An element that an assignment sees through lies directly in another. -/
def Passes (g : Grammar) (c p : ElementId) : Prop :=
  (∃ element, g.element? c = some element ∧ element.isTransparent = true) ∧ g.LiesIn c p

/-- The element is an assignment to the feature. -/
def Assigns (g : Grammar) (id : ElementId) (feature : String) : Prop :=
  ∃ operator terminal, g.element? id = some (.assignment feature operator terminal)

variable {g : Grammar} {name feature : String} {ds : List Declaration} {a c e p : ElementId}
  {entry : Entry}

theorem visit_eq (h : g.entry? e = some entry) : g.visit e = .ok entry := by
  rw [visit, h]

theorem element?_eq (h : g.entry? e = some entry) : g.element? e = some entry.element := by
  rw [element?, h]
  rfl

theorem container?_eq (h : g.entry? e = some entry) : g.container? e = entry.container := by
  rw [container?, h]
  rfl

theorem isRule_eq (h : g.entry? e = some entry) : g.isRule e = entry.element.isRule := by
  rw [isRule, element?_eq h]
  rfl

/-- What lies in another element is no rule. -/
theorem Linked.isRule_eq_false (hg : g.Linked) (h : g.LiesIn c p) : g.isRule c = false := by
  refine Bool.eq_false_iff.mpr fun hrule => ?_
  cases h.symm.trans ((hg.root_iff c (lt_size_of_container? h)).mpr hrule)

/-! ### Steps of walks -/

theorem containingRule_of_isRule (h : g.isRule e = true) : g.containingRule e = .ok (some e) := by
  obtain ⟨element, helement, hrule⟩ := (Option.any_eq_true ..).mp h
  obtain ⟨entry, hentry, rfl⟩ := Option.map_eq_some_iff.mp helement
  rw [containingRule, visit_eq hentry]
  simp only [bind, Except.bind, hrule]
  rfl

/-- A walk to the rule goes on to the container. -/
theorem containingRule_of_liesIn (hrule : g.isRule c = false) (h : g.LiesIn c p) :
    g.containingRule c =
      if p.index < c.index then g.containingRule p else .error (.endless c) := by
  obtain ⟨entry, hentry, hp⟩ := Option.bind_eq_some_iff.mp h
  rw [isRule_eq hentry] at hrule
  rw [containingRule, visit_eq hentry]
  simp only [bind, Except.bind, hrule, hp]
  rfl

theorem feature_of_assigns (h : g.Assigns e feature) : g.feature e = .ok (some feature) := by
  obtain ⟨operator, terminal, h⟩ := h
  obtain ⟨entry, hentry, helement⟩ := Option.map_eq_some_iff.mp h
  rw [Grammar.feature, visit_eq hentry]
  simp only [bind, Except.bind, helement]
  rfl

theorem Assigns.not_passes (h : g.Assigns e feature) (p : ElementId) : ¬ g.Passes e p := by
  rintro ⟨⟨element, helement, htransparent⟩, -⟩
  obtain ⟨operator, terminal, h⟩ := h
  cases h.symm.trans helement
  cases htransparent

/-- A walk to the assignment goes on to the container. -/
theorem feature_of_passes (h : g.Passes c p) :
    g.feature c = if p.index < c.index then g.feature p else .error (.endless c) := by
  obtain ⟨⟨element, helement, htransparent⟩, hp⟩ := h
  obtain ⟨entry, hentry, rfl⟩ := Option.map_eq_some_iff.mp helement
  rw [LiesIn, container?_eq hentry] at hp
  rw [Grammar.feature, visit_eq hentry]
  simp only [bind, Except.bind, hp]
  split <;> first | rfl | simp_all [Element.isTransparent]

theorem isRule_eq_false_of_isTransparent {element : Element} (h : g.element? e = some element)
    (htransparent : element.isTransparent = true) : g.isRule e = false := by
  rw [isRule, h]
  cases element <;> first | rfl | cases htransparent

/-- An element is an assignment, or an assignment sees through it, or it is not assigned. -/
theorem feature_cases (hg : g.Linked) (he : e.index < g.size) :
    (∃ f, g.Assigns e f) ∨ (∃ p, g.Passes e p) ∨
      g.feature e = .ok none ∧ (∀ f, ¬ g.Assigns e f) ∧ ∀ p, ¬ g.Passes e p := by
  obtain ⟨entry, hentry⟩ := exists_entry he
  have helement := element?_eq hentry
  cases htransparent : entry.element.isTransparent with
  | true =>
    have hrule := isRule_eq_false_of_isTransparent helement htransparent
    obtain ⟨p, hp⟩ := Option.ne_none_iff_exists'.mp fun hnone =>
      Bool.false_ne_true (hrule.symm.trans ((hg.root_iff e he).mp hnone))
    exact Or.inr (Or.inl ⟨p, ⟨_, helement, htransparent⟩, hp⟩)
  | false =>
    have hpasses : ∀ p, ¬ g.Passes e p := by
      rintro p ⟨⟨element, h, h'⟩, -⟩
      rw [helement, Option.some.injEq] at h
      rw [h, h'] at htransparent
      cases htransparent
    cases hfeature : entry.element with
    | assignment f operator terminal =>
      exact Or.inl ⟨f, operator, terminal, helement.trans (congrArg some hfeature)⟩
    | keyword | ruleCall | alternatives | crossReference =>
      rw [hfeature] at htransparent
      cases htransparent
    | rule | action | group | unorderedGroup =>
      refine Or.inr (Or.inr ⟨?_, ?_, hpasses⟩)
      · rw [Grammar.feature, visit_eq hentry]
        simp only [bind, Except.bind, hfeature]
        rfl
      · rintro f ⟨operator, terminal, h⟩
        rw [helement, hfeature] at h
        cases h

/-! ### Forests -/

/-- The elements form a forest below the rules. -/
structure Forest (g : Grammar) : Prop where
  /-- An element has a container if and only if the container lists it, once, among its parts. -/
  container_iff : ∀ c p, g.container? c = some p ↔ (g.parts p).count c = 1
  /-- Containers come before their parts. -/
  lt : ∀ c p, g.container? c = some p → p.index < c.index
  /-- Parts are listed in the order of their declaration. -/
  ascending : ∀ p, (g.parts p).Pairwise (·.index < ·.index)
  /-- The elements without container are the rules. -/
  root_iff : ∀ e, e.index < g.size → (g.container? e = none ↔ g.isRule e = true)

theorem Linked.forest (hg : g.Linked) (h : ∀ c p, g.container? c = some p → p.index < c.index) :
    g.Forest where
  container_iff c p := by
    have hnodup : (g.parts p).Nodup :=
      (hg.ascending p).imp fun hlt => ne_of_apply_ne ElementId.index (Nat.ne_of_lt hlt)
    rw [hg.container_iff]
    exact ⟨fun hc => List.count_eq_one_of_mem hnodup hc,
      fun hc => List.count_pos_iff.mp (hc ▸ Nat.zero_lt_one)⟩
  lt := h
  ascending := hg.ascending
  root_iff := hg.root_iff

/-- The one rule above an element is at the top of its containers, and is found there. -/
theorem exists_containingRule (hg : g.Linked)
    (hlt : ∀ c p, g.container? c = some p → p.index < c.index) (he : e.index < g.size) :
    ∃ r, g.containingRule e = .ok (some r) ∧ g.container? r = none ∧
      ∀ a, ReflTransGen g.LiesIn e a ∧ g.isRule a = true ↔ a = r := by
  induction hn : e.index using Nat.strongRecOn generalizing e with
  | ind n ih =>
    subst hn
    -- Containers have smaller indices, so the walk ends at an element without one, which is a rule.
    cases hc : g.container? e with
    | none =>
      have hrule := (hg.root_iff e he).mp hc
      refine ⟨e, containingRule_of_isRule hrule, hc, fun a => ⟨?_, ?_⟩⟩
      · rintro ⟨ha, -⟩
        rcases ReflTransGen.cases_head ha with rfl | ⟨p, hp, -⟩
        · rfl
        · cases hc.symm.trans hp
      · rintro rfl
        exact ⟨.refl, hrule⟩
    | some p =>
      have hp := hlt e p hc
      have hrule := hg.isRule_eq_false hc
      obtain ⟨r, hr, hroot, hunique⟩ := ih p.index hp (Nat.lt_trans hp he) rfl
      refine ⟨r, ?_, hroot, fun a => ?_⟩
      · rw [containingRule_of_liesIn hrule hc, if_pos hp, hr]
      · rw [← hunique a, ReflTransGen.cases_head_iff]
        constructor
        · rintro ⟨rfl | ⟨q, hq, ha⟩, h⟩
          · cases hrule.symm.trans h
          · cases hc.symm.trans hq
            exact ⟨ha, h⟩
        · exact fun ⟨ha, h⟩ => ⟨Or.inr ⟨p, hc, ha⟩, h⟩

/-- The feature is that of the assignment that sees the element. -/
theorem exists_feature (hg : g.Linked)
    (hlt : ∀ c p, g.container? c = some p → p.index < c.index) (he : e.index < g.size) :
    ∃ answer, g.feature e = .ok answer ∧
      ∀ f, answer = some f ↔ ∃ a, ReflTransGen g.Passes e a ∧ g.Assigns a f := by
  induction hn : e.index using Nat.strongRecOn generalizing e with
  | ind n ih =>
    subst hn
    rcases feature_cases hg he with ⟨f, hf⟩ | ⟨p, hp⟩ | ⟨hnone, hassigns, hpasses⟩
    · refine ⟨some f, feature_of_assigns hf, fun f' => ⟨?_, ?_⟩⟩
      · rintro ⟨⟩
        exact ⟨e, .refl, hf⟩
      · rintro ⟨a, ha, hf'⟩
        rcases ReflTransGen.cases_head ha with rfl | ⟨p, hp, -⟩
        · obtain ⟨_, _, h⟩ := hf
          obtain ⟨_, _, h'⟩ := hf'
          cases h.symm.trans h'
          rfl
        · exact absurd hp (hf.not_passes p)
    · have hlt' := hlt e p hp.2
      obtain ⟨answer, hanswer, hiff⟩ := ih p.index hlt' (Nat.lt_trans hlt' he) rfl
      refine ⟨answer, ?_, fun f => (hiff f).trans ⟨?_, ?_⟩⟩
      · rw [feature_of_passes hp, if_pos hlt', hanswer]
      · rintro ⟨a, ha, hf⟩
        exact ⟨a, .head hp ha, hf⟩
      · rintro ⟨a, ha, hf⟩
        rcases ReflTransGen.cases_head ha with rfl | ⟨q, hq, ha⟩
        · exact absurd hp (hf.not_passes p)
        · cases hp.2.symm.trans hq.2
          exact ⟨a, ha, hf⟩
    · refine ⟨none, hnone, fun f => iff_of_false nofun ?_⟩
      rintro ⟨a, ha, hf⟩
      rcases ReflTransGen.cases_head ha with rfl | ⟨p, hp, -⟩
      · exact hassigns f hf
      · exact hpasses p hp

/-- **Grammars are forests below their rules**, if every container is declared before its parts. A
walk from an element to its containers finds the one rule at the top, and the assignment that sees
the element if there is one. -/
theorem forest_of_topDown (name : String) (ds : List Declaration) (g : Grammar)
    (h : ofDeclarations name ds = .ok g) (hfresh : ∀ d ∈ ds, d.Fresh)
    (htop : Declaration.TopDown ds) :
    g.Forest ∧ ∀ e : ElementId, e.index < g.size →
      (∃ r, g.containingRule e = .ok (some r) ∧ g.container? r = none ∧
        ∀ a, ReflTransGen g.LiesIn e a ∧ g.isRule a = true ↔ a = r) ∧
      ∃ answer, g.feature e = .ok answer ∧
        ∀ f, answer = some f ↔ ∃ a, ReflTransGen g.Passes e a ∧ g.Assigns a f := by
  have hg := linked_ofDeclarations hfresh h
  have hlt := (topDown_iff h).mp htop
  exact ⟨hg.forest hlt, fun e he => ⟨exists_containingRule hg hlt he, exists_feature hg hlt he⟩⟩

/-- The rule `Model: 'a' | ref=[Model|ID]?`, and a terminal rule. -/
def model : List Declaration :=
  [.rule "Model" .parser none, .part ⟨0⟩ (.alternatives []), .part ⟨1⟩ (.keyword "a"),
    .part ⟨1⟩ (.assignment "ref" .set none), .cardinality ⟨3⟩ .optional,
    .part ⟨3⟩ (.crossReference "Model" none), .part ⟨4⟩ (.ruleCall "ID"),
    .rule "ID" .terminal none]

/-- The grammar of these rules. -/
def modelGrammar : Grammar where
  name := "Sample"
  entries := #[⟨.rule "Model" .parser none (some ⟨1⟩), none, .one⟩,
    ⟨.alternatives [⟨2⟩, ⟨3⟩], some ⟨0⟩, .one⟩, ⟨.keyword "a", some ⟨1⟩, .one⟩,
    ⟨.assignment "ref" .set (some ⟨4⟩), some ⟨1⟩, .optional⟩,
    ⟨.crossReference "Model" (some ⟨5⟩), some ⟨3⟩, .one⟩, ⟨.ruleCall "ID", some ⟨4⟩, .one⟩,
    ⟨.rule "ID" .terminal none none, none, .one⟩]

/-- The call of the terminal rule inside the reference. -/
theorem forest_of_model :
    ofDeclarations "Sample" model = .ok modelGrammar ∧ (∀ d ∈ model, d.Fresh) ∧
      Declaration.TopDown model ∧ modelGrammar.Forest ∧
      modelGrammar.containingRule ⟨5⟩ = .ok (some ⟨0⟩) ∧
      modelGrammar.feature ⟨5⟩ = .ok (some "ref") := by
  have hdeclared : ofDeclarations "Sample" model = .ok modelGrammar := rfl
  have hfresh : ∀ d ∈ model, d.Fresh := by decide
  have htop : Declaration.TopDown model := by decide
  obtain ⟨hforest, hwalks⟩ := forest_of_topDown "Sample" model modelGrammar hdeclared hfresh htop
  obtain ⟨⟨r, hr, -, hunique⟩, answer, hanswer, hiff⟩ := hwalks ⟨5⟩ (by decide)
  have hcall : modelGrammar.Passes ⟨5⟩ ⟨4⟩ := ⟨⟨_, rfl, rfl⟩, rfl⟩
  have hreference : modelGrammar.Passes ⟨4⟩ ⟨3⟩ := ⟨⟨_, rfl, rfl⟩, rfl⟩
  have hassignment : modelGrammar.LiesIn ⟨3⟩ ⟨1⟩ := rfl
  have hbody : modelGrammar.LiesIn ⟨1⟩ ⟨0⟩ := rfl
  have hzero : ReflTransGen modelGrammar.LiesIn ⟨5⟩ ⟨0⟩ :=
    .head hcall.2 (.head hreference.2 (.head hassignment (.single hbody)))
  refine ⟨hdeclared, hfresh, htop, hforest, ?_, ?_⟩
  · rw [hr, (hunique ⟨0⟩).mp ⟨hzero, rfl⟩]
  · rw [hanswer, (hiff "ref").mpr ⟨⟨3⟩, .head hcall (.single hreference), _, _, rfl⟩]

end Grammar

end ParseTree
