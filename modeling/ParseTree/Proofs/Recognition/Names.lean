import Mathlib.Data.List.Induction
import ParseTree.Recognition.Config

/-!
# Names of token kinds

Names are installed one map after another, and a kind may get any number of them. The last name of
a kind is the one that messages use. Lexical rules follow another order: the last name that denotes
a rule counts, and a later name that denotes none leaves the rule as it is.

## Main definitions

* `Config.DenotesRule`: the name begins with the mark of lexical rules
* `Config.installMaps`: the settings after any number of maps
* `Config.lastName?`, `Config.lastRuleName?`: the last name of a kind, the last that denotes a rule

## Main results

* `tokenName_installAll`, `lexerRule?_eq_some_iff`: which name and which rule count
* `inStep_iff`: when the two agree
-/

namespace ParseTree.Config

variable {entries : List (TokenKind × String)} {kind : TokenKind} {name rule : String}

/-! ## Names that denote rules -/

/-- The name denotes a lexical rule. -/
def DenotesRule (name : String) : Prop :=
  ruleMark <+: name.toList

instance : DecidablePred DenotesRule := fun _ => inferInstanceAs (Decidable (_ <+: _))

theorem ruleOfName?_eq_some_iff : ruleOfName? name = some rule ↔ name = "RULE_" ++ rule := by
  have hmark : name = "RULE_" ++ rule ↔ name.toList = ruleMark ++ rule.toList :=
    String.toList_inj.symm.trans (iff_of_eq (congrArg (name.toList = ·) String.toList_append))
  rw [hmark, ruleOfName?]
  split
  · next h =>
    obtain ⟨rest, hrest⟩ := List.isPrefixOf_iff_prefix.mp h
    rw [← hrest, List.drop_left, List.append_cancel_left_eq, Option.some.injEq,
      ← String.toList_inj, String.toList_ofList]
  · next h =>
    refine iff_of_false nofun fun heq => h ?_
    exact List.isPrefixOf_iff_prefix.mpr (heq ▸ List.prefix_append ..)

theorem denotesRule_iff : DenotesRule name ↔ ∃ rule, ruleOfName? name = some rule := by
  rw [DenotesRule, ← List.isPrefixOf_iff_prefix, ruleOfName?]
  split <;> simp_all

theorem denotesRule_append (rule : String) : DenotesRule ("RULE_" ++ rule) :=
  denotesRule_iff.mpr ⟨rule, ruleOfName?_eq_some_iff.mpr rfl⟩

/-- The names that denote rules are the marked names of those rules. -/
theorem filter_denotesRule (names : List String) :
    names.filter (DenotesRule ·) = (names.filterMap ruleOfName?).map ("RULE_" ++ ·) := by
  induction names with
  | nil => rfl
  | cons name names ih =>
    cases h : ruleOfName? name with
    | none =>
      have hnot : ¬ DenotesRule name := fun hd => by
        obtain ⟨rule, hrule⟩ := denotesRule_iff.mp hd
        cases h.symm.trans hrule
      rw [List.filter_cons_of_neg (by simpa using hnot), List.filterMap_cons_none h, ih]
    | some rule =>
      have hd : DenotesRule name := denotesRule_iff.mpr ⟨rule, h⟩
      rw [List.filter_cons_of_pos (by simpa using hd), List.filterMap_cons_some h, ih,
        List.map_cons, ← ruleOfName?_eq_some_iff.mp h]

/-- A kind without a name is shown by one that denotes no rule. -/
theorem not_denotesRule_inspect (kind : TokenKind) : ¬ DenotesRule kind.inspect := by
  rintro ⟨rest, h⟩
  have hhead : (kind.inspect).toList.head? = some 'R' := h ▸ rfl
  rw [TokenKind.inspect] at hhead
  split_ifs at hhead <;> simp [toString] at hhead

/-! ## Installed names -/

/-- The settings with names for kinds from several maps. -/
def installMaps (c : Config) (maps : List (List (TokenKind × String))) : Config :=
  maps.foldl installAll c

/-- The names of a kind in the order of their installation. -/
def namesOf (entries : List (TokenKind × String)) (kind : TokenKind) : List String :=
  (entries.filter (·.1 == kind)).map (·.2)

/-- The name of a kind that was installed last. -/
def lastName? (entries : List (TokenKind × String)) (kind : TokenKind) : Option String :=
  (namesOf entries kind).getLast?

/-- The name of a kind that was installed last of those that denote a rule. -/
def lastRuleName? (entries : List (TokenKind × String)) (kind : TokenKind) : Option String :=
  ((namesOf entries kind).filter (DenotesRule ·)).getLast?

/-- It does not matter how the names are divided into maps. -/
theorem installMaps_eq (c : Config) (maps : List (List (TokenKind × String))) :
    c.installMaps maps = c.installAll maps.flatten := by
  rw [installMaps, installAll, List.foldl_flatten]
  rfl

theorem installAll_concat (c : Config) (entries : List (TokenKind × String))
    (entry : TokenKind × String) :
    c.installAll (entries ++ [entry]) = (c.installAll entries).install entry.1 entry.2 := by
  rw [installAll, List.foldl_append]
  rfl

theorem namesOf_concat (entries : List (TokenKind × String)) (entry : TokenKind × String)
    (kind : TokenKind) : namesOf (entries ++ [entry]) kind =
      namesOf entries kind ++ if entry.1 = kind then [entry.2] else [] := by
  rw [namesOf, List.filter_append, List.map_append, List.filter_cons]
  split <;> simp_all [namesOf]

/-! ## The name and the rule of a kind -/

/-- The last name of a kind counts. -/
theorem lookup_names_installAll (entries : List (TokenKind × String)) (kind : TokenKind) :
    (standard.installAll entries).names.lookup kind = lastName? entries kind := by
  induction entries using List.reverseRecOn with
  | nil => rfl
  | append_singleton entries entry ih =>
    rw [installAll_concat, lastName?, namesOf_concat, install]
    by_cases h : entry.1 = kind
    · subst h
      rw [if_pos rfl, List.lookup_cons_self, List.getLast?_concat]
    · rw [if_neg h, List.append_nil, List.lookup_cons, beq_eq_false_iff_ne.mpr (Ne.symm h),
        ← lastName?, ← ih]

/-- Of the names of a kind that denote rules the last one counts. -/
theorem lexerRule?_installAll (entries : List (TokenKind × String)) (kind : TokenKind) :
    (standard.installAll entries).lexerRule? kind =
      ((namesOf entries kind).filterMap ruleOfName?).getLast? := by
  induction entries using List.reverseRecOn with
  | nil => rfl
  | append_singleton entries entry ih =>
    rw [installAll_concat, namesOf_concat, List.filterMap_append, install, lexerRule?]
    by_cases h : entry.1 = kind
    · subst h
      rw [if_pos rfl]
      cases hrule : ruleOfName? entry.2 with
      | none => rw [List.filterMap_cons_none hrule, List.filterMap_nil, List.append_nil, ← ih]; rfl
      | some rule =>
        rw [List.filterMap_cons_some hrule, List.filterMap_nil, List.getLast?_concat]
        exact List.lookup_cons_self
    · rw [if_neg h, List.filterMap_nil, List.append_nil, ← ih]
      cases ruleOfName? entry.2 with
      | none => rfl
      | some rule =>
        show List.lookup kind ((entry.1, rule) :: _) = _
        rw [List.lookup_cons, beq_eq_false_iff_ne.mpr (Ne.symm h)]
        rfl

theorem tokenName_installAll (entries : List (TokenKind × String)) (kind : TokenKind) :
    (standard.installAll entries).tokenName kind = (lastName? entries kind).getD kind.inspect := by
  rw [tokenName, lookup_names_installAll]

theorem tokenName_eq_append_iff : (standard.installAll entries).tokenName kind = "RULE_" ++ rule ↔
    lastName? entries kind = some ("RULE_" ++ rule) := by
  rw [tokenName_installAll]
  cases lastName? entries kind with
  | none =>
    refine iff_of_false (fun h => not_denotesRule_inspect kind ?_) nofun
    rw [show kind.inspect = "RULE_" ++ rule from h]
    exact denotesRule_append rule
  | some name => rw [Option.getD_some, Option.some.injEq]

theorem lexerRule?_eq_some_iff : (standard.installAll entries).lexerRule? kind = some rule ↔
    lastRuleName? entries kind = some ("RULE_" ++ rule) := by
  rw [lexerRule?_installAll, lastRuleName?, filter_denotesRule, List.getLast?_map]
  cases ((namesOf entries kind).filterMap ruleOfName?).getLast? with
  | none => exact iff_of_false nofun nofun
  | some last =>
    rw [Option.map_some, Option.some.injEq, Option.some.injEq, String.append_right_inj]

/-- A last name that denotes a rule is also the last of those that do. -/
theorem lastRuleName?_of_denotesRule (h : lastName? entries kind = some name)
    (hd : DenotesRule name) : lastRuleName? entries kind = some name := by
  obtain ⟨names, hnames⟩ := List.getLast?_eq_some_iff.mp h
  rw [lastRuleName?, hnames, List.filter_append, List.filter_cons_of_pos (by simpa using hd),
    List.filter_nil, List.getLast?_concat]

theorem lastRuleName?_eq_none_iff : lastRuleName? entries kind = none ↔
    ∀ name ∈ namesOf entries kind, ¬ DenotesRule name := by
  rw [lastRuleName?, List.getLast?_eq_none_iff, List.filter_eq_nil_iff]
  simp only [decide_eq_true_eq]

/-- The rule of a kind is that of its name for all rules exactly if the last name denotes a rule or
none does. -/
theorem inStep_iff : (∀ rule, (standard.installAll entries).lexerRule? kind = some rule ↔
      (standard.installAll entries).tokenName kind = "RULE_" ++ rule) ↔
    (∃ name, lastName? entries kind = some name ∧ DenotesRule name) ∨
      ∀ name ∈ namesOf entries kind, ¬ DenotesRule name := by
  simp only [lexerRule?_eq_some_iff, tokenName_eq_append_iff, ← lastRuleName?_eq_none_iff]
  constructor
  · intro h
    cases hlast : lastRuleName? entries kind with
    | none => exact Or.inr rfl
    | some name =>
      have hd : DenotesRule name := by
        have hmem := List.mem_of_getLast? hlast
        simpa using (List.mem_filter.mp hmem).2
      obtain ⟨rule, hrule⟩ := denotesRule_iff.mp hd
      obtain rfl := ruleOfName?_eq_some_iff.mp hrule
      exact Or.inl ⟨_, (h rule).mp hlast, hd⟩
  · rintro (⟨name, hname, hd⟩ | hnone) rule
    · rw [lastRuleName?_of_denotesRule hname hd, hname]
    · rw [hnone]
      refine iff_of_false nofun fun h => ?_
      have hd := lastRuleName?_of_denotesRule h (denotesRule_append rule)
      cases hnone.symm.trans hd

end ParseTree.Config
