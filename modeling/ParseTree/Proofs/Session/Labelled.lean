import ParseTree.Proofs.Recognition.Names
import ParseTree.Proofs.Session.Rooted

/-!
# Labels of hidden leaves

No grammar element is given for the leaves of tokens that are not matched, and recognition matches
visible tokens. So the leaf of a hidden token stands for the lexical rule of its kind, if the
grammar has it, and for nothing else; whatever happens to the tree afterwards, the leaf keeps this
label.

## Main definitions

* `MatchedAs`: recognition had a leaf made of a hidden token all the same
* `Labelled`: the other hidden leaves of a tree stand for the lexical rules of their kinds

## Main results

* `Labelled.step`, `labelled_of_reaches`: every operation and every run keeps the labels
* `labelled_of_maps`: which names of token kinds make labels in the tree of a parse
-/

namespace ParseTree

open Session

variable {σ γ : Type}

/-- Recognition had a leaf made of the hidden token at a position, to stand for an element. -/
def MatchedAs (ts : List (Transition σ γ)) (i : ℕ) (element : ElementId) : Prop :=
  ∃ tr ∈ ts, ∃ u, tr.op = .command (.newLeaf u element) ∧ u.isHidden ∧ u.index = some i

/-- Hidden leaves stand for the lexical rules of their kinds and for nothing else, unless they were
made to stand for elements. -/
def Labelled (env : Setting σ γ) (ts : List (Transition σ γ)) (t : Tree) : Prop :=
  ∀ x leaf, (t.node x).leaf? = some leaf → leaf.isHidden →
    (∃ element, MatchedAs ts leaf.token element ∧ (t.node x).grammar = [element]) ∨
      (t.node x).grammar = ((env.config.lexerRule? leaf.kind).bind env.grammar.rule?).toList

section Labelled

variable {env : Setting σ γ} {s s' s₀ : Session σ γ} {t t' : Tree} {op : Operation}
  {answer : op.Answer} {ts us : List (Transition σ γ)}

theorem Labelled.mono (h : Labelled env us t) (hs : us ⊆ ts) : Labelled env ts t := by
  intro x leaf hx hhidden
  rcases h x leaf hx hhidden with ⟨element, ⟨tr, htr, hm⟩, hg⟩ | hg
  · exact Or.inl ⟨element, ⟨tr, hs htr, hm⟩, hg⟩
  · exact Or.inr hg

/-- Labels are kept where leaves and what they stand for are. -/
theorem Labelled.congr (h : Labelled env ts t) (hl : ∀ x, (t'.node x).leaf? = (t.node x).leaf?)
    (hg : ∀ x, (t.node x).leaf? ≠ none → (t'.node x).grammar = (t.node x).grammar) :
    Labelled env ts t' := by
  intro x leaf hx hhidden
  rw [hl] at hx
  rw [hg x (hx ▸ Option.some_ne_none leaf)]
  exact h x leaf hx hhidden

theorem Labelled.sameNodes (h : Labelled env ts t) (hn : t.SameNodes t') : Labelled env ts t' :=
  h.congr hn.leaf? fun x _ => hn.grammar x

theorem labelled_empty (env : Setting σ γ) (ts : List (Transition σ γ)) :
    Labelled env ts .empty := by
  intro x leaf hx
  rw [Tree.node_empty] at hx
  cases hx

/-! ## Leaves -/

/-- A token gets a leaf with the right label, provided that recognition gave the element of a hidden
one. -/
theorem Labelled.createLeaf (h : Labelled env ts s.tree) {u : Token} {i : ℕ}
    {element? : Option ElementId} (he : ∀ e ∈ element?, u.isHidden → MatchedAs ts i e)
    (feature : Option String) :
    Labelled env ts (s.createLeaf env u i element? feature).tree := by
  intro x leaf hx hhidden
  rw [leaf?_createLeaf] at hx
  rw [(sameButLookahead_createLeaf ..).grammar, leafTree, Tree.grammar_addLeaf]
  split_ifs at hx ⊢
  · obtain rfl := Option.some.inj hx
    cases element? with
    | none => exact Or.inr rfl
    | some element => exact Or.inl ⟨element, he element rfl hhidden, rfl⟩
  · exact h x leaf hx hhidden

theorem Labelled.foldl (h : Labelled env ts s.tree) (l : List ℕ) :
    Labelled env ts (l.foldl (appendToken env) s).tree := by
  induction l generalizing s with
  | nil => exact h
  | cons i l ih =>
    apply ih
    rw [appendToken]
    split
    · exact h
    · split
      · exact h
      · exact h.createLeaf (fun e he => absurd he (Option.not_mem_none e)) none

theorem Labelled.newLeaf (h : Labelled env ts s.tree) {u : Token} {element : ElementId}
    (hm : ∀ i ∈ u.index, u.isHidden → MatchedAs ts i element)
    (hs : s.newLeaf env u element = .ok s') : Labelled env ts s'.tree := by
  rw [Session.newLeaf] at hs
  split at hs
  · exact Except.ok.inj hs ▸ h
  · next index hi =>
    split_ifs at hs
    · exact Except.ok.inj hs ▸ h
    · obtain ⟨feature, -, hs⟩ := exists_of_bind_eq_ok hs
      obtain rfl := Except.ok.inj hs
      refine (h.foldl _).createLeaf (fun e he => ?_) feature
      obtain rfl := Option.some.inj he
      exact hm index hi

theorem Labelled.appendSkipped (h : Labelled env ts s.tree) :
    Labelled env ts (s.appendSkipped env).tree := by
  rw [Session.appendSkipped]
  split
  · exact h
  · split_ifs
    · exact h.foldl _
    · exact h

theorem Labelled.appendRest (h : Labelled env ts s.tree) (start : ℕ) :
    Labelled env ts (s.appendRest env start).tree := by
  rw [Session.appendRest]
  split_ifs
  · exact h.foldl _
  · exact h

theorem Labelled.appendTrailing (h : Labelled env ts s.tree) :
    Labelled env ts (s.appendTrailing env).tree := by
  rw [Session.appendTrailing]
  split
  · exact h
  · exact h.appendRest _

theorem Labelled.appendAll (h : Labelled env ts s.tree) :
    Labelled env ts (s.appendAll env).tree := by
  have hr := h.appendRest s.nextToken
  rw [Session.appendAll, flushPending]
  split
  · exact hr
  · exact hr.sameNodes (Tree.sameNodes_attachError ..)

theorem Labelled.resume (h : Labelled env ts s.tree) (e : RecognitionError) :
    Labelled env ts (s.resume env e).tree :=
  (h.sameNodes (steady_recover env s e).nodes).appendSkipped

/-! ## Composites -/

/-- A leaf is no new node. -/
theorem Tree.ne_nextId_of_leaf? {x : NodeId} (hx : (t.node x).leaf? ≠ none) : x ≠ t.nextId := by
  rintro rfl
  rw [node_of_not_contains t.not_contains_nextId] at hx
  exact hx rfl

theorem Labelled.newComposite (h : Labelled env ts s.tree) (element : ElementId) :
    Labelled env ts (s.newComposite env element).tree := by
  refine h.congr Tree.leaf?_addComposite fun x hx => ?_
  apply (Tree.grammar_addComposite x).trans
  rw [if_neg (Tree.ne_nextId_of_leaf? hx)]

theorem Labelled.wrapCurrent (h : Labelled env ts s.tree) (action : ElementId) :
    Labelled env ts (s.wrapCurrent action).tree := by
  refine h.congr (leaf?_wrapCurrent s action) fun x hx => ?_
  rw [(sameButLookahead_wrapCurrent s action).grammar, Tree.grammar_wrap,
    if_neg (Tree.ne_nextId_of_leaf? hx)]

/-- What is merged are composites. -/
theorem Labelled.merge (h : Labelled env ts s.tree) (hl : Linked s) {child : NodeId}
    (hm : s.tree.Mergeable s.current child) : Labelled env ts (s.merge child).tree := by
  refine h.congr (leaf?_merge hl hm) fun x hx => ?_
  have hcurrent : x ≠ s.current := fun heq => hx (heq ▸ hl.current.leaf?)
  have hchild : x ≠ child := fun heq => hx (heq ▸ hm.leaf?)
  rw [(sameButLookahead_merge s child).grammar, Tree.grammar_absorb hl.wellFormed hm,
    if_neg hcurrent, if_neg hchild]

theorem Labelled.afterRuleCall (h : Labelled env ts s.tree) (hl : Linked s) :
    Labelled env ts (s.afterRuleCall env).tree := by
  cases hp : s.tree.parent? s.current with
  | none => rwa [afterRuleCall_of_parent?_eq_none hp]
  | some p =>
    rw [afterRuleCall_eq hp]
    cases hc : s.absorbed? env with
    | none => exact h
    | some child => exact h.merge hl (mergeable_of_absorbed? hc)

theorem Labelled.createWrapper (h : Labelled env ts s.tree) (hl : Linked s) {action : ElementId}
    {value : Option SemanticId} {answer : Except ParseError SemanticId}
    (hs : s.createWrapper env action value = .ok (answer, s')) : Labelled env ts s'.tree := by
  rcases createWrapper_cases hs with rfl | ⟨classifier, rfl | ⟨element, assigned, u, hu, hs'⟩⟩
  · exact h
  · exact h
  · have hm := steady_make env s classifier
    have ha : Steady s u := hu ▸ hm.trans (steady_assignAction env (hm.linked hl))
    have hu := h.sameNodes ha.nodes
    rcases hs' with rfl | rfl
    · exact hu
    · have hw := linked_wrapCurrent (ha.linked hl) action
      exact (hu.wrapCurrent action).sameNodes (steady_associate hw (Or.inl rfl) element).nodes

/-! ## Runs -/

theorem Labelled.perform {c : Command} (h : Labelled env ts s.tree) (hl : Linked s)
    (hm : ∀ u e, c = .newLeaf u e → ∀ i ∈ u.index, u.isHidden → MatchedAs ts i e)
    (hs : s.perform env c = .ok s') : Labelled env ts s'.tree := by
  cases c with
  | newLeaf u element => exact h.newLeaf (hm u element rfl) hs
  | enterRule =>
    exact Except.ok.inj hs ▸ h.sameNodes (sameButLookahead_enterRule s).toSameNodes
  | newComposite element => exact Except.ok.inj hs ▸ h.newComposite element
  | afterRuleCall => exact Except.ok.inj hs ▸ h.afterRuleCall hl
  | appendSkipped => exact Except.ok.inj hs ▸ h.appendSkipped
  | appendTrailing => exact Except.ok.inj hs ▸ h.appendTrailing
  | appendAll => exact Except.ok.inj hs ▸ h.appendAll
  | report e => exact Except.ok.inj hs ▸ h.sameNodes (steady_report env s e).nodes
  | recover e => exact Except.ok.inj hs ▸ h.sameNodes (steady_recover env s e).nodes
  | _ => exact Except.ok.inj hs ▸ h

/-- Every operation keeps the labels and makes no leaf without its own. -/
theorem Labelled.step (h : Labelled env ts s.tree) (hl : Linked s)
    (hs : s.step env op = .ok (answer, s')) :
    Labelled env (ts ++ [⟨s, op, answer, s'⟩]) s'.tree := by
  have h := h.mono (List.subset_append_left ts [⟨s, op, answer, s'⟩])
  cases op with
  | command c =>
    refine h.perform hl (fun u e hc i hi hhidden => ?_) (perform_of_step hs)
    exact ⟨_, List.mem_append_right _ (List.mem_singleton_self _), u, congrArg _ hc, hhidden, hi⟩
  | matchToken expected follow =>
    have hsteady := steady_matchToken env s expected follow
    rw [Except.ok.inj hs] at hsteady
    exact h.sameNodes hsteady.nodes
  | groupFailure rule group => exact h.sameNodes (steady_groupFailure hs).nodes
  | catchError e =>
    obtain ⟨-, rfl⟩ := Prod.mk.inj (Except.ok.inj hs)
    cases e with
    | recognition e => exact h.resume e
    | _ => exact h
  | create site rule => exact h.sameNodes (steady_create hl hs).nodes
  | createWrapper action value => exact h.createWrapper hl hs
  | assign source mode a =>
    have hsteady := steady_assignAt env hl mode a (s.sourceNode source)
    rw [assignAt_of_step hs] at hsteady
    exact h.sameNodes hsteady.nodes
  | _ =>
    obtain ⟨-, rfl⟩ := Prod.mk.inj (Except.ok.inj hs)
    exact h

theorem labelled_of_reaches (h₀ : Labelled env [] s₀.tree) (hl₀ : Linked s₀)
    (h : Reaches env s₀ ts s) : Labelled env ts s.tree := by
  induction h with
  | start => exact h₀
  | step hrun hs ih => exact ih.step (linked_of_reaches hl₀ hrun) hs

end Labelled

/-! ## Parses -/

open Config in
/-- **The last name of a kind is readable, and the last that denotes a rule gives the rule**,
however the names were installed. So a readable name that denotes a rule gives that rule, and the
two agree exactly if the last name denotes a rule or none does. At every point of a parse a hidden
leaf that was not made to stand for an element stands for a rule of the grammar exactly if the last
of the names of its kind that denote rules denotes that rule, and for nothing otherwise; the tree of
a completed parse is the one at its end. -/
theorem labelled_of_maps (maps : List (List (TokenKind × String))) :
    (∀ kind,
      (standard.installMaps maps).tokenName kind = (lastName? maps.flatten kind).getD kind.inspect ∧
      (∀ rule, (standard.installMaps maps).lexerRule? kind = some rule ↔
        lastRuleName? maps.flatten kind = some ("RULE_" ++ rule)) ∧
      (∀ rule, (standard.installMaps maps).tokenName kind = "RULE_" ++ rule →
        (standard.installMaps maps).lexerRule? kind = some rule) ∧
      ((∀ rule, (standard.installMaps maps).lexerRule? kind = some rule ↔
          (standard.installMaps maps).tokenName kind = "RULE_" ++ rule) ↔
        (∃ name, lastName? maps.flatten kind = some name ∧ DenotesRule name) ∨
          ∀ name ∈ namesOf maps.flatten kind, ¬ DenotesRule name)) ∧
    ∀ {σ γ : Type} (env : Setting σ γ) (factory : σ) (groups : γ),
      env.config.lexerRules = (standard.installMaps maps).lexerRules →
      (∀ ts s, Reaches env (start env factory groups) ts s →
        ∀ x leaf, (s.tree.node x).leaf? = some leaf → leaf.isHidden →
          (∃ element, MatchedAs ts leaf.token element ∧ (s.tree.node x).grammar = [element]) ∨
          (∀ id, (s.tree.node x).grammar = [id] ↔
            ∃ name, lastRuleName? maps.flatten leaf.kind = some ("RULE_" ++ name) ∧
              env.grammar.rule? name = some id) ∧
          ((s.tree.node x).grammar = [] ∨ ∃ id, (s.tree.node x).grammar = [id])) ∧
      ∀ rule p parse t, (start env factory groups).parse env rule p = .ok (.ok parse, t) →
        Reaches env (start env factory groups)
            ((topLevel rule p).history env (start env factory groups)) t ∧
          parse.syntaxTree.tree = t.tree := by
  rw [installMaps_eq]
  constructor
  · intro kind
    refine ⟨tokenName_installAll _ kind, fun rule => lexerRule?_eq_some_iff, fun rule h => ?_,
      inStep_iff⟩
    rw [lexerRule?_eq_some_iff]
    exact lastRuleName?_of_denotesRule (tokenName_eq_append_iff.mp h) (denotesRule_append rule)
  · intro σ γ env factory groups hconfig
    constructor
    · intro ts s hr x leaf hx hhidden
      have hrules : env.config.lexerRule? leaf.kind =
          (standard.installAll maps.flatten).lexerRule? leaf.kind :=
        congrArg (List.lookup leaf.kind) hconfig
      have hl₀ : Linked (start env factory groups) := linked_start env factory groups
      refine (labelled_of_reaches (labelled_empty env []) hl₀ hr x leaf hx hhidden).imp_right
        fun hlabel => ?_
      rw [hlabel, hrules]
      constructor
      · intro id
        rw [Option.toList_eq_singleton_iff, Option.bind_eq_some_iff]
        exact exists_congr fun name => and_congr_left' lexerRule?_eq_some_iff
      · cases ((standard.installAll maps.flatten).lexerRule? leaf.kind).bind env.grammar.rule? with
        | none => exact Or.inl rfl
        | some id => exact Or.inr ⟨id, rfl⟩
    · intro rule p parse t hparse
      obtain ⟨element, s, hr, rfl, rfl⟩ := exists_run_of_parse_eq_ok hparse
      exact ⟨Procedure.reaches_history (run_topLevel hr), rfl⟩

namespace Sample

/-- Blanks come from a rule, but messages use another name for them. -/
def renamed : Setting Unit Unit :=
  { setting with
    grammar := ⟨"Sample", setting.grammar.entries.push ⟨.rule "WS" .terminal none none, none, .one⟩⟩
    config := Config.standard.installMaps [[(⟨6⟩, "RULE_WS")], [(⟨6⟩, "blank")]] }

end Sample

open Sample in
/-- In the sample the leaf of the blank stands for the rule, whose name is not the readable one. -/
theorem labelled_of_renamed : ∃ parse t,
    (start renamed () ()).parse renamed ⟨0⟩ procedure = .ok (.ok parse, t) ∧
    renamed.config.tokenName ⟨6⟩ = "blank" ∧ renamed.config.lexerRule? ⟨6⟩ = some "WS" ∧
    (parse.syntaxTree.tree.node ⟨6⟩).leaf? = some ⟨1, ⟨6⟩, ⟨1, 2⟩, true, none⟩ ∧
    (parse.syntaxTree.tree.node ⟨6⟩).grammar = [⟨5⟩] := by
  have hmatched : ∀ tr ∈ (topLevel ⟨0⟩ procedure).history renamed (start renamed () ()),
      ∀ u ∈ tr.op.leafToken?, u.isHidden = false := by
    decide +kernel
  have hcompleted : (((start renamed () ()).parse renamed ⟨0⟩ procedure).toOption.bind
      (·.1.toOption)).any fun parse =>
        (parse.syntaxTree.tree.node ⟨6⟩).leaf? = some ⟨1, ⟨6⟩, ⟨1, 2⟩, true, none⟩ := by
    decide +kernel
  obtain ⟨parse, t, hparse, hleaf⟩ := exists_parse_of_any hcompleted
  have hleaf := of_decide_eq_true hleaf
  obtain ⟨hkind, hlabels⟩ := labelled_of_maps [[(⟨6⟩, "RULE_WS")], [(⟨6⟩, "blank")]]
  obtain ⟨hname, hrule, -⟩ := hkind ⟨6⟩
  obtain ⟨hreached, hcomplete⟩ := hlabels renamed () () rfl
  obtain ⟨hr, htree⟩ := hcomplete ⟨0⟩ procedure parse t hparse
  rcases hreached _ t hr ⟨6⟩ _ (htree ▸ hleaf) rfl with
    ⟨element, ⟨tr, htr, u, hop, hhidden, -⟩, -⟩ | ⟨hgrammar, -⟩
  · have hvisible := hmatched tr htr u (by rw [hop]; rfl)
    cases hvisible.symm.trans hhidden
  · refine ⟨parse, t, hparse, hname, (hrule "WS").mpr (by decide), hleaf, htree ▸ ?_⟩
    exact (hgrammar ⟨5⟩).mpr ⟨"WS", by decide, by decide⟩

open Config in
/-- A name that denotes no rule leaves the rule of an earlier name as it is. -/
theorem not_inStep_of_later_name :
    let c := standard.installMaps [[(⟨4⟩, "RULE_WS"), (⟨4⟩, "blank")]]
    ¬ (c.lexerRule? ⟨4⟩ = some "WS" ↔ c.tokenName ⟨4⟩ = "RULE_" ++ "WS") := by
  decide

end ParseTree
