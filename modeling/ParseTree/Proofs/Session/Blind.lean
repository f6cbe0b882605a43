import ParseTree.Proofs.Session.InStep
import ParseTree.Value.Decimal.Longhand

/-!
# Hidden tokens do not influence recognition

A procedure that does not look at positions goes on in the same way in all streams with the same
visible tokens. What is hidden between them changes positions and offsets and adds leaves, but no
decision, no message that waits, no failure and no element.

## Main definitions

* `BalancedFrom`: the histories that close no more composites than are open

## Main results

* `InStep.run`: procedures that treat counterparts alike stay in step
* `parse_reading`: parses of streams that agree go on and end alike
-/

namespace ParseTree

open Session TokenStream

variable {σ γ : Type}

/-! ## Runs -/

/-- In every prefix, at most `d` composites more were closed than opened. -/
def BalancedFrom (d : ℕ) (ts : List (Transition σ γ)) : Prop :=
  ∀ us, us <+: ts → us.countP (·.op.closes) ≤ us.countP (·.op.opens) + d

section Balanced

variable {d : ℕ} {tr : Transition σ γ} {ts : List (Transition σ γ)}

theorem BalancedFrom.pos (h : BalancedFrom d (tr :: ts)) (ht : tr.op.closes) : 0 < d := by
  have hle := h [tr] (List.prefix_append [tr] ts)
  rwa [List.countP_singleton, List.countP_singleton, if_pos ht, Operation.opens_of_closes ht,
    if_neg Bool.false_ne_true, Nat.zero_add] at hle

theorem BalancedFrom.tail (h : BalancedFrom d (tr :: ts)) :
    BalancedFrom (d + tr.op.opens.toNat - tr.op.closes.toNat) ts := by
  intro us hus
  have hle := h (tr :: us) ((List.prefix_cons_inj tr).mpr hus)
  have hcount (b : Bool) : (if b then 1 else 0) = b.toNat := by
    cases b <;> rfl
  rw [List.countP_cons, List.countP_cons, hcount, hcount] at hle
  omega

theorem balancedFrom_of_not_closes (h : ∀ tr ∈ ts, tr.op.closes = false) : BalancedFrom d ts := by
  intro us hus
  have hzero : us.countP (·.op.closes) = 0 :=
    List.countP_eq_zero.mpr fun tr ht => by simp [h tr (hus.subset ht)]
  rw [hzero]
  exact Nat.zero_le _

end Balanced

theorem Procedure.Counterpart.next {ts ts' : TokenStream} {R : NodeId → NodeId → Prop} {α α' : Type}
    {V : α → α' → Prop} {op op' : Operation} {next : op.Answer → Procedure α}
    {next' : op'.Answer → Procedure α'} {a : op.Answer} {a' : op'.Answer}
    (h : (Procedure.call op next).Counterpart ts ts' R V (.call op' next'))
    (ha : Operation.Reply ts ts' R op op' a a') : (next a).Counterpart ts ts' R V (next' a') := by
  cases h with
  | call _ h => exact h a a' ha

section Run

variable {env : Setting Model γ} {ts : TokenStream} {α α' : Type}
  {V : (NodeId → NodeId → Prop) → α → α' → Prop}

/-- Procedures that treat counterparts alike, however nodes are renumbered, stay in step. -/
theorem InStep.run (h : env.stream.Agrees ts) (hmod : env.modelled = env)
    {R : NodeId → NodeId → Prop} {d : ℕ} {s u : Session Model γ} {p : Procedure α}
    {p' : Procedure α'} (hc : InStep env ts R d s u)
    (hp : ∀ R', (∀ x y, R x y → R' x y) → PreservesOrder R' →
      p.Counterpart env.stream ts R' (V R') p')
    (hb : BalancedFrom d (p.history env s))
    (ht : ∀ tr ∈ p.history env s, tr.op = .command .appendTrailing → tr.op.IsTidy env tr.before) :
    ∃ R', (∀ x y, R x y → R' x y) ∧ PreservesOrder R' ∧
      List.Forall₂ (Transition.Counterpart env ts R') (p.history env s)
        (p'.history (env.reading ts) u) ∧
      Outcomes Eq (fun r r' => V R' r.1 r'.1 ∧ ∃ d', InStep env ts R' d' r.2 r'.2) (p.run env s)
        (p'.run (env.reading ts) u) := by
  -- The renumbering grows with each step; what follows treats counterparts alike in all extensions.
  induction p generalizing p' R d s u with
  | pure a =>
    cases hp R (fun _ _ hR => hR) hc.opened.order with
    | pure hv => exact ⟨R, fun _ _ hR => hR, hc.opened.order, .nil, .ok ⟨hv, d, hc⟩⟩
  | call op next ih =>
    cases hp R (fun _ _ hR => hR) hc.opened.order with
    | @call _ op' _ next' hop _ =>
      rw [Procedure.history] at hb ht
      rw [Procedure.run, Procedure.run, Procedure.history, Procedure.history]
      cases hs : s.step env op with
      | error fault =>
        have hreplied := hc.toCounterpart.replied h hmod hc.left.toLinked hc.right.toLinked hop
          (by rintro rfl; cases hs)
        rw [hs] at hreplied
        generalize u.step (env.reading ts) op' = result at hreplied ⊢
        cases hreplied
        exact ⟨R, fun _ _ hR => hR, hc.opened.order, .nil, .error rfl⟩
      | ok r =>
        obtain ⟨a, s'⟩ := r
        rw [hs] at hb ht
        have hstep := hc.step h hmod hop (ht _ List.mem_cons_self) hb.pos
        rw [hs] at hstep
        generalize u.step (env.reading ts) op' = result at hstep ⊢
        cases hstep with
        | @ok _ r' hstep =>
          obtain ⟨R₁, hR₁, htr, hc'⟩ := hstep
          obtain ⟨R', hR', horder, hhistory, hrun⟩ := ih a hc'
            (fun R' hR' horder => (hp R' (fun x y hR => hR' x y (hR₁ x y hR)) horder).next
              (htr.answer.mono hR'))
            hb.tail fun tr htr => ht tr (List.mem_cons_of_mem _ htr)
          exact ⟨R', fun x y hR => hR' x y (hR₁ x y hR), horder, .cons (htr.mono hR') hhistory,
            hrun⟩

end Run

/-! ## Parses -/

section Finishing

variable {ts ts' : TokenStream} {R : NodeId → NodeId → Prop}

/-- The end of a parse treats counterparts alike. -/
theorem counterpart_finishing (ts ts' : TokenStream) (R : NodeId → NodeId → Prop) :
    finishing.Counterpart ts ts' R Eq finishing := by
  have hsettle {a a' : Except RecognitionError Token}
      (ha : Outcomes (RecognitionError.Counterpart ts ts') (Token.Counterpart ts ts') a a') :
      (settleEnd a).Counterpart ts ts' R Eq (settleEnd a') := by
    cases ha with
    | ok _ => exact .pure rfl
    | @error e e' he =>
      have he : ParseError.Counterpart ts ts' R (.recognition e) (.recognition e') := he
      exact .call (.catchError he) fun _ _ _ => .pure rfl
  refine .call (.plain trivial) fun _ _ _ => .call (.plain trivial) fun _ _ ha => ?_
  refine (hsettle ha).bind fun _ _ _ => ?_
  exact .call (.plain trivial) fun _ _ _ => .call (.plain trivial) fun _ _ _ =>
    .call (.plain trivial) fun _ _ _ => .pure rfl

/-- The end of a parse closes nothing. -/
theorem not_closes_finishing {env : Setting σ γ} {s : Session σ γ} {tr : Transition σ γ}
    (ht : tr ∈ finishing.history env s) : tr.op.closes = false := by
  rw [history_finishing] at ht
  simp only [List.mem_append, List.mem_cons, List.not_mem_nil, or_false] at ht
  rcases ht with ((rfl | rfl) | ht) | rfl | rfl | rfl
  · rfl
  · rfl
  · generalize (s.popFollow.matchToken env .endOfInput ∅).1 = answer at ht
    cases answer with
    | ok t => cases ht
    | error e =>
      rw [List.mem_singleton.mp ht]
      rfl
  · rfl
  · rfl
  · rfl

end Finishing

section Parse

variable {env : Setting Model γ} {ts : TokenStream} {factory : Model} {groups : γ}
  {rule : ElementId}

theorem abreast_start (env : Setting σ γ) (ts : TokenStream) (factory : σ) (groups : γ) :
    Abreast env.stream ts (start env factory groups).bearings
      (start (env.reading ts) factory groups).bearings :=
  ⟨.start env.stream ts, rfl, rfl, .none, rfl, rfl⟩

/-- The sessions in which the entry rule is called are in step. Their trees are the same. -/
theorem inStep_openEntry (env : Setting σ γ) (ts : TokenStream) (factory : σ) (groups : γ)
    (rule : ElementId) :
    InStep env ts
      (fun x y => x = y ∧ ((start env factory groups).openEntry env rule).tree.Contains x) 0
      ((start env factory groups).openEntry env rule)
      ((start (env.reading ts) factory groups).openEntry (env.reading ts) rule) where
  abreast := { abreast_start env ts factory groups with follow := rfl }
  nextToken := rfl
  pending := rfl
  opened := by
    refine ⟨?_, ?_, ?_⟩
    · exact .child ⟨⟨rfl, Nat.one_lt_two⟩, rfl, rfl⟩ rfl rfl
        (.root ⟨⟨rfl, Nat.zero_lt_two⟩, rfl, rfl⟩ rfl rfl)
    · rintro x x' y y' ⟨rfl, -⟩ ⟨rfl, -⟩
      exact Iff.rfl
    · rintro x y ⟨rfl, hx⟩
      exact ⟨hx, hx⟩
  left := rooted_openEntry env factory groups rule
  right := rooted_openEntry (env.reading ts) factory groups rule
  covered := covered_openEntry env factory groups rule
  covered_right := covered_openEntry (env.reading ts) factory groups rule

/-- The first two operations of a parse. -/
theorem counterpart_opening (env : Setting σ γ) (ts : TokenStream) (R : NodeId → NodeId → Prop)
    (factory : σ) (groups : γ) (rule : ElementId) :
    let s := start env factory groups
    let u := start (env.reading ts) factory groups
    List.Forall₂ (Transition.Counterpart env ts R)
      [⟨s, .command (.newComposite rule), (), s.newComposite env rule⟩,
        ⟨s.newComposite env rule, .command (.pushFollow (.ofList [.endOfInput])), (),
          s.openEntry env rule⟩]
      [⟨u, .command (.newComposite rule), (), u.newComposite (env.reading ts) rule⟩,
        ⟨u.newComposite (env.reading ts) rule, .command (.pushFollow (.ofList [.endOfInput])), (),
          u.openEntry (env.reading ts) rule⟩] := by
  have hplace := (abreast_start env ts factory groups).cursor.place
  exact .cons ⟨.plain trivial, trivial, rfl, hplace, hplace, rfl, rfl⟩
    (.cons ⟨.plain trivial, trivial, rfl, hplace, hplace, rfl, rfl⟩ .nil)

theorem modelled_eq (hm : env.messages = .standard) (hf : env.factory = Model.factory) :
    env.modelled = env := by
  rw [Setting.modelled, ← hm, ← hf]

/-- Sessions that stayed in step during the procedure of the entry rule complete alike. -/
theorem InStep.complete {R : NodeId → NodeId → Prop} {d : ℕ} {s u : Session Model γ}
    {trs us : List (Transition Model γ)} (h : env.stream.Agrees ts) (hmod : env.modelled = env)
    (hc : InStep env ts R d s u) (hs : Reaches env (start env factory groups) trs s)
    (hu : Reaches (env.reading ts) (start (env.reading ts) factory groups) us u)
    (element : Option SemanticId) :
    ∃ R', (∀ x y, R x y → R' x y) ∧ PreservesOrder R' ∧
      List.Forall₂ (Transition.Counterpart env ts R') (finishing.history env s)
        (finishing.history (env.reading ts) u) ∧
      (s.finish env).factory = (u.finish (env.reading ts)).factory ∧
      Outcomes (ParseError.Counterpart env.stream ts R') (·.element = ·.element)
        (s.complete env (.ok element)).1 (u.complete (env.reading ts) (.ok element)).1 := by
  obtain ⟨R', hR, horder, hhistory, hrun⟩ := hc.run (V := fun _ => Eq) h hmod
    (fun R' _ _ => counterpart_finishing env.stream ts R')
    (balancedFrom_of_not_closes fun _ htr => not_closes_finishing htr)
    fun _ htr _ => isTidy_finishing env s htr
  rw [run_finishing, run_finishing] at hrun
  cases hrun with
  | ok hv =>
    obtain ⟨-, d', hc'⟩ := hv
    have hs' := hs.trans (Procedure.reaches_history (run_finishing env s))
    have hu' := hu.trans (Procedure.reaches_history (run_finishing (env.reading ts) u))
    refine ⟨R', hR, horder, hhistory, hc'.abreast.factory, ?_⟩
    rw [complete_of_covered h.left hc.left hc.covered hs',
      complete_of_covered h.right hc.right hc.covered_right hu']
    exact .ok rfl

/-- Hidden tokens do not influence recognition. In two streams whose visible tokens agree in kind
and text, a procedure that does not look at positions, closes no more composites than it opened and
does not itself make leaves for trailing tokens calls the same operations, up to an order-preserving
renumbering of nodes and of the positions and offsets of visible tokens. They are answered the same,
make the same repairs, skip as many visible tokens, put the same message into the slot and leave the
same one there. Both parses fault, fail or complete, with the same fault, failure or element, and
build the same model. -/
theorem parse_reading {p : RuleProcedure} (hm : env.messages = .standard)
    (hf : env.factory = Model.factory) (h : env.stream.Agrees ts) (hp : p.IsBlind env.stream ts)
    (ha : Avoids (.command .appendTrailing)
      (p.history env ((start env factory groups).openEntry env rule)))
    (hb : Balanced (p.history env ((start env factory groups).openEntry env rule))) :
    ∃ R, PreservesOrder R ∧
      List.Forall₂ (Transition.Counterpart env ts R)
        ((topLevel rule p).history env (start env factory groups))
        ((topLevel rule p).history (env.reading ts) (start (env.reading ts) factory groups)) ∧
      Outcomes Eq
        (fun r r' => r.2.factory = r'.2.factory ∧
          Outcomes (ParseError.Counterpart env.stream ts R) (·.element = ·.element) r.1 r'.1)
        ((start env factory groups).parse env rule p)
        ((start (env.reading ts) factory groups).parse (env.reading ts) rule p) := by
  have hmod := modelled_eq hm hf
  have hopening (R : NodeId → NodeId → Prop) := counterpart_opening env ts R factory groups rule
  obtain ⟨R, -, horder, hhistory, hrun⟩ :=
    (inStep_openEntry env ts factory groups rule).run (V := SameOutcome env.stream ts) h hmod
      (fun R' _ horder => hp R' horder) hb fun tr htr hop => absurd hop (ha tr htr)
  cases hr : p.run env ((start env factory groups).openEntry env rule) with
  | error fault =>
    rw [hr] at hrun
    generalize hu : p.run (env.reading ts) _ = result at hrun
    cases hrun with
    | error hfault =>
      refine ⟨R, horder, ?_, ?_⟩
      · rw [history_topLevel_of_ne (by simp [hr]), history_topLevel_of_ne (by simp [hu])]
        exact List.rel_append (hopening R) hhistory
      · rw [parse, parse, hr, hu]
        exact .error hfault
  | ok r =>
    obtain ⟨outcome, s⟩ := r
    rw [hr] at hrun
    generalize hu : p.run (env.reading ts) _ = result at hrun
    cases hrun with
    | @ok _ r' hv =>
      obtain ⟨outcome', u⟩ := r'
      obtain ⟨houtcome, d, hc⟩ := hv
      rw [parse_eq hr, parse_eq hu]
      cases houtcome with
      | error he =>
        refine ⟨R, horder, ?_, .ok ⟨hc.abreast.factory, .error he⟩⟩
        rw [history_topLevel_of_ne (by simp [hr]), history_topLevel_of_ne (by simp [hu])]
        exact List.rel_append (hopening R) hhistory
      | @ok element element' helement =>
        obtain rfl : element = element' := helement
        obtain ⟨_, hs⟩ := reaches_openEntry env (start env factory groups) rule
        obtain ⟨_, hs'⟩ :=
          reaches_openEntry (env.reading ts) (start (env.reading ts) factory groups) rule
        obtain ⟨R', hR, horder', hfinishing, hfactory, hresult⟩ := hc.complete h hmod
          (hs.trans (Procedure.reaches_history hr)) (hs'.trans (Procedure.reaches_history hu))
          element
        refine ⟨R', horder', ?_, .ok ⟨hfactory, hresult⟩⟩
        rw [history_topLevel hr, history_topLevel hu]
        refine List.rel_append (List.rel_append (hopening R') ?_) hfinishing
        exact hhistory.imp fun _ _ htr => htr.mono hR

end Parse

/-! ## A sample -/

namespace Sample

variable {ts ts' : TokenStream} {R : NodeId → NodeId → Prop}

/-- The sample with the standard messages and a model. -/
def modelled : Setting Model Unit where
  grammar := setting.grammar
  config := setting.config
  messages := .standard
  stream := stream
  factory := Model.factory
  groups := setting.groups

/-- The two words with other tokens around them. -/
def padded : TokenStream :=
  .ofLexemes " a-- b-" [.token ⟨6⟩ 1 .hidden, .token ⟨5⟩ 1 .visible, .token ⟨8⟩ 2 .hidden,
    .token ⟨6⟩ 1 .hidden, .token ⟨7⟩ 1 .visible, .token ⟨8⟩ 1 .hidden]

/-- Matches the first word, makes an element, stores the text of the word in it, and matches the
second word. -/
def christening : RuleProcedure :=
  .call (.matchToken ⟨5⟩ ∅) fun
    | .error e => .pure (.error (.recognition e))
    | .ok t =>
      .call (.command (.newLeaf t ⟨2⟩)) fun _ =>
      .call (.create .current ⟨0⟩) fun
        | .error e => .pure (.error e)
        | .ok element =>
          .call (.textOf t) fun text =>
          .call (.assign .last .set ⟨element, "name", .text text, none⟩) fun
            | .error e => .pure (.error e)
            | .ok _ => word ⟨7⟩ ⟨4⟩ (.pure (.ok (some element)))

/-- Makes an element if the first word is next. -/
def naming : RuleProcedure :=
  .call (.lookAt 1) fun (t : Token) => if t.kind = ⟨5⟩ then christening else .pure (.ok none)

theorem counterpart_word {next next' : RuleProcedure} (kind : TokenKind) (element : ElementId)
    (h : next.Counterpart ts ts' R (SameOutcome ts ts' R) next') :
    (word kind element next).Counterpart ts ts' R (SameOutcome ts ts' R)
      (word kind element next') := by
  refine .call (.plain trivial) fun answer answer' ha => ?_
  cases ha with
  | @error e e' he => exact .pure (.error he)
  | ok ht => exact .call (.newLeaf ht element) fun _ _ _ => h

theorem counterpart_christening :
    christening.Counterpart ts ts' R (SameOutcome ts ts' R) christening := by
  refine .call (.plain trivial) fun _ _ ha => ?_
  cases ha with
  | @error e e' he => exact .pure (.error he)
  | ok ht =>
    refine .call (.newLeaf ht ⟨2⟩) fun _ _ _ => .call (.plain trivial) fun _ _ ha => ?_
    cases ha with
    | error he => exact .pure (.error he)
    | ok he =>
      subst he
      refine .call (.textOf ht) fun _ _ ha => ?_
      obtain rfl := ha
      refine .call (.plain trivial) fun _ _ ha => ?_
      cases ha with
      | error he => exact .pure (.error he)
      | ok _ => exact counterpart_word ⟨7⟩ ⟨4⟩ (.pure (.ok rfl))

/-- There are no elements, and texts are not converted. -/
def blank : Model :=
  .empty (.empty .longhand)

/-- The sample procedure looks at kinds and texts only. -/
theorem isBlind_naming (h : ts.Agrees ts') : naming.IsBlind ts ts' := by
  intro R _
  refine .call (.plain trivial) fun (t : Token) (t' : Token) ht => ?_
  have hkind : t.kind = t'.kind := Token.Counterpart.kind h ht
  rw [hkind]
  split_ifs
  · exact counterpart_christening
  · exact .pure (.ok rfl)

end Sample

open Sample in
/-- Whatever surrounds the two words of the sample, an element is named after the first one. -/
theorem parse_reading_of_sample : ∃ parse s parse' s',
    (start modelled blank ()).parse modelled ⟨0⟩ naming = .ok (.ok parse, s) ∧
    (start (modelled.reading padded) blank ()).parse (modelled.reading padded) ⟨0⟩ naming =
      .ok (.ok parse', s') ∧
    parse'.element = some ⟨0⟩ ∧ s'.factory = s.factory := by
  have h : modelled.stream.Agrees padded :=
    ⟨by decide +kernel, by decide +kernel, by decide +kernel⟩
  have ha : Avoids (.command .appendTrailing)
      (naming.history modelled ((start modelled blank ()).openEntry modelled ⟨0⟩)) := by
    decide +kernel
  have hb : Balanced
      (naming.history modelled ((start modelled blank ()).openEntry modelled ⟨0⟩)) := by
    decide +kernel
  have hcompleted : (((start modelled blank ()).parse modelled ⟨0⟩ naming).toOption.bind
      (·.1.toOption)).any fun parse => parse.element = some ⟨0⟩ := by
    decide +kernel
  obtain ⟨parse, s, hparse, helement⟩ := exists_parse_of_any hcompleted
  obtain ⟨R, -, -, hresults⟩ := parse_reading rfl rfl h (isBlind_naming h) ha hb
  rw [hparse] at hresults
  generalize (start (modelled.reading padded) blank ()).parse (modelled.reading padded) ⟨0⟩ naming =
    result at hresults ⊢
  cases hresults with
  | @ok _ r' hresult =>
    obtain ⟨result', s'⟩ := r'
    obtain ⟨hfactory, hoc⟩ := hresult
    cases hoc with
    | @ok _ parse' he =>
      exact ⟨parse, s, parse', s', hparse, rfl, he.symm.trans (of_decide_eq_true helement),
        hfactory.symm⟩

end ParseTree
