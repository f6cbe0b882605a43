import ParseTree.Proofs.Grammar.Forest

/-!
# Walks without end

A question about an element is answered by asking the same of other elements: of its container, or
of the parts that its description mentions. Whatever containers were declared, the answers come
after finitely many steps unless a walk comes to an element that lies in itself. Such an element
exists exactly if a declaration named a container that no earlier one had answered with.

The recursion is well-founded at an element if the element is accessible from those that it asks.
This does not refer to how the walks are computed, which compare positions to tell when to give up.

## Main definitions

* `Grammar.Mentions`: the steps of descriptions
* `Grammar.EndsAlong`: an answer comes exactly if the walk ends

## Main results

* `endsAlong_of_step`: what is asked of single elements tells when walks end
* `endsAlong_ofDeclarations`: walks end unless they come to an element that lies in itself
-/

namespace ParseTree

open Relation

/-- The parts that are described within the description of an element. -/
def Element.mentioned : Element → List ElementId
  | assignment _ _ part => part.toList
  | alternatives ms | group ms | unorderedGroup ms => ms
  | rule .. | keyword _ | ruleCall _ | action .. | crossReference .. => []

theorem Element.mem_children_of_mentioned {element : Element} {part : ElementId}
    (h : part ∈ element.mentioned) : part ∈ element.children := by
  cases element with
  | assignment | alternatives | group | unorderedGroup => exact h
  | rule | keyword | ruleCall | action | crossReference => cases h

namespace Grammar

/-! ### Walks along a relation -/

variable {α : Type} {R : ElementId → ElementId → Prop} {q : ElementId → Except WalkFault α}
  {a e : ElementId}

/-- What an element is asked is asked of all elements that the relation leads to. -/
structure EndsAlong (R : ElementId → ElementId → Prop) (q : ElementId → Except WalkFault α)
    (e : ElementId) : Prop where
  /-- There is an answer if and only if every way along the relation ends. -/
  answers_iff : (∃ answer, q e = .ok answer) ↔ Acc (flip R) e
  /-- Every way ends if and only if none comes to an element that leads to itself. -/
  acc_iff : Acc (flip R) e ↔ ∀ a, ReflTransGen R e a → ¬ R a a
  /-- A walk without answer came to such an element. -/
  fault : ∀ f, q e = .error f → ∃ a, f = .endless a ∧ ReflTransGen R e a ∧ R a a

/-- How an element gets its answer from the elements that the relation leads to. -/
inductive StepAlong (R : ElementId → ElementId → Prop) (q : ElementId → Except WalkFault α)
    (a : ElementId) : Prop
  /-- All of them are others and have answers. -/
  | answered {answer : α} (h : q a = .ok answer)
    (next : ∀ b, R a b → b ≠ a ∧ ∃ answer, q b = .ok answer)
  /-- The element itself is among them. -/
  | caught (h : R a a) (hq : q a = .error (.endless a))
  /-- Another one has no answer. -/
  | failed {b : ElementId} {f : WalkFault} (h : R a b) (hne : b ≠ a) (hb : q b = .error f)
    (ha : q a = .error f)

theorem mapM_cases {ε β : Type} (f : ElementId → Except ε β) (ids : List ElementId) :
    (∃ answers, ids.mapM f = .ok answers ∧ ∀ id ∈ ids, ∃ answer, f id = .ok answer) ∨
      ∃ id ∈ ids, ∃ fault, f id = .error fault ∧ ids.mapM f = .error fault := by
  induction ids with
  | nil => exact Or.inl ⟨[], rfl, nofun⟩
  | cons id ids ih =>
    rw [List.mapM_cons]
    cases hid : f id with
    | error fault => exact Or.inr ⟨id, List.mem_cons_self .., fault, hid, rfl⟩
    | ok answer =>
      rcases ih with ⟨answers, hids, hall⟩ | ⟨id', hmem, fault, hid', hids⟩
      · refine Or.inl ⟨answer :: answers, by rw [hids]; rfl, fun id' hmem => ?_⟩
        rcases List.mem_cons.mp hmem with rfl | hmem
        exacts [⟨answer, hid⟩, hall id' hmem]
      · exact Or.inr ⟨id', List.mem_cons_of_mem _ hmem, fault, hid', by rw [hids]; rfl⟩

/-- An element asks others one after another, and gives up where it would ask itself. -/
theorem stepAlong_of_mapM {ask : ElementId → Except WalkFault α} {ids : List ElementId}
    {combine : List α → α} (hR : ∀ b, R a b ↔ b ∈ ids)
    (hask : ∀ b ∈ ids, ask b = if b = a then .error (.endless a) else q b)
    (hq : q a = (ids.mapM ask).map combine) : StepAlong R q a := by
  rcases mapM_cases ask ids with ⟨answers, hids, hall⟩ | ⟨b, hb, f, hf, hids⟩
  all_goals rw [hids] at hq
  · refine .answered hq fun b hb => ?_
    obtain ⟨answer, hb'⟩ := hall b ((hR b).mp hb)
    rw [hask b ((hR b).mp hb)] at hb'
    split at hb'
    · cases hb'
    · next hne => exact ⟨hne, answer, hb'⟩
  · rw [hask b hb] at hf
    split at hf
    · next heq =>
      cases hf
      subst heq
      exact .caught ((hR b).mpr hb) hq
    · next hne => exact .failed ((hR b).mpr hb) hne hf hq

/-- An element asks one other, and gives up where it would ask itself. -/
theorem stepAlong_of_single {b : ElementId} (hb : R a b) (hunique : ∀ c, R a c → c = b)
    (hq : q a = if b = a then .error (.endless a) else q b) : StepAlong R q a := by
  split at hq
  · next heq => exact .caught (heq ▸ hb) hq
  · next hne =>
    cases h : q b with
    | ok answer => exact .answered (hq.trans h) fun c hc => hunique c hc ▸ ⟨hne, answer, h⟩
    | error f => exact .failed hb hne h (hq.trans h)

/-- No way that ends comes to an element that leads to itself. -/
theorem not_rel_self_of_acc (h : Acc (flip R) e) (ha : ReflTransGen R e a) : ¬ R a a := by
  induction h with
  | intro e _ ih =>
    rcases ReflTransGen.cases_head ha with rfl | ⟨b, hb, ha⟩
    · exact fun hself => ih e hself .refl hself
    · exact ih b hb ha

/-- If the other steps lower a rank, this is the only way not to end. -/
theorem acc_of_rank {P : ElementId → Prop} {rank : ElementId → ℕ}
    (hP : ∀ a b, P a → R a b → P b ∧ (b ≠ a → rank b < rank a)) (he : P e)
    (h : ∀ a, ReflTransGen R e a → ¬ R a a) : Acc (flip R) e := by
  induction hn : rank e using Nat.strongRecOn generalizing e with
  | ind n ih =>
    subst hn
    refine .intro e fun b hb => ?_
    obtain ⟨hb', hlt⟩ := hP e b he hb
    have hne : b ≠ e := fun heq => h e .refl (heq ▸ hb)
    exact ih (rank b) (hlt hne) hb' (fun a ha => h a (.head hb ha)) rfl

/-- Either there is an answer and no way to an element that leads to itself, or there is such an
element and it is the fault. -/
theorem answered_or_caught {P : ElementId → Prop} {rank : ElementId → ℕ}
    (hP : ∀ a b, P a → R a b → P b ∧ (b ≠ a → rank b < rank a))
    (hstep : ∀ a, P a → StepAlong R q a) (he : P e) :
    (∃ answer, q e = .ok answer) ∧ (∀ a, ReflTransGen R e a → ¬ R a a) ∨
      ∃ a, q e = .error (.endless a) ∧ ReflTransGen R e a ∧ R a a := by
  -- The rank falls along every step to another element, so the induction is on it.
  induction hn : rank e using Nat.strongRecOn generalizing e with
  | ind n ih =>
    subst hn
    cases hstep e he with
    | @answered answer h next =>
      refine Or.inl ⟨⟨answer, h⟩, fun a ha => ?_⟩
      rcases ReflTransGen.cases_head ha with rfl | ⟨b, hb, ha⟩
      · exact fun hself => (next e hself).1 rfl
      · obtain ⟨hne, _, hanswer⟩ := next b hb
        obtain ⟨hb', hlt⟩ := hP e b he hb
        rcases ih (rank b) (hlt hne) hb' rfl with ⟨-, hno⟩ | ⟨_, hfault, -⟩
        · exact hno a ha
        · cases hanswer.symm.trans hfault
    | caught h hq => exact Or.inr ⟨e, hq, .refl, h⟩
    | @failed b f hb hne hf hq =>
      obtain ⟨hb', hlt⟩ := hP e b he hb
      rcases ih (rank b) (hlt hne) hb' rfl with ⟨⟨_, hanswer⟩, -⟩ | ⟨a, hfault, ha, hself⟩
      · cases hf.symm.trans hanswer
      · cases hf.symm.trans hfault
        exact Or.inr ⟨a, hq, .head hb ha, hself⟩

/-- **Walks end as their steps tell**: a question is answered if and only if no way along the
relation goes on for ever. -/
theorem endsAlong_of_step {P : ElementId → Prop} (rank : ElementId → ℕ)
    (hP : ∀ a b, P a → R a b → P b ∧ (b ≠ a → rank b < rank a))
    (hstep : ∀ a, P a → StepAlong R q a) (he : P e) : EndsAlong R q e := by
  have hacc : Acc (flip R) e ↔ ∀ a, ReflTransGen R e a → ¬ R a a :=
    ⟨fun h _ => not_rel_self_of_acc h, acc_of_rank hP he⟩
  rcases answered_or_caught hP hstep he with ⟨⟨answer, h⟩, hno⟩ | ⟨a, h, ha, hself⟩
  · refine ⟨iff_of_true ⟨answer, h⟩ (hacc.mpr hno), hacc, fun f hf => ?_⟩
    cases h.symm.trans hf
  · refine ⟨iff_of_false ?_ fun hacc => not_rel_self_of_acc hacc ha hself, hacc, fun f hf => ?_⟩
    · rintro ⟨answer, h'⟩
      cases h.symm.trans h'
    · cases h.symm.trans hf
      exact ⟨a, rfl, ha, hself⟩

/-! ### The three walks -/

variable {g : Grammar} {entry : Entry} {name : String} {ds : List Declaration} {c p : ElementId}

/-- The description of an element contains that of one of its parts. -/
def Mentions (g : Grammar) (p c : ElementId) : Prop :=
  ∃ element, g.element? p = some element ∧ c ∈ element.mentioned

theorem Mentions.liesIn (hg : g.Linked) (h : g.Mentions p c) : g.LiesIn c p := by
  obtain ⟨element, helement, hc⟩ := h
  refine (hg.container_iff c p).mpr ?_
  rw [parts, helement]
  exact Element.mem_children_of_mentioned hc

theorem LiesIn.lt_of_ne (hg : g.Linked) (h : g.LiesIn c p) (hne : p ≠ c) : p.index < c.index :=
  Nat.lt_of_le_of_ne (hg.le c p h) fun heq => hne (ElementId.index_inj.mp heq)

theorem LiesIn.container_lt_size (hg : g.Linked) (h : g.LiesIn c p) : p.index < g.size :=
  Nat.lt_of_le_of_lt (hg.le c p h) (lt_size_of_container? h)

/-- The test by which a walk to the containers gives up. -/
theorem ite_lt_eq_ite_eq (hg : g.Linked) (h : g.LiesIn c p) {x y : Except WalkFault α} :
    (if p.index < c.index then x else y) = if p = c then y else x := by
  by_cases heq : p = c
  · rw [if_pos heq, heq, if_neg (Nat.lt_irrefl _)]
  · rw [if_neg heq, if_pos (h.lt_of_ne hg heq)]

theorem stepAlong_containingRule (hg : g.Linked) (he : e.index < g.size) :
    StepAlong g.LiesIn g.containingRule e := by
  cases hc : g.container? e with
  | none =>
    refine .answered (containingRule_of_isRule ((hg.root_iff e he).mp hc)) fun p hp => ?_
    cases hc.symm.trans hp
  | some p =>
    refine stepAlong_of_single hc (fun c h => Option.some.inj (h.symm.trans hc)) ?_
    rw [containingRule_of_liesIn (hg.isRule_eq_false hc) hc, ite_lt_eq_ite_eq hg hc]

theorem stepAlong_feature (hg : g.Linked) (he : e.index < g.size) :
    StepAlong g.Passes g.feature e := by
  rcases feature_cases hg he with ⟨f, hf⟩ | ⟨p, hp⟩ | ⟨hnone, -, hpasses⟩
  · exact .answered (feature_of_assigns hf) fun p hp => absurd hp (hf.not_passes p)
  · refine stepAlong_of_single hp (fun c h => Option.some.inj (h.2.symm.trans hp.2)) ?_
    rw [feature_of_passes hp, ite_lt_eq_ite_eq hg hp.2]
  · exact .answered hnone fun p hp => absurd hp (hpasses p)

/-- The description of a part within that of an element, which gives up on parts that come before
it. -/
def describePart (g : Grammar) (e part : ElementId) : Except WalkFault String :=
  if e.index < part.index ∧ part.index < g.size then g.describe part else throw (.endless e)

/-- A description is put together from those of the parts that it mentions. -/
theorem describe_eq (h : g.entry? e = some entry) : ∃ text : List String → String,
    g.describe e = (entry.element.mentioned.mapM (g.describePart e)).map text := by
  rw [describe, visit_eq h]
  simp only [bind, Except.bind]
  unfold describePart
  cases helement : entry.element with
  | rule name kind classifier body => exact ⟨fun _ => name, rfl⟩
  | keyword value => exact ⟨fun _ => "'" ++ value ++ "'", rfl⟩
  | ruleCall name => exact ⟨fun _ => name, rfl⟩
  | assignment f operator part =>
    cases part with
    | none => exact ⟨fun _ => f, rfl⟩
    | some part =>
      refine ⟨fun texts => f ++ "=" ++ texts.headD "", ?_⟩
      simp only [Element.mentioned, Option.toList, List.mapM_cons, List.mapM_nil]
      split
      · cases g.describe part <;> rfl
      · rfl
  | action classifier assigned => exact ⟨fun _ => "\x7b" ++ classifier ++ "\x7d", rfl⟩
  | alternatives ms | group ms | unorderedGroup ms =>
    refine ⟨fun texts => "(" ++ entry.element.separator.intercalate texts ++ ")", ?_⟩
    rw [helement]
    dsimp only [Element.mentioned]
    split
    all_goals
      next htexts =>
        rw [htexts]
        rfl
  | crossReference classifier terminal => exact ⟨fun _ => "[" ++ classifier ++ "]", rfl⟩

theorem stepAlong_describe (hg : g.Linked) (he : e.index < g.size) :
    StepAlong g.Mentions g.describe e := by
  obtain ⟨entry, hentry⟩ := exists_entry he
  obtain ⟨text, htext⟩ := describe_eq hentry
  have hmentions : ∀ b, g.Mentions e b ↔ b ∈ entry.element.mentioned := fun b => by
    rw [Mentions, element?_eq hentry]
    simp
  refine stepAlong_of_mapM hmentions (fun b hb => ?_) htext
  have hliesIn := ((hmentions b).mpr hb).liesIn hg
  calc g.describePart e b
      = if e.index < b.index then g.describe b else .error (.endless e) :=
        if_congr (and_iff_left (lt_size_of_container? hliesIn)) rfl rfl
    _ = if e = b then .error (.endless e) else g.describe b := ite_lt_eq_ite_eq hg hliesIn
    _ = if b = e then .error (.endless e) else g.describe b := if_congr eq_comm rfl rfl

/-! ### All declared grammars -/

theorem Linked.endsAlong_containingRule (hg : g.Linked) (he : e.index < g.size) :
    EndsAlong g.LiesIn g.containingRule e :=
  endsAlong_of_step ElementId.index
    (fun _ _ _ h => ⟨LiesIn.container_lt_size hg h, fun hne => LiesIn.lt_of_ne hg h hne⟩)
    (fun _ => stepAlong_containingRule hg) he

theorem Linked.endsAlong_feature (hg : g.Linked) (he : e.index < g.size) :
    EndsAlong g.Passes g.feature e :=
  endsAlong_of_step ElementId.index
    (fun _ _ _ h => ⟨h.2.container_lt_size hg, fun hne => h.2.lt_of_ne hg hne⟩)
    (fun _ => stepAlong_feature hg) he

theorem Linked.endsAlong_describe (hg : g.Linked) (he : e.index < g.size) :
    EndsAlong g.Mentions g.describe e :=
  endsAlong_of_step (fun e => g.size - e.index)
    (fun a b _ h => by
      have hlt := lt_size_of_container? (h.liesIn hg)
      refine ⟨hlt, fun hne => ?_⟩
      have := (h.liesIn hg).lt_of_ne hg hne.symm
      omega)
    (fun _ => stepAlong_describe hg) he

theorem EndsAlong.answered (h : EndsAlong R q e) (hself : ∀ a, ¬ R a a) :
    ∃ answer, q e = .ok answer :=
  h.answers_iff.mpr (h.acc_iff.mpr fun a _ => hself a)

theorem EndsAlong.not_answered (h : EndsAlong R q e) (ha : ReflTransGen R e a) (hself : R a a) :
    ¬ ∃ answer, q e = .ok answer :=
  fun hq => h.acc_iff.mp (h.answers_iff.mp hq) a ha hself

/-- **Walks through a declared grammar end** unless they come to an element that lies in itself,
whatever containers were declared. All walks from all elements end if and only if every container
was the answer of an earlier declaration. -/
theorem endsAlong_ofDeclarations (name : String) (ds : List Declaration) (g : Grammar)
    (h : ofDeclarations name ds = .ok g) (hfresh : ∀ d ∈ ds, d.Fresh) :
    (∀ e : ElementId, e.index < g.size → EndsAlong g.LiesIn g.containingRule e ∧
      EndsAlong g.Passes g.feature e ∧ EndsAlong g.Mentions g.describe e) ∧
    ((∀ e : ElementId, e.index < g.size → (∃ rule, g.containingRule e = .ok rule) ∧
      (∃ feature, g.feature e = .ok feature) ∧ ∃ text, g.describe e = .ok text) ↔
        Declaration.TopDown ds) := by
  have hg := linked_ofDeclarations hfresh h
  refine ⟨fun e he => ⟨hg.endsAlong_containingRule he, hg.endsAlong_feature he,
    hg.endsAlong_describe he⟩, fun hall => (topDown_iff h).mpr fun c p hp => ?_,
    fun htop e he => ?_⟩
  · refine LiesIn.lt_of_ne hg hp fun heq => ?_
    have hc := lt_size_of_container? hp
    exact (hg.endsAlong_containingRule hc).not_answered .refl (heq ▸ hp) (hall c hc).1
  · have hself : ∀ a, ¬ g.LiesIn a a := fun a ha => Nat.lt_irrefl _ ((topDown_iff h).mp htop a a ha)
    exact ⟨(hg.endsAlong_containingRule he).answered hself,
      (hg.endsAlong_feature he).answered fun a ha => hself a ha.2,
      (hg.endsAlong_describe he).answered fun a ha => hself a (ha.liesIn hg)⟩

/-- Alternatives in themselves, with a keyword: neither finds a rule or an assignment, and only the
keyword can be described. -/
theorem endsAlong_of_alternatives :
    let ds : List Declaration := [.part ⟨0⟩ (.alternatives []), .part ⟨0⟩ (.keyword "a")]
    let g : Grammar := ⟨"Test", #[⟨.alternatives [⟨0⟩, ⟨1⟩], some ⟨0⟩, .one⟩,
      ⟨.keyword "a", some ⟨0⟩, .one⟩]⟩
    ofDeclarations "Test" ds = .ok g ∧ (∀ d ∈ ds, d.Fresh) ∧ ¬ Declaration.TopDown ds ∧
      (¬ ∃ rule, g.containingRule ⟨1⟩ = .ok rule) ∧ (¬ ∃ feature, g.feature ⟨1⟩ = .ok feature) ∧
      (¬ ∃ text, g.describe ⟨0⟩ = .ok text) ∧ ∃ text, g.describe ⟨1⟩ = .ok text := by
  intro ds g
  have hdeclared : ofDeclarations "Test" ds = .ok g := rfl
  have hfresh : ∀ d ∈ ds, d.Fresh := by decide
  obtain ⟨hends, -⟩ := endsAlong_ofDeclarations "Test" ds g hdeclared hfresh
  obtain ⟨-, -, hdescribe⟩ := hends ⟨0⟩ (by decide)
  obtain ⟨hrule, hfeature, hdescribe'⟩ := hends ⟨1⟩ (by decide)
  have hkeyword : g.Passes ⟨1⟩ ⟨0⟩ := ⟨⟨_, rfl, rfl⟩, rfl⟩
  have hself : g.Passes ⟨0⟩ ⟨0⟩ := ⟨⟨_, rfl, rfl⟩, rfl⟩
  have hmentions : g.Mentions ⟨0⟩ ⟨0⟩ := ⟨_, rfl, List.mem_cons_self ..⟩
  refine ⟨hdeclared, hfresh, by decide, hrule.not_answered (.single hkeyword.2) hself.2,
    hfeature.not_answered (.single hkeyword) hself, hdescribe.not_answered .refl hmentions, ?_⟩
  refine hdescribe'.answers_iff.mpr (.intro _ fun b hb => ?_)
  obtain ⟨element, helement, hb⟩ := hb
  cases helement
  cases hb

/-- A reference that is declared inside itself: the walks to its container stay where they are. -/
theorem endless_of_reference :
    let g : Grammar := ⟨"Test", #[⟨.crossReference "A" (some ⟨0⟩), some ⟨0⟩, .one⟩]⟩
    ofDeclarations "Test" [.part ⟨0⟩ (.crossReference "A" none)] = .ok g ∧
      g.containingRule ⟨0⟩ = .error (.endless ⟨0⟩) ∧ ¬ Acc (flip g.LiesIn) ⟨0⟩ ∧
      g.feature ⟨0⟩ = .error (.endless ⟨0⟩) ∧ ¬ Acc (flip g.Passes) ⟨0⟩ := by
  intro g
  have hself : g.Passes ⟨0⟩ ⟨0⟩ := ⟨⟨_, rfl, rfl⟩, rfl⟩
  exact ⟨rfl, (containingRule_of_liesIn rfl hself.2).trans (if_neg (Nat.lt_irrefl _)),
    fun h => not_rel_self_of_acc h .refl hself.2,
    (feature_of_passes hself).trans (if_neg (Nat.lt_irrefl _)),
    fun h => not_rel_self_of_acc h .refl hself⟩

end Grammar

end ParseTree
