import Mathlib.Data.List.Infix
import ParseTree.Session.Parse

/-!
# Histories of sessions

A history records the operations that were called on a session, with their answers and the states
around them. What a procedure may do is a condition on its history; what it achieved is a statement
about the state at the end.

## Main definitions

* `Transition`, `Reaches`: an operation that was called, a history that leads from one state to
  another
* `Procedure.history`: the operations that a procedure calls
* `Balanced`, `FromSession`: the histories that close no more composites than they opened, that make
  leaves for tokens of the session only
* `depth`: how many composites a history leaves open
* `finishing`, `topLevel`: the end of a parse and a whole parse, as procedures

## Main results

* `reaches_history`: a procedure goes through its history
* `run_finishing`, `run_topLevel`: what the end of a parse and a whole parse come to
* `history_finishing`, `history_topLevel`: the operations they call
-/

namespace ParseTree

/-- An operation that was called, with its answer and the states around it. -/
structure Transition (σ γ : Type) where
  /-- The session before. -/
  before : Session σ γ
  /-- The operation. -/
  op : Operation
  /-- The answer. -/
  answer : op.Answer
  /-- The session afterwards. -/
  after : Session σ γ

/-- The token that an operation answers, if it is asked for one. -/
def Operation.given? : (op : Operation) → op.Answer → Option Token
  | .lookAt _, token => some token
  | .matchToken _ _, result => result.toOption
  | _, _ => none

/-- The token that an operation is to make the leaf of. -/
def Operation.leafToken? : Operation → Option Token
  | .command (.newLeaf token _) => some token
  | _ => none

/-- The operation opens a composite. -/
def Operation.opens : Operation → Bool
  | .command (.newComposite _) => true
  | _ => false

/-- The operation closes the open composite. -/
def Operation.closes : Operation → Bool
  | .command .afterRuleCall => true
  | _ => false

variable {σ γ α β : Type}

/-- The token that recognition was given. -/
def Transition.given? (tr : Transition σ γ) : Option Token :=
  tr.op.given? tr.answer

/-- A history that leads from one state to another. -/
inductive Reaches (env : Setting σ γ) (s₀ : Session σ γ) :
    List (Transition σ γ) → Session σ γ → Prop
  /-- Nothing has happened. -/
  | start : Reaches env s₀ [] s₀
  /-- One more operation was called. -/
  | step {ts : List (Transition σ γ)} {s s' : Session σ γ} {op : Operation} {answer : op.Answer}
    (h : Reaches env s₀ ts s) (hs : s.step env op = .ok (answer, s')) :
    Reaches env s₀ (ts ++ [⟨s, op, answer, s'⟩]) s'

section Reaches

variable {env : Setting σ γ} {s s' s'' : Session σ γ} {ts us : List (Transition σ γ)}

theorem Reaches.trans (h : Reaches env s ts s') (h' : Reaches env s' us s'') :
    Reaches env s (ts ++ us) s'' := by
  induction h' with
  | start => rwa [List.append_nil]
  | step _ hs ih =>
    rw [← List.append_assoc]
    exact .step ih hs

theorem Reaches.single {op : Operation} {answer : op.Answer}
    (hs : s.step env op = .ok (answer, s')) : Reaches env s [⟨s, op, answer, s'⟩] s' :=
  .step .start hs

/-- A history can be cut at any of its operations. -/
theorem Reaches.split {tr : Transition σ γ} {vs : List (Transition σ γ)}
    (h : Reaches env s (us ++ tr :: vs) s') :
    Reaches env s us tr.before ∧ tr.before.step env tr.op = .ok (tr.answer, tr.after) ∧
      Reaches env tr.after vs s' := by
  generalize hts : us ++ tr :: vs = ts at h
  induction h generalizing vs with
  | start => simp at hts
  | @step ts s₁ s' op answer h hs ih =>
    rcases List.eq_nil_or_concat vs with rfl | ⟨vs, v, rfl⟩
    · obtain ⟨rfl, hlast⟩ := List.append_inj' hts rfl
      obtain rfl := List.singleton_inj.mp hlast
      exact ⟨h, hs, .start⟩
    · rw [List.concat_eq_append, ← List.cons_append, ← List.append_assoc] at hts
      obtain ⟨hinit, hlast⟩ := List.append_inj' hts rfl
      obtain rfl := List.singleton_inj.mp hlast
      obtain ⟨hbefore, hstep, hafter⟩ := ih hinit
      rw [List.concat_eq_append]
      exact ⟨hbefore, hstep, .step hafter hs⟩

/-- Every operation of a history was a step of the session. -/
theorem step_of_mem {tr : Transition σ γ} (h : Reaches env s ts s') (ht : tr ∈ ts) :
    tr.before.step env tr.op = .ok (tr.answer, tr.after) := by
  obtain ⟨us, vs, rfl⟩ := List.append_of_mem ht
  exact h.split.2.1

end Reaches

/-- In every prefix, at most as many composites were closed as opened. -/
def Balanced (ts : List (Transition σ γ)) : Prop :=
  ∀ us, us <+: ts → us.countP (·.op.closes) ≤ us.countP (·.op.opens)

/-- The number of composites that were opened and not closed. -/
def depth (ts : List (Transition σ γ)) : ℕ :=
  ts.countP (·.op.opens) - ts.countP (·.op.closes)

/-- Leaves were only made for tokens that the session had answered before. -/
def FromSession (ts : List (Transition σ γ)) : Prop :=
  ∀ us tr, us ++ [tr] <+: ts → ∀ token ∈ tr.op.leafToken?, ∃ u ∈ us, u.given? = some token

/-- An operation was never called. -/
def Avoids (op : Operation) (ts : List (Transition σ γ)) : Prop :=
  ∀ tr ∈ ts, tr.op ≠ op

section Prefix

variable {ts us : List (Transition σ γ)} {op : Operation}

theorem Balanced.of_prefix (h : Balanced ts) (hu : us <+: ts) : Balanced us :=
  fun vs hv => h vs (hv.trans hu)

theorem Operation.opens_of_closes {op : Operation} (h : op.closes) : op.opens = false := by
  cases op with
  | command c => cases c <;> first | rfl | cases h
  | _ => rfl

/-- A balanced history closes a composite only if one is open. -/
theorem Balanced.depth_pos {tr : Transition σ γ} (h : Balanced (ts ++ [tr])) (ht : tr.op.closes) :
    0 < depth ts := by
  have hle := h _ List.prefix_rfl
  rw [List.countP_append, List.countP_append, List.countP_singleton, List.countP_singleton,
    if_pos ht, Operation.opens_of_closes ht] at hle
  exact Nat.sub_pos_of_lt hle

theorem Balanced.depth_append {tr : Transition σ γ} (h : Balanced (ts ++ [tr])) :
    depth (ts ++ [tr]) = depth ts + tr.op.opens.toNat - tr.op.closes.toNat := by
  have hle := h _ (List.prefix_append ts [tr])
  have hopens : (if tr.op.opens then 1 else 0) = tr.op.opens.toNat := by
    cases tr.op.opens <;> rfl
  have hcloses : (if tr.op.closes then 1 else 0) = tr.op.closes.toNat := by
    cases tr.op.closes <;> rfl
  -- A composite is closed only if more were opened than closed, so nothing is cut off.
  rw [depth, depth, List.countP_append, List.countP_append, List.countP_singleton,
    List.countP_singleton, hopens, hcloses]
  omega

theorem FromSession.of_prefix (h : FromSession ts) (hu : us <+: ts) : FromSession us :=
  fun vs tr hv => h vs tr (hv.trans hu)

theorem FromSession.concat {tr : Transition σ γ} (h : FromSession ts)
    (htr : tr.op.leafToken? = none) : FromSession (ts ++ [tr]) := by
  intro vs u hv token htoken
  rcases List.prefix_concat_iff.mp hv with heq | hv
  · obtain rfl := List.singleton_inj.mp (List.append_inj_right' heq rfl)
    rw [htr] at htoken
    cases htoken
  · exact h vs u hv token htoken

theorem Avoids.of_prefix (h : Avoids op ts) (hu : us <+: ts) : Avoids op us :=
  fun tr ht => h tr (hu.subset ht)

end Prefix

/-! ## Conditions that can be checked -/

section Decidable

variable (ts : List (Transition σ γ)) (op : Operation)

instance : Decidable (Balanced ts) :=
  decidable_of_iff (∀ us ∈ ts.inits, us.countP (·.op.closes) ≤ us.countP (·.op.opens)) (by
    simp only [List.mem_inits]
    rfl)

/-- Every prefix is looked at once. -/
theorem fromSession_iff : FromSession ts ↔ ∀ us ∈ ts.inits, ∀ tr ∈ us.getLast?,
    ∀ token ∈ tr.op.leafToken?, ∃ u ∈ us.dropLast, u.given? = some token := by
  constructor
  · intro h us hus tr htr
    have hsplit := List.dropLast_append_getLast? tr htr
    exact h us.dropLast tr (hsplit.symm ▸ (List.mem_inits us ts).mp hus)
  · intro h us tr hus
    have hlast := h (us ++ [tr]) ((List.mem_inits _ ts).mpr hus) tr List.getLast?_concat
    rwa [List.dropLast_concat] at hlast

instance : Decidable (FromSession ts) :=
  decidable_of_iff' _ (fromSession_iff ts)

instance : Decidable (Avoids op ts) :=
  inferInstanceAs (Decidable (∀ tr ∈ ts, tr.op ≠ op))

end Decidable

namespace Procedure

/-- The operations that a procedure calls on a session, in order. -/
def history (env : Setting σ γ) : Procedure α → Session σ γ → List (Transition σ γ)
  | pure _, _ => []
  | call op next, s =>
    match s.step env op with
    | .ok (answer, s') => ⟨s, op, answer, s'⟩ :: (next answer).history env s'
    | .error _ => []

variable {env : Setting σ γ} {s s' : Session σ γ}

theorem history_call {op : Operation} {answer : op.Answer} {next : op.Answer → Procedure α}
    (h : s.step env op = .ok (answer, s')) :
    (call op next).history env s = ⟨s, op, answer, s'⟩ :: (next answer).history env s' := by
  rw [history, h]

/-- A procedure goes through its history. -/
theorem reaches_history {p : Procedure α} {a : α} (h : p.run env s = .ok (a, s')) :
    Reaches env s (p.history env s) s' := by
  induction p generalizing s with
  | pure b =>
    obtain ⟨-, rfl⟩ := Prod.mk.inj (Except.ok.inj h)
    exact .start
  | call op next ih =>
    rw [run] at h
    cases ht : s.step env op with
    | error fault =>
      rw [ht] at h
      cases h
    | ok r =>
      rw [ht] at h
      rw [history_call ht]
      exact (Reaches.single ht).trans (ih r.1 h)

/-- A procedure that continues another continues its history. -/
theorem history_bind {p : Procedure α} {a : α} (h : p.run env s = .ok (a, s'))
    (f : α → Procedure β) :
    (p.bind f).history env s = p.history env s ++ (f a).history env s' := by
  induction p generalizing s with
  | pure b =>
    obtain ⟨rfl, rfl⟩ := Prod.mk.inj (Except.ok.inj h)
    rfl
  | call op next ih =>
    rw [run] at h
    cases ht : s.step env op with
    | error fault =>
      rw [ht] at h
      cases h
    | ok r =>
      rw [ht] at h
      rw [bind, history_call ht, history_call ht, List.cons_append, ← ih r.1 h]

/-- A procedure that faults is not continued. -/
theorem history_bind_of_fault {p : Procedure α} {fault : WalkFault}
    (h : p.run env s = .error fault) (f : α → Procedure β) :
    (p.bind f).history env s = p.history env s := by
  induction p generalizing s with
  | pure b => cases h
  | call op next ih =>
    rw [run] at h
    cases ht : s.step env op with
    | error fault => rw [bind, history, history, ht]
    | ok r =>
      rw [ht] at h
      rw [bind, history_call ht, history_call ht, ih r.1 h]

end Procedure

/-- Goes on after the end of the input was matched or not. -/
def settleEnd : Except RecognitionError Token → Procedure Unit
  | .ok _ => .pure ()
  | .error e => .call (.catchError (.recognition e)) fun _ => .pure ()

/-- The end of a parse: the end of the input is expected and all tokens get their leaves. -/
def finishing : Procedure Unit :=
  .call (.command .popFollow) fun _ =>
  .call (.matchToken .endOfInput ∅) fun result =>
  (settleEnd result).bind fun _ =>
  .call (.command .appendSkipped) fun _ =>
  .call (.command .appendTrailing) fun _ =>
  .call (.command .appendAll) .pure

/-- A whole parse from an entry rule with its procedure. -/
def topLevel (rule : ElementId) (p : RuleProcedure) : RuleProcedure :=
  .call (.command (.newComposite rule)) fun _ =>
  .call (.command (.pushFollow (.ofList [.endOfInput]))) fun _ =>
  p.bind fun
    | .error e => .pure (.error e)
    | .ok element => finishing.bind fun _ => .pure (.ok element)

section TopLevel

variable {env : Setting σ γ} {s s' : Session σ γ} {rule : ElementId} {p : RuleProcedure}
  {outcome : Except ParseError (Option SemanticId)}

theorem run_settleEnd (env : Setting σ γ) (s : Session σ γ) :
    (settleEnd (s.matchToken env .endOfInput ∅).1).run env (s.matchToken env .endOfInput ∅).2 =
      .ok ((), s.expectEnd env) := by
  rw [Session.expectEnd]
  split <;> (next h => rw [h]; rfl)

theorem run_finishing (env : Setting σ γ) (s : Session σ γ) :
    finishing.run env s = .ok ((), s.finish env) := by
  have h := run_settleEnd env s.popFollow
  rw [finishing, Procedure.run]
  show Procedure.run env _ s.popFollow = _
  rw [Procedure.run]
  show Procedure.run env ((settleEnd (s.popFollow.matchToken env .endOfInput ∅).1).bind _)
    (s.popFollow.matchToken env .endOfInput ∅).2 = _
  rw [Procedure.run_bind, h]
  rfl

theorem reaches_openEntry (env : Setting σ γ) (s : Session σ γ) (rule : ElementId) :
    ∃ ts, Reaches env s ts (s.openEntry env rule) :=
  ⟨_, (Reaches.single (show s.step env (.command (.newComposite rule)) = .ok ((), _) from rfl)).step
    (show (s.newComposite env rule).step env (.command (.pushFollow (.ofList [.endOfInput]))) =
      .ok ((), _) from rfl)⟩

/-- A whole parse ends where its procedure or the completion of the parse ends. -/
theorem run_topLevel (h : p.run env (s.openEntry env rule) = .ok (outcome, s')) :
    (topLevel rule p).run env s = .ok (outcome, (s'.complete env outcome).2) := by
  have hrest (f : _ → RuleProcedure) :
      (p.bind f).run env (s.openEntry env rule) = (f outcome).run env s' := by
    rw [Procedure.run_bind, h]
    rfl
  apply (hrest _).trans
  cases outcome with
  | error e => rfl
  | ok element =>
    show (finishing.bind _).run env s' = _
    rw [Procedure.run_bind, run_finishing]
    rfl

/-- The operations at the end of a parse. -/
theorem history_finishing (env : Setting σ γ) (s : Session σ γ) :
    finishing.history env s =
      [⟨s, .command .popFollow, (), s.popFollow⟩,
        ⟨s.popFollow, .matchToken .endOfInput ∅, (s.popFollow.matchToken env .endOfInput ∅).1,
          (s.popFollow.matchToken env .endOfInput ∅).2⟩] ++
      (settleEnd (s.popFollow.matchToken env .endOfInput ∅).1).history env
        (s.popFollow.matchToken env .endOfInput ∅).2 ++
      [⟨s.popFollow.expectEnd env, .command .appendSkipped, (),
          (s.popFollow.expectEnd env).appendSkipped env⟩,
        ⟨(s.popFollow.expectEnd env).appendSkipped env, .command .appendTrailing, (),
          ((s.popFollow.expectEnd env).appendSkipped env).appendTrailing env⟩,
        ⟨((s.popFollow.expectEnd env).appendSkipped env).appendTrailing env, .command .appendAll,
          (), s.finish env⟩] := by
  have hmatch : s.popFollow.step env (.matchToken .endOfInput ∅) =
      .ok ((s.popFollow.matchToken env .endOfInput ∅).1,
        (s.popFollow.matchToken env .endOfInput ∅).2) := rfl
  rw [finishing, Procedure.history_call rfl, Procedure.history_call hmatch,
    Procedure.history_bind (run_settleEnd env s.popFollow)]
  rfl

/-- The operations of a whole parse. -/
theorem history_topLevel {element : Option SemanticId}
    (h : p.run env (s.openEntry env rule) = .ok (.ok element, s')) :
    (topLevel rule p).history env s =
      [⟨s, .command (.newComposite rule), (), s.newComposite env rule⟩,
        ⟨s.newComposite env rule, .command (.pushFollow (.ofList [.endOfInput])), (),
          s.openEntry env rule⟩] ++
        p.history env (s.openEntry env rule) ++ finishing.history env s' := by
  rw [topLevel, Procedure.history_call rfl, Procedure.history_call rfl]
  refine congrArg (_ :: _ :: ·) ((Procedure.history_bind h _).trans ?_)
  refine congrArg (_ ++ ·) ((Procedure.history_bind (run_finishing env s') _).trans ?_)
  exact List.append_nil _

/-- A parse whose procedure faults or fails ends with it. -/
theorem history_topLevel_of_ne
    (h : ∀ element t, p.run env (s.openEntry env rule) ≠ .ok (.ok element, t)) :
    (topLevel rule p).history env s =
      [⟨s, .command (.newComposite rule), (), s.newComposite env rule⟩,
        ⟨s.newComposite env rule, .command (.pushFollow (.ofList [.endOfInput])), (),
          s.openEntry env rule⟩] ++ p.history env (s.openEntry env rule) := by
  rw [topLevel, Procedure.history_call rfl, Procedure.history_call rfl]
  refine congrArg (_ :: _ :: ·) ?_
  cases hr : p.run env (s.openEntry env rule) with
  | error fault => exact Procedure.history_bind_of_fault hr _
  | ok r =>
    obtain ⟨outcome, t⟩ := r
    cases outcome with
    | error e => exact (Procedure.history_bind hr _).trans (List.append_nil _)
    | ok element => exact absurd hr (h element t)

/-- A parse is a run of its procedure, completed. -/
theorem exists_run_of_parse {result : Except ParseError Parse} {t : Session σ γ}
    (h : s.parse env rule p = .ok (result, t)) :
    ∃ outcome s', p.run env (s.openEntry env rule) = .ok (outcome, s') ∧
      s'.complete env outcome = (result, t) := by
  rw [Session.parse] at h
  cases hr : p.run env (s.openEntry env rule) with
  | error fault =>
    rw [hr] at h
    cases h
  | ok r =>
    rw [hr] at h
    exact ⟨r.1, r.2, rfl, Except.ok.inj h⟩

/-- A completed parse is the finished session. -/
theorem exists_run_of_parse_eq_ok {parse : Parse} {t : Session σ γ}
    (h : s.parse env rule p = .ok (.ok parse, t)) :
    ∃ element s', p.run env (s.openEntry env rule) = .ok (.ok element, s') ∧ t = s'.finish env ∧
      parse = ⟨element, t.syntaxTree env, t.current,
        (t.syntaxTree env).statistics env.stream.size t.attribution.unresolved⟩ := by
  obtain ⟨outcome, s', hr, hc⟩ := exists_run_of_parse h
  cases outcome with
  | error e => cases (Prod.mk.inj hc).1
  | ok element =>
    obtain ⟨hresult, rfl⟩ := Prod.mk.inj hc
    refine ⟨element, s', hr, rfl, ?_⟩
    rw [Session.result] at hresult
    split at hresult
    · cases hresult
    · exact (Except.ok.inj hresult).symm

/-- A parse that passes a check is a completed parse. -/
theorem exists_parse_of_any {P : Parse → Bool}
    (h : ((s.parse env rule p).toOption.bind (·.1.toOption)).any P) :
    ∃ parse t, s.parse env rule p = .ok (.ok parse, t) ∧ P parse := by
  cases hr : s.parse env rule p with
  | error fault =>
    rw [hr] at h
    cases h
  | ok r =>
    obtain ⟨result, t⟩ := r
    rw [hr] at h
    cases result with
    | error e => cases h
    | ok parse => exact ⟨parse, t, rfl, h⟩

/-- The end of a parse is reached by the operations of the session. -/
theorem exists_reaches_of_parse {result : Except ParseError Parse} {t : Session σ γ}
    (h : s.parse env rule p = .ok (result, t)) : ∃ ts, Reaches env s ts t := by
  obtain ⟨outcome, s', hr, hc⟩ := exists_run_of_parse h
  have ht := Procedure.reaches_history (run_topLevel hr)
  rw [hc] at ht
  exact ⟨_, ht⟩

end TopLevel

/-! ## A sample -/

namespace Sample

/-- Two words with a blank between them. -/
def stream : TokenStream :=
  .ofLexemes "a b" [.token ⟨5⟩ 1 .visible, .token ⟨6⟩ 1 .hidden, .token ⟨7⟩ 1 .visible]

/-- The rule of a word, an action and another word; all elements are the same. -/
def setting : Setting Unit Unit where
  grammar := ⟨"Sample", #[⟨.rule "Pair" .parser none (some ⟨1⟩), none, .one⟩,
    ⟨.group [⟨2⟩, ⟨3⟩, ⟨4⟩], some ⟨0⟩, .one⟩, ⟨.keyword "a", some ⟨1⟩, .one⟩,
    ⟨.action "Pair" none, some ⟨1⟩, .one⟩, ⟨.keyword "b", some ⟨1⟩, .one⟩]⟩
  config := .standard
  messages := .standard
  stream := stream
  factory := ⟨fun _ s => (.ok ⟨0⟩, s), fun _ _ s => (.ok (), s), fun _ _ s => (.ok (), s)⟩
  groups := .constant true true

/-- Matches a token and makes its leaf. -/
def word (kind : TokenKind) (element : ElementId) (next : RuleProcedure) : RuleProcedure :=
  .call (.matchToken kind ∅) fun
    | .error e => .pure (.error (.recognition e))
    | .ok t => .call (.command (.newLeaf t element)) fun _ => next

/-- Looks at the next token, opens a composite, enters its rule and closes it at the end. -/
def callRule (rule : ElementId) (body : RuleProcedure) : RuleProcedure :=
  .call (.lookAt 1) fun _ =>
  .call (.command (.newComposite rule)) fun _ =>
  .call (.command .enterRule) fun _ => body.bind fun result =>
  .call (.command .leaveRule) fun _ =>
  .call (.command .afterRuleCall) fun _ => .pure result

/-- The first word is wrapped by an action; the second lies in two composites, of which the outer
one absorbs the inner. -/
def procedure : RuleProcedure :=
  .call (.lookAt 1) fun _ =>
  .call (.command .enterRule) fun _ =>
  word ⟨5⟩ ⟨2⟩ <|
  .call (.createWrapper ⟨3⟩ none) fun _ =>
  callRule ⟨0⟩ (callRule ⟨0⟩ (word ⟨7⟩ ⟨4⟩ (.pure (.ok none))))

/-- The session before the first step. -/
def session : Session Unit Unit :=
  .start setting () ()

/-- What the procedure does. -/
def history : List (Transition Unit Unit) :=
  procedure.history setting (session.openEntry setting ⟨0⟩)

theorem exists_run : ∃ s,
    procedure.run setting (session.openEntry setting ⟨0⟩) = .ok (.ok none, s) := by
  have h : (procedure.run setting (session.openEntry setting ⟨0⟩)).toOption.map (·.1) =
      some (.ok none) := by
    decide +kernel
  cases hr : procedure.run setting (session.openEntry setting ⟨0⟩) with
  | error fault =>
    rw [hr] at h
    cases h
  | ok r =>
    rw [hr] at h
    exact ⟨r.2, congrArg (fun a => Except.ok (a, r.2)) (Option.some.inj h)⟩

end Sample

end ParseTree
