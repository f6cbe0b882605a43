import ParseTree.Proofs.Session.Delivery
import ParseTree.Proofs.Session.Progress
import ParseTree.Proofs.Token.Twins

/-!
# Procedures that do not look at positions

Two parses read streams that agree in their visible tokens. What a procedure is answered in the one
has a counterpart in the other: tokens of the same rank, errors about such tokens, nodes that stand
for each other. A procedure that treats counterparts alike knows tokens by their kinds and texts
only, as positions, offsets and nodes differ.

## Main definitions

* `PreservesOrder`: nodes are renumbered without changing their order
* `RecognitionError.Counterpart`, `ParseError.Counterpart`: errors about counterparts
* `Operation.Counterpart`, `Operation.Reply`: operations on counterparts, answers that are
  counterparts
* `Procedure.Counterpart`: procedures that call counterparts as long as they are answered
  counterparts
* `Procedure.IsBlind`: a procedure that does so itself
* `Transition.Counterpart`: operations that were called on two sessions to the same effect

## Main results

* `Procedure.Counterpart.bind`: procedures may be continued
* `syntaxError_reading`: errors about counterparts are put into the same words
-/

namespace ParseTree

open Session TokenStream

/-- Nodes that stand for each other were made in the same order. -/
def PreservesOrder (R : NodeId → NodeId → Prop) : Prop :=
  ∀ x x' y y', R x x' → R y y' → (x.index < y.index ↔ x'.index < y'.index)

/-- Different nodes stand for different nodes. -/
theorem PreservesOrder.eq_iff_eq {R : NodeId → NodeId → Prop} (h : PreservesOrder R)
    {x x' y y' : NodeId} (hx : R x x') (hy : R y y') : x = y ↔ x' = y' := by
  have hindex (a b : NodeId) : a = b ↔ ¬ a.index < b.index ∧ ¬ b.index < a.index := by
    cases a
    cases b
    simp only [NodeId.mk.injEq]
    omega
  rw [hindex, hindex, h x x' y y' hx hy, h y y' x x' hy hx]

/-- The setting in which another stream is read. -/
def Setting.reading {σ γ : Type} (env : Setting σ γ) (stream : TokenStream) : Setting σ γ :=
  { env with stream }

/-! ## Values -/

/-- Both outcomes are failures, or both are values. -/
inductive Outcomes {ε ε' α α' : Type} (E : ε → ε' → Prop) (V : α → α' → Prop) :
    Except ε α → Except ε' α' → Prop
  /-- Both are failures. -/
  | error {e : ε} {e' : ε'} (h : E e e') : Outcomes E V (.error e) (.error e')
  /-- Both are values. -/
  | ok {a : α} {a' : α'} (h : V a a') : Outcomes E V (.ok a) (.ok a')

/-- The faults are the same, up to the token that was made up. -/
def RecognitionFault.Counterpart (ts ts' : TokenStream) :
    RecognitionFault → RecognitionFault → Prop
  | .missing expecting t, .missing expecting' t' =>
    expecting = expecting' ∧ Token.Counterpart ts ts' t t'
  | fault, fault' => fault = fault'

/-- The errors are about counterparts at the same place. -/
structure RecognitionError.Counterpart (ts ts' : TokenStream) (e e' : RecognitionError) : Prop where
  /-- The tokens do not fit for the same reason. -/
  fault : RecognitionFault.Counterpart ts ts' e.fault e'.fault
  /-- The tokens are counterparts. -/
  token : Token.Counterpart ts ts' e.token e'.token
  /-- The cursors are at the same place. -/
  index : ts.SamePlace ts' e.index e'.index

/-- The failures are the same, up to tokens, places and nodes. -/
def ParseError.Counterpart (ts ts' : TokenStream) (R : NodeId → NodeId → Prop) :
    ParseError → ParseError → Prop
  | .recognition e, .recognition e' => RecognitionError.Counterpart ts ts' e e'
  | .reassignment x, .reassignment x' => R x x'
  | e, e' => e = e'

/-- The operation is about no token and no error. -/
def Operation.IsPlain : Operation → Prop
  | .command (.newLeaf _ _) | .command (.report _) | .command (.recover _) => False
  | .textOf _ | .errorHere _ | .catchError _ => False
  | _ => True

/-- The operations are the same, up to the tokens and errors that they are about. -/
inductive Operation.Counterpart (ts ts' : TokenStream) (R : NodeId → NodeId → Prop) :
    Operation → Operation → Prop
  /-- Operations without tokens. -/
  | plain {op : Operation} (h : op.IsPlain) : Counterpart ts ts' R op op
  /-- Leaves for matched tokens. -/
  | newLeaf {t t' : Token} (h : Token.Counterpart ts ts' t t') (element : ElementId) :
    Counterpart ts ts' R (.command (.newLeaf t element)) (.command (.newLeaf t' element))
  /-- Reported errors. -/
  | report {e e' : RecognitionError} (h : RecognitionError.Counterpart ts ts' e e') :
    Counterpart ts ts' R (.command (.report e)) (.command (.report e'))
  /-- Recoveries. -/
  | recover {e e' : RecognitionError} (h : RecognitionError.Counterpart ts ts' e e') :
    Counterpart ts ts' R (.command (.recover e)) (.command (.recover e'))
  /-- Texts of tokens. -/
  | textOf {t t' : Token} (h : Token.Counterpart ts ts' t t') :
    Counterpart ts ts' R (.textOf t) (.textOf t')
  /-- Errors at the current token. -/
  | errorHere {fault fault' : RecognitionFault}
    (h : RecognitionFault.Counterpart ts ts' fault fault') :
    Counterpart ts ts' R (.errorHere fault) (.errorHere fault')
  /-- Failures of rules. -/
  | catchError {e e' : ParseError} (h : ParseError.Counterpart ts ts' R e e') :
    Counterpart ts ts' R (.catchError e) (.catchError e')

/-- The answers to operations are the same, up to tokens, places and nodes. -/
def Operation.Reply (ts ts' : TokenStream) (R : NodeId → NodeId → Prop) :
    (op op' : Operation) → op.Answer → op'.Answer → Prop
  | .command _, .command _, _, _ => True
  | .lookAt _, .lookAt _, t, t' => Token.Counterpart ts ts' t t'
  | .textOf _, .textOf _, a, a' | .currentText, .currentText, a, a' => @Eq String a a'
  | .matchToken _ _, .matchToken _ _, a, a' =>
    Outcomes (RecognitionError.Counterpart ts ts') (Token.Counterpart ts ts') a a'
  | .errorHere _, .errorHere _, e, e' | .groupFailure _ _, .groupFailure _ _, e, e' =>
    RecognitionError.Counterpart ts ts' e e'
  | .canSelect _ _, .canSelect _ _, a, a' | .canLeave _, .canLeave _, a, a' =>
    @Eq Bool a a'
  | .catchError _, .catchError _, a, a' | .assign _ _ _, .assign _ _ _, a, a' =>
    Outcomes (ParseError.Counterpart ts ts' R) (@Eq Unit) a a'
  | .create _ _, .create _ _, a, a' | .createWrapper _ _, .createWrapper _ _, a, a' =>
    Outcomes (ParseError.Counterpart ts ts' R) (@Eq SemanticId) a a'
  | _, _, _, _ => False

/-! ## Procedures -/

/-- The procedures call counterparts as long as they are answered counterparts, and so they end. -/
inductive Procedure.Counterpart (ts ts' : TokenStream) (R : NodeId → NodeId → Prop) {α α' : Type}
    (V : α → α' → Prop) : Procedure α → Procedure α' → Prop
  /-- Both end. -/
  | pure {a : α} {a' : α'} (h : V a a') : Counterpart ts ts' R V (.pure a) (.pure a')
  /-- Both go on. -/
  | call {op op' : Operation} {next : op.Answer → Procedure α} {next' : op'.Answer → Procedure α'}
    (hop : op.Counterpart ts ts' R op')
    (h : ∀ a a', Operation.Reply ts ts' R op op' a a' →
      Counterpart ts ts' R V (next a) (next' a')) :
    Counterpart ts ts' R V (.call op next) (.call op' next')

/-- The rules failed alike or produced the same element. -/
abbrev SameOutcome (ts ts' : TokenStream) (R : NodeId → NodeId → Prop) :
    Except ParseError (Option SemanticId) → Except ParseError (Option SemanticId) → Prop :=
  Outcomes (ParseError.Counterpart ts ts' R) Eq

/-- However nodes are renumbered, the procedure calls counterparts as long as it is answered
counterparts. So it branches on the kinds and the texts of tokens, but not on their positions and
offsets, and it makes up no tokens of its own. -/
def Procedure.IsBlind (ts ts' : TokenStream) (p : RuleProcedure) : Prop :=
  ∀ R, PreservesOrder R → p.Counterpart ts ts' R (SameOutcome ts ts' R) p

/-- The operations were called on sessions at the same place. They were answered the same, made the
same repair, put the same message into the slot, and left the sessions at the same place with the
same message in the slot. -/
structure Transition.Counterpart {σ γ : Type} (env : Setting σ γ) (stream : TokenStream)
    (R : NodeId → NodeId → Prop) (tr tr' : Transition σ γ) : Prop where
  /-- The operations are the same. -/
  op : tr.op.Counterpart env.stream stream R tr'.op
  /-- So are the answers. -/
  answer : Operation.Reply env.stream stream R tr.op tr'.op tr.answer tr'.answer
  /-- So is the way in which recognition goes on. -/
  repair : tr.repair? env = tr'.repair? (env.reading stream)
  /-- The cursors were at the same place. -/
  before : env.stream.SamePlace stream tr.before.cursor.position tr'.before.cursor.position
  /-- They are again, as many visible tokens further. -/
  after : env.stream.SamePlace stream tr.after.cursor.position tr'.after.cursor.position
  /-- The same message was put into the slot. -/
  message : tr.message? env = tr'.message? (env.reading stream)
  /-- The same message waits for a leaf. -/
  pending : tr.after.pending = tr'.after.pending

/-- Recognition errors stand for recognition errors only. -/
theorem ParseError.Counterpart.cases {ts ts' : TokenStream} {R : NodeId → NodeId → Prop}
    {e e' : ParseError} (h : ParseError.Counterpart ts ts' R e e') :
    (∃ r r', e = .recognition r ∧ e' = .recognition r' ∧ RecognitionError.Counterpart ts ts' r r') ∨
      (∀ r, e ≠ .recognition r) ∧ ∀ r, e' ≠ .recognition r := by
  cases e with
  | recognition r =>
    cases e' with
    | recognition r' => exact Or.inl ⟨r, r', rfl, rfl, h⟩
    | _ => cases h
  | reassignment =>
    cases e' with
    | reassignment => exact Or.inr ⟨by simp, by simp⟩
    | _ => cases h
  | _ =>
    cases h
    exact Or.inr ⟨by simp, by simp⟩

section Monotone

variable {ts ts' : TokenStream} {R R' : NodeId → NodeId → Prop}

theorem Outcomes.imp {ε ε' α α' : Type} {E F : ε → ε' → Prop} {V : α → α' → Prop}
    {r : Except ε α} {r' : Except ε' α'} (h : Outcomes E V r r') (hE : ∀ e e', E e e' → F e e') :
    Outcomes F V r r' := by
  cases h with
  | error h => exact .error (hE _ _ h)
  | ok h => exact .ok h

variable (hR : ∀ x x', R x x' → R' x x')

include hR

theorem ParseError.Counterpart.mono {e e' : ParseError} (h : ParseError.Counterpart ts ts' R e e') :
    ParseError.Counterpart ts ts' R' e e' := by
  unfold ParseError.Counterpart at h ⊢
  split at h
  · exact h
  · exact hR _ _ h
  · exact h

theorem Operation.Counterpart.mono {op op' : Operation} (h : op.Counterpart ts ts' R op') :
    op.Counterpart ts ts' R' op' := by
  cases h with
  | plain h => exact .plain h
  | newLeaf h element => exact .newLeaf h element
  | report h => exact .report h
  | recover h => exact .recover h
  | textOf h => exact .textOf h
  | errorHere h => exact .errorHere h
  | catchError h => exact .catchError (h.mono hR)

theorem Operation.Reply.mono {op op' : Operation} {a : op.Answer} {a' : op'.Answer}
    (h : Operation.Reply ts ts' R op op' a a') : Operation.Reply ts ts' R' op op' a a' := by
  unfold Operation.Reply at h ⊢
  split at h
  all_goals first
    | exact h
    | exact Outcomes.imp h fun _ _ h => h.mono hR

theorem Transition.Counterpart.mono {σ γ : Type} {env : Setting σ γ} {stream : TokenStream}
    {tr tr' : Transition σ γ} (h : tr.Counterpart env stream R tr') :
    tr.Counterpart env stream R' tr' :=
  { h with op := h.op.mono hR, answer := h.answer.mono hR }

end Monotone

/-- Procedures that end alike may be continued alike. -/
theorem Procedure.Counterpart.bind {ts ts' : TokenStream} {R : NodeId → NodeId → Prop}
    {α α' β β' : Type} {V : α → α' → Prop} {W : β → β' → Prop} {p : Procedure α}
    {p' : Procedure α'} {f : α → Procedure β} {f' : α' → Procedure β'}
    (h : p.Counterpart ts ts' R V p')
    (hf : ∀ a a', V a a' → (f a).Counterpart ts ts' R W (f' a')) :
    (p.bind f).Counterpart ts ts' R W (p'.bind f') := by
  induction h with
  | pure h => exact hf _ _ h
  | call hop _ ih => exact .call hop ih

/-! ## Messages -/

section Messages

variable {ts ts' : TokenStream} {t t' : Token} {e e' : RecognitionError}

/-- Counterparts are shown alike. -/
theorem display_eq {c c' : ErrorContext} (hs : c.stream.Agrees c'.stream)
    (hc : c.config = c'.config) (ht : Token.Counterpart c.stream c'.stream t t') :
    c.display t = c'.display t' := by
  rw [ErrorContext.display, ErrorContext.display, ht.kind hs, ht.isSynthetic hs, ht.textOf hs, hc]

theorem defaultMessage_eq {c c' : ErrorContext} (hs : c.stream.Agrees c'.stream)
    (hc : c.config = c'.config)
    (he : RecognitionError.Counterpart c.stream c'.stream c.error c'.error) :
    c.defaultMessage = c'.defaultMessage ∧ c.code = c'.code := by
  have hfault := he.fault
  have hfound := display_eq hs hc he.token
  rw [ErrorContext.defaultMessage, ErrorContext.defaultMessage, ErrorContext.code,
    ErrorContext.code, hfound, hc]
  unfold RecognitionFault.Counterpart at hfault
  split at hfault
  · next h h' =>
    rw [h, h', hfault.1]
    exact ⟨rfl, rfl⟩
  · rw [hfault]
    exact ⟨rfl, rfl⟩

/-- Errors about counterparts are put into the same words. -/
theorem syntaxError_reading {σ γ : Type} {env : Setting σ γ} {s u : Session σ γ}
    (hs : env.stream.Agrees ts') (hm : env.messages = .standard) (hg : s.groups = u.groups)
    (he : RecognitionError.Counterpart env.stream ts' e e') :
    s.syntaxError env e = u.syntaxError (env.reading ts') e' := by
  obtain ⟨hmessage, hcode⟩ : (s.errorContext env e).defaultMessage =
      (u.errorContext (env.reading ts') e').defaultMessage ∧
      (s.errorContext env e).code = (u.errorContext (env.reading ts') e').code :=
    defaultMessage_eq hs rfl he
  have hparser : env.messages.parser (s.errorContext env e) =
      (env.reading ts').messages.parser (u.errorContext (env.reading ts') e') := by
    rw [show (env.reading ts').messages = env.messages from rfl, hm]
    exact congrArg₂ (fun m c => (⟨m, some c⟩ : SyntaxError)) hmessage hcode
  have hfault := he.fault
  rw [syntaxError, syntaxError]
  unfold RecognitionFault.Counterpart at hfault
  split at hfault
  · next h h' =>
    rw [h, h']
    exact hparser
  · rw [← hfault]
    split
    · next rule predicate group hgroup =>
      have hmissing : s.missingMembers env group = u.missingMembers (env.reading ts') group := by
        rw [missingMembers, missingMembers, hg]
        rfl
      rw [show (env.reading ts').messages = env.messages from rfl, hm, hmissing]
      refine congrArg (fun m => (⟨m, some .incompleteGroup⟩ : SyntaxError)) ?_
      rw [GroupContext.defaultMessage, GroupContext.defaultMessage, hmessage]
      rfl
    · exact hparser

end Messages

end ParseTree
