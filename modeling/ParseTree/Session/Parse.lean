import ParseTree.Session.Procedure
import ParseTree.SyntaxTree

/-!
# Parses

A parse recognizes the whole input. It opens the composite of the entry rule, runs the procedure of
the rule, expects the end of the input and makes leaves for all tokens that are left.

## Main definitions

* `Session.openEntry`, `Session.complete`: what happens before and after the entry procedure
* `Session.parse`: a parse from an entry rule
* `Parse`: a completed parse, with `Statistics`
-/

namespace ParseTree

/-- Counts that describe a finished tree. -/
structure Statistics where
  /-- The tokens of the stream. -/
  tokens : Nat
  /-- The leaves of the tree. -/
  leaves : Nat
  /-- The leaves of hidden tokens. -/
  hiddenLeaves : Nat
  /-- The inner nodes, the root included. -/
  composites : Nat
  /-- The nodes that carry an error. -/
  errors : Nat
  /-- The tokens that composites still wait for. -/
  unresolved : Nat
deriving DecidableEq, Repr

/-- The counts for a tree of a stream of so many tokens. -/
def SyntaxTree.statistics (t : SyntaxTree) (tokens unresolved : Nat) : Statistics where
  tokens := tokens
  leaves := t.leaves.length
  hiddenLeaves := t.leaves.countP t.tree.isHidden
  composites := t.nodes.countP fun id => !t.tree.isLeaf id
  errors := t.errors.length
  unresolved := unresolved

/-- A completed parse. -/
structure Parse where
  /-- The element that the entry rule produced. -/
  element : Option SemanticId
  /-- The tree. -/
  syntaxTree : SyntaxTree
  /-- The composite that was open at the end, normally that of the entry rule. -/
  entry : NodeId
  /-- The counts. -/
  statistics : Statistics
deriving Repr

namespace Session

variable {σ γ : Type}

/-- The session in which the entry rule is called: the end of the input follows it. -/
def openEntry (env : Setting σ γ) (s : Session σ γ) (rule : ElementId) : Session σ γ :=
  (s.newComposite env rule).pushFollow (.ofList [.endOfInput])

/-- Expects the end of the input; tokens before it are skipped. -/
def expectEnd (env : Setting σ γ) (s : Session σ γ) : Session σ γ :=
  match s.matchToken env .endOfInput ∅ with
  | (.ok _, s) => s
  | (.error e, s) => s.resume env e

/-- The tree as it is. -/
def syntaxTree (env : Setting σ γ) (s : Session σ γ) : SyntaxTree :=
  ⟨s.tree, env.stream.text, s.primary⟩

/-- The session after the entry rule has returned and the rest of the input was dealt with. -/
def finish (env : Setting σ γ) (s : Session σ γ) : Session σ γ :=
  (((s.popFollow.expectEnd env).appendSkipped env).appendTrailing env).appendAll env

/-- The parse that a finished session stands for, unless its tree is checked and malformed. -/
def result (env : Setting σ γ) (s : Session σ γ) (element : Option SemanticId) :
    Except ParseError Parse :=
  let t := s.syntaxTree env
  match if env.config.checkInvariants then t.violation? else none with
  | some violation => .error (.invariant violation)
  | none => .ok ⟨element, t, s.current, t.statistics env.stream.size s.attribution.unresolved⟩

/-- Completes a parse after the outcome of the entry procedure; a failure ends it. -/
def complete (env : Setting σ γ) (s : Session σ γ) :
    Except ParseError (Option SemanticId) → Except ParseError Parse × Session σ γ
  | .error e => (.error e, s)
  | .ok element =>
    let s := s.finish env
    (s.result env element, s)

/-- A parse of the whole input from an entry rule with a procedure, and the session afterwards. -/
def parse (env : Setting σ γ) (s : Session σ γ) (rule : ElementId) (procedure : RuleProcedure) :
    Except WalkFault (Except ParseError Parse × Session σ γ) := do
  let (outcome, s) ← procedure.run env (s.openEntry env rule)
  return s.complete env outcome

theorem parse_eq {env : Setting σ γ} {s s' : Session σ γ} {rule : ElementId}
    {procedure : RuleProcedure} {outcome : Except ParseError (Option SemanticId)}
    (h : procedure.run env (s.openEntry env rule) = .ok (outcome, s')) :
    s.parse env rule procedure = .ok (s'.complete env outcome) := by
  simp only [parse, h]
  rfl

end Session

end ParseTree
