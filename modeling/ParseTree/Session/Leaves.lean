import ParseTree.Session.Basic

/-!
# Turning tokens into leaves

A matched token gets its leaf from the recognizer. The hidden and skipped tokens before it get
theirs on the way, so that leaves are made in the order of the stream; what is left at the end is
swept up.

## Main definitions

* `Session.newLeaf`: the leaf of a matched token
* `Session.appendSkipped`, `appendTrailing`, `appendAll`: leaves for tokens without a match

## Main results

* `cursor_createLeaf`, `current_createLeaf`, `follow_createLeaf`: a leaf moves neither the cursor
  nor the open composite
-/

namespace ParseTree.Session

variable {σ γ : Type}

/-- The error that the leaf of a token carries: the one that waits, unless the token is hidden, and
what the lexer says of a token that is none. -/
def leafError (env : Setting σ γ) (s : Session σ γ) (t : Token) (index : Nat) :
    Option SyntaxError :=
  let waiting := if t.isHidden then none else s.pending
  if t.kind = .invalid then
    SyntaxError.mergeInto waiting
      ⟨(env.stream.message? index).getD "invalid token", some .invalidToken⟩
  else waiting

/-- The element that a leaf stands for unless the recognizer names one: the lexical rule. -/
def lexicalElement? (env : Setting σ γ) (t : Token) : Option ElementId :=
  (env.config.lexerRule? t.kind).bind env.grammar.rule?

/-- The session with the leaf of a token in the open composite. Its identifier is the next one. -/
def createLeaf (env : Setting σ γ) (s : Session σ γ) (t : Token) (index : Nat)
    (element : Option ElementId) (feature : Option String) : Session σ γ :=
  let leaf : Leaf := ⟨index, t.kind, t.span, t.isHidden, feature⟩
  let tree := s.tree.addLeaf leaf (element.or (lexicalElement? env t)) (leafError env s t index)
    s.current
  let (attribution, tree) := s.attribution.resolve tree index s.tree.nextId
  { s with tree, attribution, pending := if t.isHidden then s.pending else none }

/-- The session with the leaf of the token at a position of the stream, if there is one that is not
synthetic. -/
def appendToken (env : Setting σ γ) (s : Session σ γ) (position : Nat) : Session σ γ :=
  match env.stream.token? position with
  | none => s
  | some t =>
    match t.index with
    | none => s
    | some index => createLeaf env s t index none none

/-- The session with leaves for the tokens from one position up to another. -/
def appendRange (env : Setting σ γ) (s : Session σ γ) (start stop : Nat) : Session σ γ :=
  (List.range' start (min stop env.stream.size - start)).foldl (appendToken env) s

/-- Makes the leaf of a matched token, after those of the tokens before it. Synthetic tokens and
tokens that the leaves have passed already are ignored. -/
def newLeaf (env : Setting σ γ) (s : Session σ γ) (t : Token) (element : ElementId) :
    Except WalkFault (Session σ γ) :=
  match t.index with
  | none => .ok s
  | some index =>
    if s.lastToken.any (index ≤ ·) then .ok s
    else do
      let s := appendRange env s s.nextToken index
      let feature ← env.grammar.feature element
      return { createLeaf env s t index (some element) feature with
        lastToken := some index
        lastNode := some s.tree.nextId }

/-- Makes leaves for the tokens up to the last visible one before the cursor. -/
def appendSkipped (env : Setting σ γ) (s : Session σ γ) : Session σ γ :=
  match (s.cursor.previous? env.stream).bind (·.index) with
  | none => s
  | some last =>
    if s.nextToken ≤ last then
      { appendRange env s s.nextToken (last + 1) with lastToken := some last }
    else s

/-- Makes leaves for all tokens from a position on. -/
def appendRest (env : Setting σ γ) (s : Session σ γ) (start : Nat) : Session σ γ :=
  if start < env.stream.size then
    { appendRange env s start env.stream.size with lastToken := some (env.stream.size - 1) }
  else s

/-- Makes leaves for the tokens after the last visible one before the cursor. -/
def appendTrailing (env : Setting σ γ) (s : Session σ γ) : Session σ γ :=
  match (s.cursor.previous? env.stream).bind (·.index) with
  | none => s
  | some last => appendRest env s (max s.nextToken (last + 1))

/-- Attaches an error that still waits to the last leaf of the open composite, or to the composite
itself if it has none. -/
def flushPending (s : Session σ γ) : Session σ γ :=
  match s.pending with
  | none => s
  | some error =>
    { s with
      tree := s.tree.attachError ((s.tree.lastLeaf? s.current).getD s.current) error
      pending := none }

/-- Makes leaves for all tokens that have none yet, and goes to the end of the stream. -/
def appendAll (env : Setting σ γ) (s : Session σ γ) : Session σ γ :=
  let s := appendRest env s s.nextToken
  flushPending { s with cursor := s.cursor.finish env.stream }

section CreateLeaf

variable (env : Setting σ γ) (s : Session σ γ) (t : Token) (index : Nat)
  (element : Option ElementId) (feature : Option String)

@[simp] theorem cursor_createLeaf : (createLeaf env s t index element feature).cursor = s.cursor :=
  rfl

@[simp] theorem current_createLeaf :
    (createLeaf env s t index element feature).current = s.current := rfl

@[simp] theorem follow_createLeaf : (createLeaf env s t index element feature).follow = s.follow :=
  rfl

@[simp] theorem factory_createLeaf :
    (createLeaf env s t index element feature).factory = s.factory := rfl

end CreateLeaf

end ParseTree.Session
