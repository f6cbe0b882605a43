import ParseTree.Grammar.GroupHelper
import ParseTree.Model.Factory
import ParseTree.Recognition.Message
import ParseTree.Token.Cursor
import ParseTree.Token.Set
import ParseTree.Tree.Attribution

/-!
# Parse sessions

A session is the state of one parse: where the cursor is, what has been built and what is still to
be attached. What does not change during a parse is its setting.

## Main definitions

* `Setting`: grammar, tokens and the replaceable parts
* `Session`: the state of a parse
* `Session.start`: the state before the first step

## Implementation notes

States of semantic factories have the type `σ`, states of group helpers the type `γ`.
-/

namespace ParseTree

/-- What a parse is given. -/
structure Setting (σ γ : Type) where
  /-- The grammar. -/
  grammar : Grammar
  /-- The settings of the recognizer. -/
  config : Config
  /-- The wording of errors. -/
  messages : MessageProvider
  /-- The tokens. -/
  stream : TokenStream
  /-- The operations of the semantic factory. -/
  factory : Factory σ
  /-- The bookkeeping of unordered groups. -/
  groups : GroupHelper γ

/-- The state of a parse. -/
structure Session (σ γ : Type) where
  /-- The position in the stream and the recorded lookahead. -/
  cursor : Cursor
  /-- The nodes made so far. -/
  tree : Tree
  /-- The composites that wait for leaves. -/
  attribution : Attribution
  /-- The follow sets of the rules that are being recognized, the innermost first. -/
  follow : List TokenSet
  /-- The open composite, to which nodes are added. -/
  current : NodeId
  /-- The position of the last token that got a leaf. -/
  lastToken : Option Nat
  /-- The node that was finished last. -/
  lastNode : Option NodeId
  /-- The error that waits for the next visible leaf. -/
  pending : Option SyntaxError
  /-- An error was reported since the last successful match. -/
  isRecovering : Bool
  /-- Where the last recovery started. -/
  lastErrorIndex : Option Nat
  /-- The first node that each semantic element was bound to. -/
  primary : List (SemanticId × NodeId)
  /-- The state of the semantic factory. -/
  factory : σ
  /-- The state of the group helper. -/
  groups : γ

namespace Session

variable {σ γ : Type}

/-- The state before the first step: an empty root is open. -/
def start (env : Setting σ γ) (factory : σ) (groups : γ) : Session σ γ where
  cursor := .start env.stream
  tree := .empty
  attribution := .start env.stream.size
  follow := []
  current := Tree.root
  lastToken := none
  lastNode := none
  pending := none
  isRecovering := false
  lastErrorIndex := none
  primary := []
  factory := factory
  groups := groups

/-- A node of the tree under construction. -/
def view (env : Setting σ γ) (s : Session σ γ) (id : NodeId) : NodeView :=
  ⟨s.tree, env.stream.text, id⟩

/-- The first position after the last token that got a leaf. -/
def nextToken (s : Session σ γ) : Nat :=
  s.lastToken.elim 0 (· + 1)

/-- The primary node of a semantic element. -/
def primary? (s : Session σ γ) (element : SemanticId) : Option NodeId :=
  s.primary.lookup element

end Session

end ParseTree
