import ParseTree.Span

/-!
# Tokens

A token is a kind, a channel, a span and its position in the token stream. Recognition only sees the
tokens of the visible channel. Tokens without a position are synthetic: they stand for the end of
the input or for a token that was missing.

## Main definitions

* `TokenKind`: the kinds, with the reserved kinds `invalid`, `endOfInput` and `endOfRule`
* `Token`: a token, with `Token.atEnd` and `Token.placeholder` for the synthetic ones
-/

namespace ParseTree

/-- The kind of a token, a 16-bit code. -/
structure TokenKind where
  /-- The code. -/
  code : UInt16
deriving DecidableEq, Repr, BEq, ReflBEq, LawfulBEq

namespace TokenKind

/-- A character sequence that is no token. -/
def invalid : TokenKind := ⟨0⟩

/-- The end of the input. -/
def endOfInput : TokenKind := ⟨1⟩

/-- In a follow set, whatever may follow the enclosing rule. -/
def endOfRule : TokenKind := ⟨2⟩

/-- The name of a reserved kind, or `T` and the code. -/
def inspect (k : TokenKind) : String :=
  if k = invalid then "INVALID"
  else if k = endOfInput then "EOF"
  else if k = endOfRule then "EOR"
  else s!"T{k.code.toNat}"

end TokenKind

/-- Where a token was emitted. -/
inductive Channel where
  /-- Tokens that recognition sees. -/
  | visible
  /-- Blanks and comments. -/
  | hidden
deriving DecidableEq, Repr

/-- A token of a stream, or a synthetic token. -/
structure Token where
  /-- The kind. -/
  kind : TokenKind
  /-- The channel it was emitted on. -/
  channel : Channel
  /-- The covered bytes. -/
  span : Span
  /-- The position in the stream, which identifies the token; synthetic tokens have none. -/
  index : Option Nat
deriving DecidableEq, Repr

namespace Token

/-- The end of the input, at an offset. -/
def atEnd (offset : Nat) : Token :=
  ⟨.endOfInput, .visible, .point offset, none⟩

/-- A zero-width token that stands for a missing one. -/
def placeholder (kind : TokenKind) (offset : Nat) : Token :=
  ⟨kind, .visible, .point offset, none⟩

/-- The token is on the hidden channel. -/
def isHidden (t : Token) : Bool :=
  t.channel = .hidden

/-- The token has no position in a stream. -/
def isSynthetic (t : Token) : Bool :=
  t.index.isNone

/-- The kind and the span, with a mark on hidden tokens. -/
def inspect (t : Token) : String :=
  t.kind.inspect ++ " @ " ++ t.span.inspect ++ if t.isHidden then " (hidden)" else ""

@[simp] theorem kind_atEnd (offset : Nat) : (atEnd offset).kind = .endOfInput := rfl

@[simp] theorem index_atEnd (offset : Nat) : (atEnd offset).index = none := rfl

@[simp] theorem isSynthetic_atEnd (offset : Nat) : (atEnd offset).isSynthetic = true := rfl

@[simp] theorem kind_placeholder (kind : TokenKind) (offset : Nat) :
    (placeholder kind offset).kind = kind := rfl

@[simp] theorem isSynthetic_placeholder (kind : TokenKind) (offset : Nat) :
    (placeholder kind offset).isSynthetic = true := rfl

end Token

end ParseTree
