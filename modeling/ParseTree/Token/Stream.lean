import ParseTree.Token.Basic

/-!
# Token streams

A stream is a source text with the tokens that were found in it, hidden ones included. Streams made
from lexemes tile their text by construction; other streams may hold any tokens.

## Main definitions

* `TokenStream`: text, tokens and the messages of invalid tokens
* `TokenStream.ofLexemes`: the stream of consecutive lexemes
* `TokenStream.textOf`: the text of a token
* `TokenStream.peek`: the visible token a number of steps before or after a position

## Main results

* `nextVisible_le_size`, `le_nextVisible`: where the search for a visible token ends
* `token?_nextVisible`: the token it finds is visible
-/

namespace ParseTree

/-- A piece of text, as a lexer reports it. -/
inductive Lexeme where
  /-- A token. -/
  | token (kind : TokenKind) (length : Nat) (channel : Channel)
  /-- Text that is no token, with the reason. -/
  | invalid (length : Nat) (message : String)
deriving DecidableEq, Repr

/-- A source text and its tokens. -/
structure TokenStream where
  /-- The complete input. -/
  text : String
  /-- The tokens in the order of the stream. -/
  tokens : Array Token
  /-- Messages about invalid tokens, by token index; the first entry for an index counts. -/
  messages : List (Nat × String)
deriving Repr

namespace TokenStream

/-- The number of tokens. -/
def size (ts : TokenStream) : Nat :=
  ts.tokens.size

/-- The token at a position of the stream. -/
def token? (ts : TokenStream) (i : Nat) : Option Token :=
  ts.tokens[i]?

/-- What the lexer says about the token with an index. -/
def message? (ts : TokenStream) (index : Nat) : Option String :=
  ts.messages.lookup index

/-- The number of bytes of the text. -/
def length (ts : TokenStream) : Nat :=
  ts.text.utf8ByteSize

/-- The text of a token; empty if its span is no part of the source. -/
def textOf (ts : TokenStream) (t : Token) : String :=
  (t.span.slice? ts.text).getD ""

/-- The end of the last token, from which the next one starts. -/
def stop (ts : TokenStream) : Nat :=
  ts.tokens.back?.elim 0 fun t => t.span.stop

/-- The stream with one more lexeme. -/
def push (ts : TokenStream) : Lexeme → TokenStream
  | .token kind length channel =>
    { ts with
      tokens := ts.tokens.push ⟨kind, channel, ⟨ts.stop, ts.stop + length⟩, some ts.size⟩ }
  | .invalid length message =>
    { ts with
      tokens := ts.tokens.push ⟨.invalid, .visible, ⟨ts.stop, ts.stop + length⟩, some ts.size⟩
      messages := ts.messages ++ [(ts.size, message)] }

/-- The stream of consecutive lexemes of a text. -/
def ofLexemes (text : String) (lexemes : List Lexeme) : TokenStream :=
  lexemes.foldl push ⟨text, #[], []⟩

/-- The token that stands for the end of the text, or for the last offset of 32 bits if the text is
longer. -/
def atEnd (ts : TokenStream) : Token :=
  .atEnd (saturate ts.length)

/-- The position of the first visible token from position `i` on, or the size if there is none. -/
def nextVisible (ts : TokenStream) (i : Nat) : Nat :=
  if h : i < ts.tokens.size then
    if ts.tokens[i].isHidden then ts.nextVisible (i + 1) else i
  else ts.size
termination_by ts.tokens.size - i

/-- The position `n` visible tokens after the position `i`; it stays at the end. -/
def forward (ts : TokenStream) (i : Nat) : Nat → Nat
  | 0 => i
  | n + 1 => if ts.size ≤ i then i else ts.forward (ts.nextVisible (i + 1)) n

/-- The `n`-th visible token before position `i`, counted from one. -/
def lookBack (ts : TokenStream) : Nat → Nat → Option Token
  | 0, _ => none
  | i + 1, n =>
    match ts.token? i with
    | none => none
    | some t =>
      if t.isHidden then ts.lookBack i n
      else if n = 1 then some t
      else ts.lookBack i (n - 1)

/-- The visible token `i` steps after position `pos`, where step one is the token at the position
itself, or before it for negative `i`. Step zero and all steps past either end give the end of the
input. -/
def peek (ts : TokenStream) (pos : Nat) : Int → Token
  | .ofNat 0 => ts.atEnd
  | .ofNat (n + 1) => (ts.token? (ts.forward pos n)).getD ts.atEnd
  | .negSucc n => (ts.lookBack (min pos ts.size) (n + 1)).getD ts.atEnd

theorem token?_eq_none_iff {ts : TokenStream} {i : Nat} : ts.token? i = none ↔ ts.size ≤ i := by
  simp [token?, size]

theorem nextVisible_le_size (ts : TokenStream) (i : Nat) : ts.nextVisible i ≤ ts.size := by
  fun_induction nextVisible ts i with
  | case1 => assumption
  | case2 i h => exact Nat.le_of_lt h
  | case3 => exact Nat.le_refl _

theorem le_nextVisible {ts : TokenStream} {i : Nat} (h : i ≤ ts.size) : i ≤ ts.nextVisible i := by
  fun_induction nextVisible ts i with
  | case1 i hi _ ih => exact Nat.le_trans (Nat.le_succ i) (ih hi)
  | case2 => exact Nat.le_refl _
  | case3 => exact h

theorem token?_nextVisible {ts : TokenStream} {i : Nat} (h : ts.nextVisible i < ts.size) :
    ∃ t, ts.token? (ts.nextVisible i) = some t ∧ t.isHidden = false := by
  fun_induction nextVisible ts i with
  | case1 i _ _ ih => exact ih h
  | case2 i hi hv => exact ⟨_, Array.getElem?_eq_getElem hi, Bool.eq_false_iff.2 hv⟩
  | case3 => exact absurd h (Nat.lt_irrefl _)

end TokenStream

end ParseTree
