import ParseTree.Token.Stream

/-!
# Token cursors

A cursor rests on a visible token of a stream or at its end. It remembers the tokens ahead that were
looked at, so that a decision can be attributed to the tokens it was based on.

## Main definitions

* `Cursor`: the position and the recorded lookahead
* `Cursor.lookAt`: the token some steps away, recorded when it lies ahead
* `Cursor.advance`, `Cursor.finish`: past the current token, to the end

## Main results

* `position_le_position_advance`: a cursor never moves back
-/

namespace ParseTree

/-- A position in a token stream and the lookahead recorded there. -/
structure Cursor where
  /-- The position of the current token; the size of the stream at the end. -/
  position : Nat
  /-- The tokens looked at since the last reset, in the order of the first look. -/
  recorded : List Token
deriving DecidableEq, Repr

namespace Cursor

/-- The cursor on the first visible token. -/
def start (ts : TokenStream) : Cursor :=
  ⟨ts.nextVisible 0, []⟩

/-- The visible token some steps away; step one is the current token, step minus one the visible
token before it. -/
def peek (c : Cursor) (ts : TokenStream) (i : Int) : Token :=
  ts.peek c.position i

/-- The current token. -/
def current (c : Cursor) (ts : TokenStream) : Token :=
  c.peek ts 1

/-- The last visible token before the cursor. -/
def previous? (c : Cursor) (ts : TokenStream) : Option Token :=
  ts.lookBack (min c.position ts.size) 1

/-- Records a token unless it is synthetic or recorded already. -/
def record (c : Cursor) (t : Token) : Cursor :=
  if t.isSynthetic || c.recorded.any (·.index == t.index) then c
  else { c with recorded := c.recorded ++ [t] }

/-- The token some steps away; tokens ahead are recorded. -/
def lookAt (c : Cursor) (ts : TokenStream) (i : Int) : Token × Cursor :=
  let t := c.peek ts i
  (t, if 0 < i then c.record t else c)

/-- Past the current token and the hidden tokens after it. -/
def advance (c : Cursor) (ts : TokenStream) : Cursor :=
  if ts.size ≤ c.position then c
  else { c with position := ts.nextVisible (c.position + 1) }

/-- To the end of the stream. -/
def finish (c : Cursor) (ts : TokenStream) : Cursor :=
  { c with position := ts.size }

/-- Forgets the recorded lookahead. -/
def forget (c : Cursor) : Cursor :=
  { c with recorded := [] }

/-- Forgets the token recorded last. -/
def forgetLast (c : Cursor) : Cursor :=
  { c with recorded := c.recorded.dropLast }

@[simp] theorem position_record (c : Cursor) (t : Token) : (c.record t).position = c.position := by
  unfold record; split <;> rfl

@[simp] theorem position_lookAt (c : Cursor) (ts : TokenStream) (i : Int) :
    (c.lookAt ts i).2.position = c.position := by
  simp only [lookAt]; split <;> simp

@[simp] theorem fst_lookAt (c : Cursor) (ts : TokenStream) (i : Int) :
    (c.lookAt ts i).1 = c.peek ts i := rfl

@[simp] theorem position_forget (c : Cursor) : c.forget.position = c.position := rfl

@[simp] theorem recorded_forget (c : Cursor) : c.forget.recorded = [] := rfl

@[simp] theorem position_forgetLast (c : Cursor) : c.forgetLast.position = c.position := rfl

@[simp] theorem recorded_forgetLast (c : Cursor) :
    c.forgetLast.recorded = c.recorded.dropLast := rfl

@[simp] theorem recorded_advance (c : Cursor) (ts : TokenStream) :
    (c.advance ts).recorded = c.recorded := by
  unfold advance; split <;> rfl

@[simp] theorem position_finish (c : Cursor) (ts : TokenStream) :
    (c.finish ts).position = ts.size := rfl

theorem position_le_position_advance (c : Cursor) (ts : TokenStream) :
    c.position ≤ (c.advance ts).position := by
  unfold advance
  split
  · exact Nat.le_refl _
  · next h => exact Nat.le_trans (Nat.le_succ _) (TokenStream.le_nextVisible (by omega))

end Cursor

end ParseTree
