import ParseTree.Text.Bytes

/-!
# Lines and columns

A line table holds the offsets at which the lines of a text start, so that byte offsets can be
turned into line and column numbers. Both numbers count from one; columns count characters.

## Main definitions

* `LineTable.ofText`: the table of a text
* `LineTable.line`, `LineTable.position`: the line, the line and column of an offset
-/

namespace ParseTree

/-- The start offsets of the lines of a text, in ascending order. -/
structure LineTable where
  /-- The offsets; the first line starts at zero. -/
  starts : List Nat
deriving DecidableEq, Repr

namespace LineTable

/-- The offsets just past the newlines of a text that starts at an offset. -/
def startsAfter (offset : Nat) : List Char → List Nat
  | [] => []
  | c :: cs =>
    if c = '\n' then (offset + 1) :: startsAfter (offset + 1) cs
    else startsAfter (offset + c.utf8Size) cs

/-- The table of a text. -/
def ofText (text : String) : LineTable :=
  ⟨0 :: startsAfter 0 text.toList⟩

/-- The number of lines. -/
def size (t : LineTable) : Nat :=
  t.starts.length

/-- The line that contains an offset; a newline belongs to the line it ends. -/
def line (t : LineTable) (offset : Nat) : Nat :=
  max 1 (t.starts.takeWhile (· ≤ offset)).length

/-- The line and column of an offset. Offsets past the end stand for the end; an offset inside a
character has column one. -/
def position (t : LineTable) (text : String) (offset : Nat) : Nat × Nat :=
  let line := t.line offset
  let start := t.starts.getD (line - 1) 0
  let stop := max start (min offset (max text.utf8ByteSize start))
  (line, ((Text.slice? text start stop).elim 0 (·.length)) + 1)

end LineTable

/-- The line and column of an offset of a text. -/
def lineColumn (text : String) (offset : Nat) : Nat × Nat :=
  (LineTable.ofText text).position text offset

end ParseTree
