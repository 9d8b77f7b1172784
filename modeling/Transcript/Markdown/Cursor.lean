import Transcript.Markdown.Chunk

/-!
# Columns of a line

Indentation counts columns, and a tab goes on to the next multiple of four. Where only a part of a
tab is needed, its other columns are kept for later.
-/

namespace Transcript.Markdown

/-- **A place in a line.** -/
structure Cursor where
  /-- The text behind it. -/
  rest : List Char
  /-- Its column. -/
  column : Nat
  /-- The columns of a tab before it that have not been used. -/
  pending : Nat
  deriving DecidableEq, Repr

namespace Cursor

/-- The beginning of a line. -/
def ofLine (s : List Char) : Cursor := ⟨s, 0, 0⟩

/-- Skips columns of spaces and tabs; the first part counts those that are missing. -/
def skipFrom : Nat → Nat → List Char → Nat × Cursor
  | column, 0, s => (0, ⟨s, column, 0⟩)
  | column, n + 1, ' ' :: s => skipFrom (column + 1) n s
  | column, n + 1, '\t' :: s =>
    let width := 4 - column % 4
    if width ≤ n + 1 then skipFrom (column + width) (n + 1 - width) s
    else (0, ⟨s, column + width, width - (n + 1)⟩)
  | column, n + 1, s => (n + 1, ⟨s, column, 0⟩)
termination_by structural _ _ s => s

/-- Skips columns; the first part counts those that are missing. -/
def skip (n : Nat) (c : Cursor) : Nat × Cursor :=
  if n ≤ c.pending then (0, { c with pending := c.pending - n })
  else skipFrom c.column (n - c.pending) c.rest

/-- Skips as many columns as there are up to a number; the first part counts them. -/
def skipUpTo (n : Nat) (c : Cursor) : Nat × Cursor :=
  let (missing, c) := c.skip n
  (n - missing, c)

/-- Whether the line ends here. -/
def isAtEnd (c : Cursor) : Bool := c.rest.isEmpty

/-- Whether nothing but spacing follows. -/
def isBlank (c : Cursor) : Bool := c.rest.all isSpacing

/-- Skips one character. -/
def next (c : Cursor) : Cursor := ⟨c.rest.drop 1, c.column + 1, 0⟩

end Cursor

end Transcript.Markdown
