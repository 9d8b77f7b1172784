import Transcript.Text.Blank
import Transcript.Text.Search

/-!
# Fenced directives

A directive of a Markdown document can stand between fences of colons. They cut the document into
chunks: directives, and what is plain Markdown around them. Colons inside code fences are left
alone, and a directive that is never closed goes on to the end.

Results:
* `Chunk.lines_chunksFrom`: the lines of all chunks, in order, are the lines of the document.
-/

namespace Transcript.Markdown

/-- A line of a document with its number. -/
structure Numbered where
  /-- Its number, counted from one. -/
  number : Nat
  /-- Its text. -/
  text : List Char
  deriving DecidableEq, Repr

/-- **A part of a document.** -/
inductive Chunk
  /-- Plain Markdown. -/
  | plain (lines : List Numbered)
  /-- A directive: its name and argument, the line that opens it, its body, and the line that closes
  it, if there is one. -/
  | directive (name : List Char) (argument : List Char) (opening : Numbered) (body : List Numbered)
      (closing : List Numbered)

/-- All lines of a part. -/
def Chunk.lines : Chunk → List Numbered
  | .plain lines => lines
  | .directive _ _ opening body closing => opening :: body ++ closing

/-- A line without up to three spaces at its beginning. -/
def dropMargin (s : List Char) : List Char :=
  let spaces := s.takeWhile (· == ' ')
  s.drop (min spaces.length 3)

/-- How often a character is repeated at the beginning of a text. -/
def runLength (c : Char) (s : List Char) : Nat := (s.takeWhile (· == c)).length

/-- The sign around code. -/
def backtick : Char := Char.ofNat 96

/-- The fence that opens code. -/
def codeFence? (line : List Char) : Option (List Char) :=
  let s := dropMargin line
  if 3 ≤ runLength backtick s then some (s.takeWhile (· == backtick))
  else if 3 ≤ runLength '~' s then some (s.takeWhile (· == '~'))
  else none

/-- Whether a line closes code behind a fence: it holds at least as long a fence and nothing else. -/
def closesCode (fence line : List Char) : Bool :=
  let s := Text.trim line
  (Text.afterBegin? fence s).isSome && s.all fun c => fence.head? == some c

/-- Whether a character is a space or a tab. -/
def isGap (c : Char) : Bool := c == ' ' || c == '\t'

/-- Whether a character is a gap or moves the paper. -/
def isSpacing (c : Char) : Bool := isGap c || c == '\x0b' || c == '\x0c'

/-- The width of the fence, the name and the argument of a line that opens a directive. -/
def colonFence? (line : List Char) : Option (Nat × List Char × List Char) := do
  let s := dropMargin line
  let width := runLength ':' s
  if width < 3 then none
  else
    let rest ← Text.afterBegin? ['\x7b'] ((s.drop width).dropWhile isGap)
    let name := rest.takeWhile fun c => c != '\x7d' && !Text.isBlank c
    let rest ← Text.afterBegin? ['\x7d'] (rest.drop name.length)
    if name.isEmpty then none else some (width, name, Text.trim rest)

/-- The width of a line that closes directives: it holds colons only. -/
def closingWidth? (line : List Char) : Option Nat :=
  let s := Text.trim line
  if 3 ≤ s.length && s.all (· == ':') then some s.length else none

/-- The lines of a directive with a fence of some width up to the line that closes it. The widths of
the directives that are open inside come first. -/
def bodyOf (width : Nat) : List Nat → List Numbered → List Numbered
  | _, [] => []
  | inner, l :: ls =>
    match colonFence? l.text, closingWidth? l.text, inner with
    | some (w, _), _, _ => l :: bodyOf width (w :: inner) ls
    | none, none, _ => l :: bodyOf width inner ls
    | none, some n, w :: outer => l :: bodyOf width (if w ≤ n then outer else inner) ls
    | none, some n, [] => if width ≤ n then [] else l :: bodyOf width inner ls

/-- A chunk of plain lines, unless there are none. -/
def plainChunk (lines : List Numbered) : List Chunk := if lines.isEmpty then [] else [.plain lines]

/-- Cuts lines into chunks. The plain lines before them are given with the last one first, and the
fence if they end within code. At most so many lines are looked at. -/
def chunksFrom : Nat → List Numbered → Option (List Char) → List Numbered → List Chunk
  | 0, pending, _, lines => plainChunk (pending.reverse ++ lines)
  | _ + 1, pending, _, [] => plainChunk pending.reverse
  | n + 1, pending, some fence, l :: ls =>
    chunksFrom n (l :: pending) (if closesCode fence l.text then none else some fence) ls
  | n + 1, pending, none, l :: ls =>
    match codeFence? l.text, colonFence? l.text with
    | some fence, _ => chunksFrom n (l :: pending) (some fence) ls
    | none, none => chunksFrom n (l :: pending) none ls
    | none, some (width, name, argument) =>
      let body := bodyOf width [] ls
      let after := ls.drop body.length
      plainChunk pending.reverse ++
        .directive name argument l body (after.take 1) :: chunksFrom n [] none (after.drop 1)

/-- **The chunks** of lines. -/
def chunks (lines : List Numbered) : List Chunk := chunksFrom lines.length [] none lines

theorem dropMargin_cons {c : Char} (h : c ≠ ' ') (cs : List Char) : dropMargin (c :: cs) = c :: cs := by
  have hspaces : (c :: cs).takeWhile (· == ' ') = [] := List.takeWhile_cons_of_neg (by simpa using h)
  unfold dropMargin
  rw [hspaces]
  rfl

theorem bodyOf_prefix (width : Nat) (inner : List Nat) (ls : List Numbered) :
    bodyOf width inner ls <+: ls := by
  fun_induction bodyOf width inner ls <;> simp_all

theorem lines_plainChunk (lines : List Numbered) :
    (plainChunk lines).flatMap Chunk.lines = lines := by
  unfold plainChunk; split <;> simp_all [Chunk.lines]

theorem Chunk.lines_chunksFrom (n : Nat) (pending : List Numbered) (fence : Option (List Char))
    (lines : List Numbered) :
    (chunksFrom n pending fence lines).flatMap Chunk.lines = pending.reverse ++ lines := by
  induction n generalizing pending fence lines with
  | zero => rw [chunksFrom, lines_plainChunk]
  | succ n ih =>
    cases lines with
    | nil => simp [chunksFrom, lines_plainChunk]
    | cons l ls =>
      cases fence with
      | some fence => simp [chunksFrom, ih]
      | none =>
        rw [chunksFrom]
        split
        · simp [ih]
        · simp [ih]
        · rename_i width name argument _ _
          obtain ⟨after, h⟩ := bodyOf_prefix width [] ls
          have h' : ls.drop (bodyOf width [] ls).length = after := by
            conv => enter [1, 2]; rw [← h]
            exact List.drop_left
          have h'' : after.take 1 ++ after.drop 1 = after := List.take_append_drop 1 after
          simpa [lines_plainChunk, Chunk.lines, ih, h', -List.drop_one, h''] using h

end Transcript.Markdown
