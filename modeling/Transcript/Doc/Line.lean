import Transcript.Text.Bytes
import Transcript.Text.Lines

/-!
# Numbered lines

Readers work on lines that know their number in the document. Their tabs are expanded and the
blanks at their ends are gone, so a blank line is an empty one. Indentation counts spaces.

A byte offset is told to a reader as a line and a column, both counted from one; columns count
bytes.

Results:
* `weight_trimBlank`: taking blank lines away at the ends adds no text.
-/

namespace Transcript.Doc

/-- **A line of a document.** -/
structure Line where
  /-- Its number, counted from one. -/
  number : Nat
  /-- Its text. -/
  text : List Char
  deriving DecidableEq, Repr

namespace Line

/-- Whether there is nothing on a line. -/
def isBlank (l : Line) : Bool := Text.allBlank l.text

/-- The number of spaces a line begins with. -/
def indent (l : Line) : Nat := (l.text.takeWhile (· == ' ')).length

end Line

/-- **The lines of a text**, whose first line has the given number. -/
def numberedLines (text : List Char) (first : Nat) : List Line :=
  (Text.lines text).zipIdx.map fun (line, i) => ⟨first + i, Text.expandTabs (Text.trimEnd line)⟩

/-- Whether a line belongs to a block indented by at least so many spaces. -/
def Line.within (indent : Nat) (l : Line) : Bool := l.isBlank || indent ≤ l.indent

/-- Lines without the blank lines at their end. -/
def dropBlankEnd (lines : List Line) : List Line :=
  (lines.reverse.dropWhile Line.isBlank).reverse

/-- Lines without the blank lines at both ends. -/
def trimBlank (lines : List Line) : List Line := dropBlankEnd (lines.dropWhile Line.isBlank)

/-- **The block** of blank lines and lines indented by at least so many spaces at the beginning,
without the blank lines at its end. -/
def indentedBlock (indent : Nat) (lines : List Line) : List Line :=
  dropBlankEnd (lines.takeWhile (·.within indent))

/-- The lines before the first blank one. -/
def textBlock (lines : List Line) : List Line := lines.takeWhile fun l => !l.isBlank

/-- A line without so many bytes at its beginning; nothing if it has no such part. -/
def Line.cut (bytes : Nat) (l : Line) : Line := ⟨l.number, (Text.dropBytes bytes l.text).getD []⟩

/-- The indentation that all lines have that are not blank. -/
def commonIndent (lines : List Line) : Nat :=
  (((lines.filter fun l => !l.isBlank).map Line.indent).min?).getD 0

/-- **Lines without their common indentation.** -/
def dedent (lines : List Line) : List Line := lines.map (Line.cut (commonIndent lines))

/-- The text of lines. -/
def joinedText (lines : List Line) : List Char := Text.joinLines (lines.map Line.text)

/-- The amount of text of lines. -/
def weight (lines : List Line) : Nat := lines.foldr (fun l n => l.text.length + 1 + n) 0

theorem weight_cons (l : Line) (lines : List Line) :
    weight (l :: lines) = l.text.length + 1 + weight lines := rfl

theorem weight_append (a b : List Line) : weight (a ++ b) = weight a + weight b := by
  induction a with
  | nil => exact (Nat.zero_add _).symm
  | cons l ls ih => exact (congrArg _ ih).trans (Nat.add_assoc _ _ _).symm

theorem weight_le_of_sublist {a b : List Line} (h : a.Sublist b) : weight a ≤ weight b := by
  induction h with
  | slnil => exact Nat.le_refl _
  | cons l _ ih => exact Nat.le_trans ih (Nat.le_add_left _ _)
  | cons_cons l _ ih => exact Nat.add_le_add_left ih _

theorem dropBlankEnd_sublist (lines : List Line) : (dropBlankEnd lines).Sublist lines := by
  have := (List.dropWhile_sublist Line.isBlank (l := lines.reverse)).reverse
  simpa [dropBlankEnd] using this

theorem weight_trimBlank (lines : List Line) : weight (trimBlank lines) ≤ weight lines :=
  weight_le_of_sublist ((dropBlankEnd_sublist _).trans (List.dropWhile_sublist _))

/-! ## Positions -/

/-- **A line and a column**, counted from one. -/
structure Position where
  /-- The line. -/
  line : Nat
  /-- The column, in bytes. -/
  column : Nat
  deriving DecidableEq, Repr

/-- The position of a byte offset. Beyond the end of the text columns go on. -/
def Position.ofOffset (offset : Nat) (text : List Char) : Position :=
  let before := Text.upToBytes offset text
  let lastLine := (before.reverse.takeWhile (· != '\n')).reverse
  let lineStart := Text.byteLength before - Text.byteLength lastLine
  ⟨Text.lineFeeds before + 1, offset - lineStart + 1⟩

/-- A position in words. -/
def Position.describe (p : Position) : String := s!"line {p.line}, column {p.column}"

end Transcript.Doc
