import Transcript.Text.Lines
import Transcript.Text.Search

/-!
# Blank lines of an output

An expectation ends at a blank line, so a blank line of the output is written there as a marker.
Comparison takes the markers out of the expectation and the blanks out of the blank lines of the
output; a report puts markers into the output it shows.

Results:
* `blankMarker_unmarked`: the marker line stands for the empty line.
-/

namespace Transcript.Compare

/-- The marker of a blank line. -/
def blankMarker : List Char := "<BLANKLINE>".toList

/-- The blanks that may follow a marker on its line. -/
def isMarkerBlank (c : Char) : Bool :=
  c == ' ' || c == '\t' || c == '\r' || c == '\x0c' || c == '\x0b'

/-- The empty line for a line with a marker alone. -/
def unmarkLine (line : List Char) : List Char :=
  match Text.afterBegin? blankMarker line with
  | some rest => if rest.all isMarkerBlank then [] else line
  | none => line

/-- The empty line for a line of blanks. -/
def clearLine (line : List Char) : List Char := if Text.allBlank line then [] else line

/-- An expectation with empty lines for its markers. -/
def unmarkBlankLines (want : List Char) : List Char :=
  Text.joinLines ((Text.segments want).map unmarkLine)

/-- An output with empty lines for its lines of blanks. -/
def clearBlankLines (got : List Char) : List Char :=
  Text.joinLines ((Text.segments got).map clearLine)

/-- A full line of an output as a report shows it: a marker for a line of spaces. -/
def markLine (line : List Char) : List Char :=
  match Text.beforeEnd? ['\n'] line with
  | some body => if body.all (· == ' ') then blankMarker ++ ['\n'] else line
  | none => line

/-- An output with markers for its lines of spaces. -/
def markBlankLines (got : List Char) : List Char := ((Text.fullLines got).map markLine).flatten

theorem blankMarker_unmarked : unmarkLine blankMarker = [] := by decide

end Transcript.Compare
