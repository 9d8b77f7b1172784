import Transcript.Compare.BlankLine
import Transcript.Diff.Hunk
import Transcript.Flag.Basic

/-!
# Reporting a difference

A failure shows the expectation and the output one after the other, or a diff of the two where the
flags ask for one and both texts are long enough to deserve it.
-/

namespace Transcript.Compare

/-- A text with four spaces before each line that is not empty. -/
def indent (text : List Char) : List Char :=
  (Text.fullLines text).flatMap fun line => if line == ['\n'] then line else "    ".toList ++ line

/-- The kinds of diff, the first one asked for winning, with their names. -/
def diffOf? (diff : Diff.LineDiff) (want got : List Char) (flags : FlagSet) : Option (String × List Char) :=
  if !flags.hasAny [.reportUdiff, .reportCdiff, .reportNdiff] then none
  else if !flags.has .reportNdiff && (Text.lineFeeds want ≤ 2 || Text.lineFeeds got ≤ 2) then none
  else
    let c := Diff.Comparison.ofTexts diff want got
    if flags.has .reportUdiff then
      some ("unified diff with -expected +actual", Diff.unified 2 c)
    else if flags.has .reportCdiff then
      some ("context diff with expected followed by actual", Diff.context 2 c)
    else some ("ndiff with -expected +actual", Diff.complete c)

/-- The text without blanks at the ends of its lines, each ended by a line feed. -/
def trimLines (text : List Char) : List Char :=
  (Text.lines text).flatMap fun line => Text.trimEnd line ++ ['\n']

/-- **The difference** between an expectation and an output, for a failure report, as a line diff finds it. -/
def differenceBy (diff : Diff.LineDiff) (want got : List Char) (flags : FlagSet) : List Char :=
  let got := if flags.has .dontAcceptBlankline then got else markBlankLines got
  match diffOf? diff want got flags with
  | some (kind, text) =>
    "Differences (".toList ++ kind.toList ++ "):\n".toList ++ indent (trimLines text)
  | none =>
    (if want.isEmpty then "Expected nothing\n".toList
      else "Expected:\n".toList ++ indent want) ++
    (if got.isEmpty then "Got nothing\n".toList else "Got:\n".toList ++ indent got)

/-- The difference that failures report. -/
def difference (want got : List Char) (flags : FlagSet) : List Char :=
  differenceBy Diff.compactShortest want got flags

end Transcript.Compare
