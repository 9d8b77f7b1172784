import Transcript.Markdown.Link
import Transcript.Markdown.Reference
import Transcript.Markdown.Tag
import Transcript.Text.Blank
import Transcript.Text.Character
import Transcript.Text.Table.Punctuation

/-!
# The text of a line with markup

What a reader sees of a paragraph or a heading: code, links and images keep their text, markup and
the signs of emphasis are gone.

Runs of asterisks, underscores and tildes open and close emphasis. What has found a partner does
not show; the rest is text.
-/

namespace Transcript.Markdown

/-! ## Emphasis -/

/-- A run of signs that may open or close emphasis. -/
structure Run where
  /-- The sign. -/
  sign : Char
  /-- How often it is repeated. -/
  size : Nat
  /-- Whether it may open emphasis. -/
  opens : Bool
  /-- Whether it may close emphasis. -/
  closes : Bool
  deriving DecidableEq, Repr

/-- Whether a character is punctuation. -/
def isPunctuation (c : Char) : Bool :=
  if c.toNat < 128 then isSign c else Text.inRanges Text.Table.punctuation c.toNat

/-- Whether a run between two characters may open emphasis. Underscores and single tildes do not do
it within a word. -/
def opensBetween (sign : Char) (size : Nat) (before after : Char) : Bool :=
  !Text.isBlank after &&
    ((sign == '*' && !isPunctuation after) || (sign == '~' && 1 < size) ||
      Text.isBlank before || isPunctuation before)

/-- Whether a run between two characters may close emphasis. -/
def closesBetween (sign : Char) (size : Nat) (before after : Char) : Bool :=
  !Text.isBlank before &&
    (((sign == '*' || (sign == '~' && 1 < size)) && !isPunctuation before) ||
      Text.isBlank after || isPunctuation after)

/-- **The run between two characters**, unless it is text. There are no more than two tildes. -/
def Run.between? (sign : Char) (size : Nat) (before after : Char) : Option Run :=
  let run : Run := ⟨sign, size, opensBetween sign size before after,
    closesBetween sign size before after⟩
  if (run.opens || run.closes) && (sign != '~' || size ≤ 2) then some run else none

/-- A part of a line of text. -/
inductive Piece
  /-- Text. -/
  | text (s : List Char)
  /-- A run. -/
  | run (r : Run)

/-- A run that waits for a partner: its place, itself, and how many of its signs are left. -/
structure Opener where
  /-- Its place among the pieces. -/
  place : Nat
  /-- The run. -/
  run : Run
  /-- The number of its signs without a partner. -/
  left : Nat

/-- Whether a run can close what another one opens. Tildes need the same number. Where one of the
runs could do both, the sum of their sizes is no multiple of three, unless both are. -/
def Run.isClosedBy (opener closer : Run) : Bool :=
  opener.sign == closer.sign && (closer.sign != '~' || opener.size == closer.size) &&
    (!(closer.opens && closer.closes) && !(opener.opens && opener.closes) ||
      (opener.size + closer.size) % 3 != 0 || closer.size % 3 == 0)

/-- Finds partners for signs that close. The openers come with the last one first; the places of
openers with the number of signs that have found partners are added to a list. At most so many
steps are made. Gives the signs left as well. -/
def closeWith (closer : Run) :
    Nat → Nat → List Opener → List (Nat × Nat) → Nat × List Opener × List (Nat × Nat)
  | 0, left, openers, used => (left, openers, used)
  | _ + 1, 0, openers, used => (0, openers, used)
  | steps + 1, left, openers, used =>
    match openers.dropWhile fun o => !o.run.isClosedBy closer with
    | [] => (left, openers, used)
    | o :: outer =>
      let n := min left o.left
      let outer := if n < o.left then { o with left := o.left - n } :: outer else outer
      closeWith closer steps (left - n) outer ((o.place, n) :: used)

/-- How many signs of which pieces have found partners, from a place on. -/
def partners : Nat → List Opener → List (Nat × Nat) → List Piece → List (Nat × Nat)
  | _, _, used, [] => used
  | place, openers, used, .text _ :: ps => partners (place + 1) openers used ps
  | place, openers, used, .run r :: ps =>
    let (left, openers, used) :=
      if r.closes then closeWith r r.size r.size openers used else (r.size, openers, used)
    let openers := if r.opens && 0 < left then ⟨place, r, left⟩ :: openers else openers
    partners (place + 1) openers ((place, r.size - left) :: used) ps

/-- The number of signs of a piece that have found partners. -/
def usedAt (used : List (Nat × Nat)) (place : Nat) : Nat :=
  used.foldl (fun n u => if u.1 == place then n + u.2 else n) 0

/-- **The text of pieces:** runs without the signs that have found partners. -/
def settle (pieces : List Piece) : List Char :=
  let used := partners 0 [] [] pieces
  (pieces.zipIdx.map fun (p, place) =>
    match p with
    | .text s => s
    | .run r => List.replicate (r.size - usedAt used place) r.sign).flatten

/-! ## Markup -/

/-- A bracket that waits for its partner. -/
structure Bracket where
  /-- Whether it begins an image. -/
  isImage : Bool
  /-- Whether it lies around a link, so that it cannot begin one. -/
  isBarred : Bool
  /-- The text behind it. -/
  source : List Char
  /-- The pieces before it, the last one first. -/
  before : List Piece

/-- The text of a bracket that has no partner. -/
def Bracket.text (b : Bracket) : List Char := if b.isImage then ['!', '['] else ['[']

/-- How far a text has been read. -/
structure Reading where
  /-- The pieces since the last bracket that waits, the last one first. -/
  pieces : List Piece
  /-- The brackets that wait, the last one first. -/
  brackets : List Bracket

namespace Reading

/-- Adds text. -/
def addText (r : Reading) (s : List Char) : Reading := { r with pieces := .text s :: r.pieces }

/-- Adds a run. -/
def addRun (r : Reading) (run : Run) : Reading := { r with pieces := .run run :: r.pieces }

/-- Begins a link or an image. -/
def enter (r : Reading) (isImage : Bool) (source : List Char) : Reading :=
  ⟨[], ⟨isImage, false, source, r.pieces⟩ :: r.brackets⟩

/-- Gives up the last bracket: it was text. -/
def giveUp (r : Reading) : Reading :=
  match r.brackets with
  | [] => r
  | b :: outer => ⟨r.pieces ++ .text b.text :: b.before, outer⟩

/-- Ends a link or an image. There are no links within links. -/
def leave (r : Reading) : Reading :=
  match r.brackets with
  | [] => r
  | b :: outer =>
    let outer :=
      if b.isImage then outer
      else outer.map fun o => if o.isImage then o else { o with isBarred := true }
    ⟨.text (settle r.pieces.reverse) :: b.before, outer⟩

/-- All pieces. -/
def finish (r : Reading) : List Piece :=
  (r.brackets.foldl (fun pieces b => pieces ++ .text b.text :: b.before) r.pieces).reverse

end Reading

/-- The length of what makes a link of a bracket and its partner, by what follows the partner: a
target, a label that is defined, or nothing if the text of the link is such a label. -/
def linkLength? (labels : List Label) (b : Bracket) (rest : List Char) : Option Nat :=
  let own : Option Label :=
    (label? b.source).bind fun (label, after) =>
      if after.length = rest.length && labels.contains label then some label else none
  let other : Option (Option Nat) :=
    match rest with
    | '[' :: ']' :: _ => some (own.map fun _ => 2)
    | '[' :: s =>
      (label? s).map fun (label, after) =>
        if labels.contains label then some (rest.length - after.length) else none
    | _ => none
  match target? rest with
  | some after => some (rest.length - after.length)
  | none => other.getD (own.map fun _ => 0)

/-- A closing bracket, by what follows it; the number of further characters that belong to it. -/
def closeBracket (labels : List Label) (rest : List Char) (r : Reading) : Reading × Nat :=
  match r.brackets with
  | [] => (r.addText [']'], 0)
  | b :: _ =>
    match if b.isBarred then none else linkLength? labels b rest with
    | some n => (r.leave, n)
    | none => (r.giveUp.addText [']'], 0)

/-- The text before the next run of exactly so many backticks. -/
def codeBefore? (n : Nat) : Nat → List Char → Option (List Char)
  | _, [] => none
  | skip + 1, c :: cs => (codeBefore? n skip cs).map (c :: ·)
  | 0, c :: cs =>
    if c == backtick then
      let m := runLength backtick (c :: cs)
      if m = n then some [] else (codeBefore? n (m - 1) cs).map (c :: ·)
    else (codeBefore? n 0 cs).map (c :: ·)

/-- The text of code: line ends are spaces, and one space at both ends is dropped, unless there are
only spaces. -/
def codeText (s : List Char) : List Char :=
  if s.all (· == ' ') then s
  else
    let s := s.map fun c => if c == '\n' then ' ' else c
    if s.head? == some ' ' && s.getLast? == some ' ' then (s.drop 1).dropLast else s

/-- Reads one construct: its first character, the character before it, and what follows; the number
of further characters that belong to it. -/
def readOne (labels : List Label) (before c : Char) (cs : List Char) (r : Reading) :
    Reading × Nat :=
  if c == '\\' then
    if cs.head?.any fun d => isSign d || d == '\n' then (r.addText (cs.take 1), 1)
    else (r.addText [c], 0)
  else if c == backtick then
    let n := runLength c (c :: cs)
    match codeBefore? n 0 (cs.drop (n - 1)) with
    | some code => (r.addText (codeText code), n - 1 + code.length + n)
    | none => (r.addText (List.replicate n c), n - 1)
  else if c == '<' then
    match autolink? cs, inlineMarkup? cs with
    | some (address, rest), _ => (r.addText address, cs.length - rest.length)
    | none, some rest => (r, cs.length - rest.length)
    | none, none => (r.addText [c], 0)
  else if c == '!' && cs.head? == some '[' then (r.enter true (cs.drop 1), 1)
  else if c == '[' then (r.enter false cs, 0)
  else if c == ']' then closeBracket labels cs r
  else if c == '&' then
    match reference? cs with
    | some (text, n) => (r.addText text, n)
    | none => (r.addText [c], 0)
  else if c == '*' || c == '_' || c == '~' then
    let n := runLength c (c :: cs)
    match Run.between? c n before ((cs.drop (n - 1)).head?.getD '\n') with
    | some run => (r.addRun run, n - 1)
    | none => (r.addText (List.replicate n c), n - 1)
  else if isSpacing c then
    let gap := cs.takeWhile isSpacing
    if (cs.drop gap.length).head? == some '\n' then (r, gap.length) else (r.addText [c], 0)
  else (r.addText [c], 0)

/-- Reads a text after so many characters, which follow a given one. -/
def readFrom (labels : List Label) : Nat → Char → List Char → Reading → Reading
  | _, _, [], r => r
  | skip + 1, _, c :: cs, r => readFrom labels skip c cs r
  | 0, before, c :: cs, r =>
    let (r, n) := readOne labels before c cs r
    readFrom labels n c cs r

/-- **The text that shows**, where some labels are defined. -/
def plainText (labels : List Label) (s : List Char) : List Char :=
  settle (readFrom labels 0 '\n' s ⟨[], []⟩).finish

end Transcript.Markdown
