import Transcript.Doc.Directive
import Transcript.Doc.Line
import Transcript.Text.Character

/-!
# Reading reStructuredText

A document is read block by block. What begins with a line that is not blank, and where it ends: block quotes,
explicit markup, section titles, transitions, list items, doctest blocks, and paragraphs, which may announce a
literal block. The bodies of containers and of directives that hold a part of the document are read in the same way,
with less text at each level.
-/

namespace Transcript.Rst

open Doc

/-- **A part of a document** as it is read. -/
inductive Piece
  /-- A node. -/
  | node (n : Node)
  /-- A problem. -/
  | trouble (line : Nat) (t : Trouble)
  /-- A container whose children are read from lines. -/
  | container (line : Nat) (body : List Line)
  /-- A directive. -/
  | directive (inv : Invocation)

/-- What has been read, and the lines after it. -/
abbrev Taken := List Piece × List Line

/-- The characters that adorn titles and quote literal blocks. -/
def adornmentChars : List Char := "!\"#$%&'()*+,-./:;<=>?@[\\]^_`\x7b|\x7d~".toList

/-- The character that a line of adornment repeats. -/
def adornment? (text : List Char) : Option Char :=
  match text with
  | c :: d :: cs => if adornmentChars.contains c && (d :: cs).all (· == c) then some c else none
  | _ => none

/-- Whether a line begins explicit markup. -/
def isExplicitMarkup (text : List Char) : Bool :=
  text == ['.', '.'] || (Text.afterBegin? ['.', '.', ' '] text).isSome

/-- Whether a line begins with a prompt. -/
def isPrompt (text : List Char) : Bool :=
  text == ['>', '>', '>'] || (Text.afterBegin? ['>', '>', '>', ' '] text).isSome

/-! ### Titles -/

/-- The node of a title. -/
def titleNode (text : List Char) (line : Nat) : Piece :=
  .node (.atLine .section (Text.trim text) line)

/-- A title between two lines of the same adornment. -/
def overlined? (first : Line) (rest : List Line) : Option Taken := do
  let c ← adornment? first.text
  match rest with
  | title :: under :: after =>
    if adornment? under.text = some c && !title.isBlank then
      some ([titleNode title.text first.number], after)
    else none
  | _ => none

/-- A title above a line of adornment. It may be longer than the adornment, unless that is very
short. -/
def underlined? (first : Line) (rest : List Line) : Option Taken :=
  match rest with
  | [] => none
  | under :: after =>
    if under.indent = 0 && (adornment? under.text).isSome then
      let title := titleNode first.text first.number
      let width := under.text.length
      if (Text.trim first.text).length ≤ width then some ([title], after)
      else if width < 4 then none
      else some ([.trouble under.number .shortUnderline, title], after)
    else none

/-- A section title, or a transition, which leaves nothing. -/
def section? (first : Line) (rest : List Line) : Option Taken :=
  match overlined? first rest with
  | some taken => some taken
  | none =>
    if (adornment? first.text).isSome then
      if (rest.head?.all (·.isBlank)) && 4 ≤ first.text.length then some ([], rest) else none
    else underlined? first rest

/-! ### Indented and literal blocks -/

/-- A block quote. -/
def blockQuote (first : Line) (rest : List Line) : Taken :=
  let block := indentedBlock 1 (first :: rest)
  ([.container first.number (dedent (trimBlank block))], (first :: rest).drop block.length)

/-- What follows the marker of a list item: the end of the line or spaces. -/
def markerWidth? (marker rest : List Char) : Option Nat :=
  let spaces := rest.takeWhile (· == ' ')
  if rest.isEmpty || !spaces.isEmpty then some (Text.byteLength marker + spaces.length) else none

/-- **The width of the marker of a list item** with the spaces behind it, in bytes. A marker is a
bullet, a number with a point or a parenthesis, or a number sign with a point. -/
def itemWidth? (text : List Char) : Option Nat :=
  match text with
  | [] => none
  | c :: cs =>
    if ['-', '*', '+', '•'].contains c then markerWidth? [c] cs
    else if c = '#' then
      match cs with
      | '.' :: rest => markerWidth? [c, '.'] rest
      | _ => none
    else
      let (digits, rest) := text.span Text.isDecimal
      match digits, rest with
      | _ :: _, d :: rest => if d = '.' || d = ')' then markerWidth? (digits ++ [d]) rest else none
      | _, _ => none

/-- A list item. -/
def listItem (width : Nat) (first : Line) (rest : List Line) : Taken :=
  let block := indentedBlock width rest
  let body := (first :: block).map (Line.cut width)
  ([.container first.number (trimBlank body)], rest.drop block.length)

/-- A doctest block: everything up to a blank line. -/
def doctestBlock (first : Line) (rest : List Line) : Taken :=
  let block := textBlock rest
  ([.node (.atLine .doctestBlock (joinedText (first :: block)) first.number)],
    rest.drop block.length)

/-- A literal block that has been announced: indented, or with the same quoting character at the
beginning of every line. The number of the last line is for the case that nothing follows. -/
def literalBlock (last : Nat) (lines : List Line) : Taken :=
  match lines.dropWhile Line.isBlank with
  | [] => ([.trouble last .noLiteralBlock], [])
  | first :: rest =>
    let node (body : List Line) : Piece := .node (.atLine .literalBlock (joinedText body) first.number)
    if 0 < first.indent then
      let block := indentedBlock 1 (first :: rest)
      ([node (dedent (trimBlank block))], (first :: rest).drop block.length)
    else
      match first.text.head?.filter adornmentChars.contains with
      | none => ([.trouble first.number .noLiteralBlock], first :: rest)
      | some quote =>
        let block := textBlock (first :: rest)
        let uneven := block.any fun l => l.text.head? != some quote
        let troubles := if uneven then [Piece.trouble first.number .unevenQuoting] else []
        (troubles ++ [node block], (first :: rest).drop block.length)

/-- The text of a paragraph that announces a literal block: both colons go if they stand alone,
else one stays. -/
def announcement (body : List Char) : List Char :=
  let stripped := Text.trimEnd body
  if stripped.length < body.length || stripped.isEmpty then stripped else body ++ [':']

/-- **A paragraph**, and the literal block that two colons at its end announce. -/
def paragraph (first : Line) (rest : List Line) : Taken :=
  let more := rest.takeWhile fun l => !l.isBlank && l.indent == 0
  let after := rest.drop more.length
  let text := joinedText (first :: more)
  let node (text : List Char) : List Piece :=
    if text.isEmpty then [] else [.node (.atLine .paragraph text first.number)]
  match Text.beforeEnd? [':', ':'] text with
  | none => (node text, after)
  | some body =>
    let last := ((first :: rest).getLast?.map Line.number).getD 1
    let (pieces, after) := literalBlock last after
    (node (announcement body) ++ pieces, after)

/-! ### Explicit markup -/

/-- The rest of a directive name: its parts are joined by single signs. -/
def nameTail : List Char → List Char × List Char
  | [] => ([], [])
  | [c] => if c.isAlphanum then ([c], []) else ([], [c])
  | c :: d :: cs =>
    if c.isAlphanum || (['-', '_', '.', '+', ':'].contains c && d.isAlphanum) then
      let (name, rest) := nameTail (d :: cs)
      (c :: name, rest)
    else ([], c :: d :: cs)

/-- **The name and the argument of a directive:** the name is followed by two colons, which the end
of the line or blanks follow. -/
def directiveHead? (text : List Char) : Option (String × Option (List Char)) := do
  let c ← text.head?
  if !c.isAlphanum then none
  else
    let (name, rest) := nameTail text
    let rest := (Text.afterBegin? [' '] rest).getD rest
    let rest ← Text.afterBegin? [':', ':'] rest
    let argument := Text.trim rest
    if rest.isEmpty || rest.head? = some ' ' || rest.head? = some '\t' then
      some (String.ofList name, if argument.isEmpty then none else some argument)
    else none

/-- The comment that explicit markup makes if it is no directive. -/
def commentPiece (first : Line) (text : List Char) (body : List Line) : Piece :=
  let parts := (if text.isEmpty then [] else [text]) ++ (if body.isEmpty then [] else [joinedText body])
  .node (.atLine .comment (Text.joinLines parts) first.number)

/-- A directive with its options and its body. -/
def invocationOf (first : Line) (name : String) (argument : Option (List Char))
    (body : List Line) : Invocation :=
  let options := (body.map fun l => optionLine? l.text).takeWhile Option.isSome
  let content := dedent (trimBlank (body.drop options.length))
  ⟨name, argument, options.filterMap id, joinedText content, first.number,
    (content.head?.map Line.number).getD (first.number + 1)⟩

/-- A directive or a comment. -/
def explicitMarkup (first : Line) (rest : List Line) : Taken :=
  let block := indentedBlock 1 rest
  let text := Text.trim (first.text.drop 2)
  let body := dedent (trimBlank block)
  let piece :=
    match directiveHead? text with
    | none => commentPiece first text body
    | some (name, argument) => .directive (invocationOf first name argument body)
  ([piece], rest.drop block.length)

/-- **The block that begins with a line** that is not blank, and the lines after it. -/
def nextBlock (first : Line) (rest : List Line) : Taken :=
  if 0 < first.indent then blockQuote first rest
  else if isExplicitMarkup first.text then explicitMarkup first rest
  else
    match section? first rest with
    | some taken => taken
    | none =>
      match itemWidth? first.text with
      | some width => listItem width first rest
      | none =>
        if isPrompt first.text then doctestBlock first rest else paragraph first rest

/-! ## Reading -/

mutual

/-- Reads lines into children of a node, with at most so many nested steps. -/
def readLines (d : Directives) : Nat → NodeId → List Line → Building Unit
  | 0, _, _ => return
  | fuel + 1, parent, lines => do
    match lines.dropWhile Line.isBlank with
    | [] => return
    | first :: rest =>
      let (pieces, rest) := nextBlock first rest
      pieces.forM (place d fuel parent)
      readLines d fuel parent rest

/-- Adds a part to a document. -/
def place (d : Directives) : Nat → NodeId → Piece → Building Unit
  | 0, _, _ => return
  | fuel + 1, parent, piece => do
    match piece with
    | .node n => discard (Building.add parent n)
    | .trouble line t => Building.warn line t
    | .container line body =>
      let id ← Building.add parent (.atLine .container [] line)
      readLines d fuel id body
    | .directive inv =>
      match ← d.expand inv with
      | none => return
      | some (.node n) => discard (Building.add parent n)
      | some (.nested _ content contentLine line) =>
        let id ← Building.add parent (.atLine .container [] line)
        readLines d fuel id (numberedLines content contentLine)

end

/-- Enough steps for lines: every level has less text. -/
def stepsFor (lines : List Line) : Nat := 2 * weight lines + 2

/-- **Reads a text**, whose first line has the given number, into children of a node. -/
def readInto (d : Directives) (parent : NodeId) (text : List Char) (first : Nat) : Building Unit :=
  let lines := numberedLines text first
  readLines d (stepsFor lines) parent lines

end Transcript.Rst
