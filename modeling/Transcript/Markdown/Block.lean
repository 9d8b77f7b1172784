import Transcript.Markdown.Link
import Transcript.Markdown.Marker
import Transcript.Markdown.Tag
import Transcript.Text.Lines

/-!
# Blocks

A text is cut into paragraphs, headings, code and markup, line by line. Quotes and lists are opened
and closed on the way. What a paragraph says is left as it is written; the labels that the text
defines are collected.

Quotes and list items hold other blocks. A line belongs to those of the open containers whose
beginning it repeats. Whether a list is loose, that is, whether blank lines stand between its
blocks, is noted while its items come in.
-/

namespace Transcript.Markdown

/-! ## Blocks within blocks -/

/-- A list of a text. -/
abbrev ListId := Nat

/-- **What holds other blocks.** -/
inductive Container
  /-- A quote. -/
  | quote
  /-- A list whose items begin with a sign. -/
  | list (id : ListId) (sign : Char)
  /-- An item, whose lines are indented by some columns. -/
  | item (indent : Nat)
  deriving DecidableEq, Repr

/-- Skips the sign of a quote and the gap behind it. -/
def quoteSign? (c : Cursor) : Option Cursor :=
  if c.rest.head? == some '>' then some (c.next.skip 1).2 else none

/-- Skips the beginning of a line of a container. -/
def Container.enter? (c : Cursor) : Container → Option Cursor
  | .quote => quoteSign? (c.skipUpTo 3).2
  | .list _ _ => some c
  | .item indent =>
    let (missing, c) := c.skip indent
    if missing = 0 || c.isAtEnd then some c else none

/-- **Skips the beginnings** of a line of containers, the outermost first, as far as they are there;
the first part counts them. -/
def enter (c : Cursor) : List Container → Nat × Cursor
  | [] => (0, c)
  | k :: ks =>
    match k.enter? c with
    | some c =>
      let (n, c) := enter c ks
      (n + 1, c)
    | none => (0, c)

/-- Skips the beginning of a line that belongs to all containers. -/
def enterAll? (s : List Char) (around : List Container) : Option Cursor :=
  let (n, c) := enter (.ofLine s) around
  if n = around.length then some c else none

/-- **The open containers** and what has been learned about lists. -/
structure Nesting where
  /-- The containers, the outermost first. -/
  around : List Container
  /-- The number of lists. -/
  lists : Nat
  /-- The loose lists. -/
  loose : List ListId
  /-- Whether the last line was blank. -/
  afterBlank : Bool
  /-- Whether the last container is an item on whose first line nothing stands. -/
  isFresh : Bool

namespace Nesting

/-- No containers. -/
def empty : Nesting := ⟨[], 0, [], false, false⟩

/-- Closes the last container. -/
def close (n : Nesting) : Nesting := { n with around := n.around.dropLast }

/-- Leaves so many containers open. -/
def keep (n : Nesting) (count : Nat) : Nesting := { n with around := n.around.take count }

/-- Opens a container. -/
def push (n : Nesting) (c : Container) : Nesting := { n with around := n.around ++ [c] }

/-- Closes an item that had nothing but a blank line. -/
def endItem (n : Nesting) : Nesting :=
  let n' :=
    match n.around.getLast? with
    | some (.item _) => if n.isFresh && n.afterBlank then n.close else n
    | _ => n
  { n' with isFresh := false }

/-- The list that the last container is an item of. -/
def list? (n : Nesting) : Option ListId :=
  match n.around.dropLast.getLast? with
  | some (.list id _) => some id
  | _ => none

/-- Notes that something other than an item follows: it ends the list whose items have ended, and
behind a blank line, it makes the list around it loose. -/
def endList (n : Nesting) : Nesting :=
  let n := n.endItem
  let n :=
    match n.around.getLast? with
    | some (.list _ _) => n.close
    | _ => n
  if n.afterBlank then { n with loose := n.list?.toList ++ n.loose, afterBlank := false } else n

/-- Opens a list. -/
def newList (n : Nesting) (sign : Char) : Nesting :=
  { n.push (.list n.lists sign) with lists := n.lists + 1, afterBlank := false }

/-- **Goes on with a list,** or begins a new one where the sign of its items is another. -/
def toList (n : Nesting) (sign : Char) : Nesting :=
  let n := n.endItem
  match n.around.getLast? with
  | some (.list id sign') =>
    if sign = sign' then
      if n.afterBlank then { n with loose := id :: n.loose, afterBlank := false } else n
    else n.endList.newList sign
  | some _ => n.endList.newList sign
  | none => n.newList sign

/-- Notes a blank line. -/
def blank (n : Nesting) : Nesting :=
  if n.around.getLast? == some .quote then n else { n with afterBlank := true }

/-- **Opens the containers** that begin on a line, at most so many. An item on whose first line
nothing stands is fresh, and nothing is left of the line. -/
def openFrom : Nat → Nesting → Cursor → Nesting × Option Cursor
  | 0, n, c => (n, some c)
  | steps + 1, n, c =>
    let (indent, inner) := c.skipUpTo 4
    if 4 ≤ indent then (n, some c)
    else
      match itemMarker? indent inner, quoteSign? inner with
      | some (m, columns, inner), _ =>
        let n := (n.toList m.sign).push (.item columns)
        if inner.isBlank then ({ n with isFresh := true }, none) else openFrom steps n inner
      | none, some inner => openFrom steps (n.endList.push .quote) inner
      | none, none => (n, some c)

end Nesting

/-! ## Lines and their blocks -/

/-- **A block without others in it.** -/
inductive Leaf
  /-- A heading. -/
  | heading (text : List Char)
  /-- A paragraph, and the list that it stands in an item of. -/
  | paragraph (text : List Char) (list : Option ListId)
  /-- Code behind a fence: what stands behind the fence, and the code with its line ends. -/
  | fenced (info code : List Char)
  /-- Indented code with its line ends. -/
  | indented (code : List Char)
  /-- A line of markup. -/
  | markup (text : List Char)

/-- A block with the line that it begins on. -/
structure Block where
  /-- The number of the line. -/
  line : Nat
  /-- The block. -/
  leaf : Leaf

/-- A line with the columns of a tab that are left before it, and with its line end, which only the
last line of a text lacks. -/
def fullText (c : Cursor) (later : List Numbered) : List Char :=
  List.replicate c.pending ' ' ++ c.rest ++ if later.isEmpty then [] else ['\n']

/-! ### Where a paragraph ends -/

/-- Whether a table begins on a line: a header row with a row of dashes below it. -/
def beginsTable (pairs : Bool) (around : List Container) (s : List Char) (later : List Numbered) :
    Bool :=
  match headerColumns? pairs s, later with
  | some n, l :: _ => ((enterAll? l.text around).bind dashColumns?) == some n
  | _, _ => false

/-- Whether nothing follows a marker on its line, nor on the next one. -/
def isEmptyItem (rest : List Char) (later : List Numbered) : Bool :=
  rest.all isSpacing && later.head?.all (·.text.all isSpacing)

/-- Whether a list item ends a paragraph. In the containers of the paragraph, an item has to begin
with a bullet or with the number one, and not be empty. -/
def itemInterrupts (belongs : Bool) (s : List Char) (later : List Numbered) : Bool :=
  match marker? s with
  | some (m, _, rest) =>
    !belongs || (m.number.all (· == 1) && !isEmptyItem rest later)
  | none => false

/-- Whether a line ends the paragraph before it, by what follows its indentation. -/
def interrupts (belongs : Bool) (s : List Char) (later : List Numbered) : Bool :=
  s.isEmpty || isRule s || (headingLevel? s).isSome || (fence? s).isSome || s.head? == some '>' ||
    itemInterrupts belongs s later ||
    match s with
    | '<' :: s => (markupEnding? s).isSome || isBlockTag s
    | _ => false

/-- How a line goes on with a paragraph. -/
inductive Continuation
  /-- The paragraph ends before it. -/
  | stop
  /-- It underlines the paragraph, which is a heading. -/
  | underline
  /-- It belongs to the paragraph. -/
  | text (s : List Char)

/-- **How a line goes on with a paragraph** in some containers. -/
def continuation (around : List Container) (l : Numbered) (later : List Numbered) : Continuation :=
  let (n, c) := enter (.ofLine l.text) around
  let belongs := n == around.length
  let (indent, c) := c.skipUpTo 4
  let s := c.rest
  if indent < 4 && belongs && isUnderline s then .underline
  else if indent < 4 && (interrupts belongs s later || (belongs && beginsTable false around s later))
  then .stop
  else
    let s := s.dropWhile isGap
    if s.isEmpty then .stop else .text s

/-- The further lines of a paragraph, and whether the next line underlines it. -/
def paragraphLines (around : List Container) : List Numbered → List (List Char) × Bool
  | [] => ([], false)
  | l :: ls =>
    match continuation around l ls with
    | .stop => ([], false)
    | .underline => ([], true)
    | .text s =>
      let (texts, underlined) := paragraphLines around ls
      (s :: texts, underlined)

/-- The lines that a definition can reach into. -/
def definitionLines (around : List Container) : List Numbered → List (List Char)
  | [] => []
  | l :: ls =>
    let (n, c) := enter (.ofLine l.text) around
    let (indent, c) := c.skipUpTo 4
    if c.isBlank || (indent < 4 && interrupts (n == around.length) c.rest ls) then []
    else c.rest :: definitionLines around ls

/-- A definition on a line and those behind it: its label, and the number of further lines. -/
def definitionOn? (around : List Container) (s : List Char) (later : List Numbered) :
    Option (Label × Nat) :=
  if s.head? != some '[' then none
  else
    let text := Text.joinLines (s :: definitionLines around later)
    (definition? text).map fun (label, rest) => (label, text.count '\n' - rest.count '\n')

/-! ### Blocks of several lines -/

/-- The further lines of indented code: with their line ends, and whether they are blank. -/
def indentedLines (around : List Container) : List Numbered → List (List Char × Bool)
  | [] => []
  | l :: ls =>
    match enterAll? l.text around with
    | none => []
    | some c =>
      let (missing, c) := c.skip 4
      if missing = 0 || c.isAtEnd then (fullText c ls, c.isBlank) :: indentedLines around ls else []

/-- The lines of code behind a fence, which has some indentation, and whether a line closes it. -/
def fencedLines (around : List Container) (indent : Nat) (sign : Char) (size : Nat) :
    List Numbered → List (List Char) × Bool
  | [] => ([], false)
  | l :: ls =>
    match enterAll? l.text around with
    | none => ([], false)
    | some c =>
      let (_, c) := c.skipUpTo indent
      let (missing, close) := c.skip (4 - indent)
      if 0 < missing && closesFence sign size close.rest then ([], true)
      else
        let (code, closed) := fencedLines around indent sign size ls
        (fullText c ls :: code, closed)

/-- The further lines of markup: up to a blank line, or up to one that holds its ending. -/
def markupLines (around : List Container) (ending : Option (List Char)) :
    List Numbered → List Numbered
  | [] => []
  | l :: ls =>
    match enterAll? l.text around with
    | none => []
    | some c =>
      match ending with
      | none => if c.isBlank then [] else ⟨l.number, c.rest⟩ :: markupLines around ending ls
      | some e =>
        ⟨l.number, c.rest⟩ ::
          if Text.contains c.rest e then [] else markupLines around ending ls

/-- The number of rows of a table. -/
def tableRows (around : List Container) : List Numbered → Nat
  | [] => 0
  | l :: ls =>
    match enterAll? l.text around with
    | none => 0
    | some c =>
      let s := c.rest.dropWhile isGap
      if interrupts true s ls || (marker? s).isSome then 0 else tableRows around ls + 1

/-! ### All blocks -/

/-- **What has been read.** -/
structure Blocks where
  /-- The open containers. -/
  nesting : Nesting
  /-- The labels that are defined. -/
  labels : List Label
  /-- The blocks, the last one first. -/
  found : List Block

namespace Blocks

/-- Nothing. -/
def empty : Blocks := ⟨.empty, [], []⟩

/-- Adds a block. -/
def add (b : Blocks) (line : Nat) (leaf : Leaf) : Blocks := { b with found := ⟨line, leaf⟩ :: b.found }

/-- Reads indented code on a line and those behind it. -/
def addIndented (b : Blocks) (line : Nat) (c : Cursor) (later : List Numbered) : Blocks × Nat :=
  let further := indentedLines b.nesting.around later
  let shown := (further.reverse.dropWhile Prod.snd).reverse
  let code := (fullText c later :: shown.map Prod.fst).flatten
  let afterBlank := further.getLast?.any Prod.snd
  ({ b.add line (.indented code) with nesting := { b.nesting with afterBlank } }, further.length)

/-- Reads markup on a line and those behind it. -/
def addMarkup (b : Blocks) (line : Nat) (s : List Char) (ending : Option (List Char))
    (later : List Numbered) : Blocks × Nat :=
  let further :=
    if ending.any (Text.contains s) then [] else markupLines b.nesting.around ending later
  ((⟨line, s⟩ :: further).foldl (fun b l => b.add l.number (.markup l.text)) b, further.length)

/-- Reads code behind a fence on a line and those behind it. -/
def addFenced (b : Blocks) (line indent : Nat) (sign : Char) (size : Nat) (s : List Char)
    (later : List Numbered) : Blocks × Nat :=
  let info := unescape (Text.dropEndWhile isSpacing ((s.drop size).dropWhile isSpacing))
  let (code, closed) := fencedLines b.nesting.around indent sign size later
  (b.add line (.fenced info code.flatten), code.length + if closed then 1 else 0)

/-- Reads a paragraph, or a heading that is underlined, on a line and those behind it. -/
def addParagraph (b : Blocks) (line : Nat) (s : List Char) (later : List Numbered) : Blocks × Nat :=
  let (further, underlined) := paragraphLines b.nesting.around later
  let text := Text.dropEndWhile isSpacing (Text.joinLines (s :: further))
  if underlined then (b.add line (.heading text), further.length + 1)
  else (b.add line (.paragraph text b.nesting.list?), further.length)

/-- Reads the block that begins on a line behind its containers; the number of further lines that
belong to it. -/
def readLeaf (b : Blocks) (line : Nat) (c : Cursor) (later : List Numbered) : Blocks × Nat :=
  let (indent, inner) := c.skipUpTo 4
  let s := inner.rest
  if 4 ≤ indent then b.addIndented line inner later
  else
    let ending := if s.head? == some '<' then markupEnding? (s.drop 1) else none
    if ending.isSome then b.addMarkup line s ending later
    else if s.head? == some '<' && (isBlockTag (s.drop 1) || isLoneTag (s.drop 1)) then
      b.addMarkup line s none later
    else if isRule s then (b, 0)
    else
      match headingLevel? s, fence? s, definitionOn? b.nesting.around s later with
      | some level, _, _ => (b.add line (.heading (headingText level s)), 0)
      | none, some (sign, size), _ => b.addFenced line indent sign size s later
      | none, none, some (label, n) => ({ b with labels := label :: b.labels }, n)
      | none, none, none =>
        if beginsTable true b.nesting.around s later then
          (b, tableRows b.nesting.around (later.drop 1) + 1)
        else b.addParagraph line s later

/-- Reads what begins on a line; the number of further lines that belong to it. -/
def readLine (b : Blocks) (l : Numbered) (later : List Numbered) : Blocks × Nat :=
  let (n, c) := enter (.ofLine l.text) b.nesting.around
  let (nesting, rest?) := (b.nesting.keep n).openFrom (l.text.length + 1) c
  match rest? with
  | none => ({ b with nesting }, 0)
  | some c =>
    if c.isBlank then ({ b with nesting := nesting.blank }, 0)
    else readLeaf { b with nesting := nesting.endList } l.number c later

/-- Reads lines after so many. -/
def readFrom : Nat → List Numbered → Blocks → Blocks
  | _, [], b => b
  | skip + 1, _ :: ls, b => readFrom skip ls b
  | 0, l :: ls, b =>
    let (b, n) := b.readLine l ls
    readFrom n ls b

/-- Whether a block shows: paragraphs in items of tight lists do not. -/
def shows (b : Blocks) : Leaf → Bool
  | .paragraph _ (some id) => b.nesting.loose.contains id
  | _ => true

/-- The blocks that show, in order. -/
def shown (b : Blocks) : List Block := (b.found.filter fun block => b.shows block.leaf).reverse

end Blocks

/-- **Reads the blocks** of lines. -/
def blocks (lines : List Numbered) : Blocks := Blocks.readFrom 0 lines .empty

end Transcript.Markdown
