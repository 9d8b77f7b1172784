import Transcript.Doc.Directive
import Transcript.Markdown.Block
import Transcript.Markdown.Inline
import Transcript.Rst.Reader

/-!
# Reading Markdown

Directives stand between fences of colons or behind fences of code; all other blocks become nodes.
The body of a directive that holds a part of the document is read in the same way, with less text
at each level.
-/

namespace Transcript.Markdown

open Doc

/-! ### Directives -/

/-- Whether a line opens or closes the options at the beginning of a body. -/
def isMatterFence (s : List Char) : Bool := Text.trim s == ['-', '-', '-']

/-- A key and a value with a colon between them. -/
def matterEntry? (s : List Char) : Option (String × List Char) :=
  (Text.splitAt? [':'] s).map fun (key, value) => (String.ofList (Text.trim key), Text.trim value)

/-- **The options at the beginning of a body** and the number of lines that they take: entries
between two fences, or lines that give an option each. -/
def bodyOptions (body : List (List Char)) : List (String × List Char) × Nat :=
  match body with
  | first :: rest =>
    if isMatterFence first then
      let entries := rest.takeWhile fun l => !isMatterFence l
      if entries.length = rest.length then ([], 0)
      else (entries.filterMap matterEntry?, entries.length + 2)
    else
      let lines := body.takeWhile fun l => (optionLine? l).isSome
      (lines.filterMap optionLine?, lines.length)
  | [] => ([], 0)

/-- The invocation that a name, an argument and a body make, which begins on the line after that
of the name. -/
def invocationOf (name argument : List Char) (body : List (List Char)) (line : Nat) : Invocation :=
  let (options, taken) := bodyOptions body
  let rest := body.drop taken
  let content := rest.dropWhile Text.allBlank
  let shown := (content.reverse.dropWhile Text.allBlank).reverse
  { name := String.ofList name
    argument := if argument.isEmpty then none else some argument
    options
    content := Text.joinLines shown
    line
    contentLine := line + 1 + taken + (rest.length - content.length) }

/-- The name and the argument of a directive behind a fence of code. -/
def directiveInfo? (info : List Char) : Option (List Char × List Char) := do
  let rest ← Text.afterBegin? ['\x7b'] (Text.trim info)
  let (name, argument) ← Text.splitAt? ['\x7d'] rest
  if name.isEmpty || name.any Text.isBlank then none else some (name, Text.trim argument)

/-! ### Nodes -/

/-- A text without any number of repetitions of its beginning, at most so many. -/
def dropRepeated (beginning : List Char) : Nat → List Char → List Char
  | 0, s => s
  | n + 1, s =>
    match Text.afterBegin? beginning s with
    | some rest => dropRepeated beginning n rest
    | none => s

/-- The text of a comment that begins on a line of markup. -/
def commentText? (markup : List Char) : Option (List Char) :=
  let opening := ['<', '!', '-', '-']
  if (Text.afterBegin? opening (Text.trimStart markup)).isSome then
    let s := Text.trim markup
    let s := dropRepeated opening s.length s
    let s := (dropRepeated ['>', '-', '-'] s.length s.reverse).reverse
    some (Text.trim s)
  else none

/-- Code without its last line end. -/
def codeOf (code : List Char) : List Char :=
  if code.getLast? == some '\n' then code.dropLast else code

/-- What a block becomes: a node, or a directive. -/
inductive Part
  /-- A node. -/
  | node (n : Node)
  /-- A directive. -/
  | directive (inv : Invocation)

/-- **What a block becomes** at a line. -/
def partOf? (labels : List Label) (line : Nat) : Leaf → Option Part
  | .heading text => some (.node (.atLine .section (plainText labels text) line))
  | .paragraph text _ => some (.node (.atLine .paragraph (plainText labels text) line))
  | .markup text => (commentText? text).map fun s => .node (.atLine .comment s line)
  | .indented code => some (.node (.atLine .literalBlock (codeOf code) line))
  | .fenced info code =>
    let code := codeOf code
    match directiveInfo? info with
    | some (name, argument) => some (.directive (invocationOf name argument (Text.lines code) line))
    | none =>
      let n := Node.make .literalBlock code line (line + 1)
      let language := (Text.words info).head?.map String.ofList
      some (.node { n with attributes := { n.attributes with language } })

/-- The parts of plain Markdown. -/
def partsOf (lines : List Numbered) : List Part :=
  let b := blocks lines
  b.shown.filterMap fun block => partOf? b.labels block.line block.leaf

/-- **The parts of a chunk.** -/
def Chunk.parts : Chunk → List Part
  | .plain lines => partsOf lines
  | .directive name argument opening body _ =>
    [.directive (invocationOf name argument (body.map Numbered.text) opening.number)]

/-- The lines of a text, whose first one has the given number. -/
def numbered (text : List Char) (first : Nat) : List Numbered :=
  (Text.lines text).zipIdx.map fun (l, i) => ⟨first + i, l⟩

/-! ### Documents -/

/-- Reads a text into children of a node, with at most so many levels. -/
def readText (d : Directives) : Nat → NodeId → List Char → Nat → Building Unit
  | 0, _, _, _ => return
  | fuel + 1, parent, text, first => do
    for part in (chunks (numbered text first)).flatMap Chunk.parts do
      match part with
      | .node n => discard (Building.add parent n)
      | .directive inv =>
        match ← d.expand inv with
        | none => pure ()
        | some (.node n) => discard (Building.add parent n)
        | some (.nested format content contentLine line) =>
          let id ← Building.add parent (.atLine .container [] line)
          match format with
          | some .rst => Rst.readInto d id content contentLine
          | _ => readText d fuel id content contentLine

/-- **Reads a text**, whose first line has the given number, into children of a node. -/
def readInto (d : Directives) (parent : NodeId) (text : List Char) (first : Nat) : Building Unit :=
  readText d (text.length + 1) parent text first

end Transcript.Markdown
