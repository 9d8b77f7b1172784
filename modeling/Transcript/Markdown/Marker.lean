import Transcript.Markdown.Cursor
import Transcript.Text.Character

/-!
# How blocks begin

The beginnings of lines that make them more than text: rules, headings, code fences, list items,
blocks of markup, and the rows of tables.
-/

namespace Transcript.Markdown

/-- Whether a line is a rule: at least three times the same sign, with gaps anywhere. -/
def isRule (s : List Char) : Bool :=
  match s with
  | c :: _ =>
    ['*', '-', '_'].contains c && s.all (fun d => d == c || isGap d) && 3 ≤ s.count c
  | [] => false

/-- The level of a heading that begins with number signs. -/
def headingLevel? (s : List Char) : Option Nat :=
  let n := runLength '#' s
  let rest := s.drop n
  if 1 ≤ n && n ≤ 6 && rest.head?.all isSpacing then some n else none

/-- The text of a heading that begins with number signs, without those at its end. -/
def headingText (level : Nat) (s : List Char) : List Char :=
  let text := Text.dropEndWhile (· == ' ') ((s.drop level).dropWhile isSpacing)
  let bare := Text.dropEndWhile (· == '#') text
  if bare.isEmpty then []
  else if bare.getLast? == some ' ' then Text.dropEndWhile (· == ' ') bare
  else text

/-- Whether a line underlines the text before it as a heading. -/
def isUnderline (s : List Char) : Bool :=
  match s with
  | c :: _ => (c == '=' || c == '-') && (s.dropWhile (· == c)).all isSpacing
  | [] => false

/-- The sign and the length of a fence that opens code. Behind backticks there are no more of
them. -/
def fence? (s : List Char) : Option (Char × Nat) :=
  match s with
  | c :: _ =>
    let n := runLength c s
    if (c == backtick || c == '~') && 3 ≤ n && (c == '~' || !(s.drop n).contains c) then some (c, n)
    else none
  | [] => none

/-- Whether a line closes a fence. -/
def closesFence (c : Char) (n : Nat) (s : List Char) : Bool :=
  n ≤ runLength c s && (s.dropWhile (· == c)).all (· == ' ')

/-! ### List items -/

/-- The marker of a list item: its sign, and the number before it. -/
structure ItemMarker where
  /-- The bullet, or the sign after the number. -/
  sign : Char
  /-- The number; nothing for bullets. -/
  number : Option Nat

/-- A marker and the text behind it, which is empty or begins with a gap. -/
def marker? (s : List Char) : Option (ItemMarker × Nat × List Char) :=
  let found : Option (ItemMarker × Nat × List Char) :=
    match s with
    | [] => none
    | c :: rest =>
      if ['-', '+', '*'].contains c then some (⟨c, none⟩, 1, rest)
      else
        let digits := s.takeWhile Char.isDigit
        match s.drop digits.length with
        | d :: rest =>
          if 1 ≤ digits.length && digits.length ≤ 9 && (d == '.' || d == ')') then
            some (⟨d, (String.ofList digits).toNat?⟩, digits.length + 1, rest)
          else none
        | [] => none
  found.filter fun (_, _, rest) => rest.head?.all isGap

/-- **The marker of a list item** behind some columns of indentation, the columns that the text of
the item is indented by, and the place behind the marker. A rule is no list item. -/
def itemMarker? (indent : Nat) (c : Cursor) : Option (ItemMarker × Nat × Cursor) :=
  match marker? c.rest with
  | none => none
  | some (m, width, rest) =>
    if m.number.isNone && isRule c.rest then none
    else
      let (_, c) := (⟨rest, c.column + width, 0⟩ : Cursor).skip 1
      let indent := indent + width + 1
      if c.isBlank then some (m, indent, c)
      else
        let (n, c') := c.skipUpTo 4
        if n < 4 then some (m, indent + n, c') else some (m, indent, c)

/-! ### Blocks of markup -/

/-- The tags of elements that begin a block. -/
def blockTags : List String :=
  ["address", "article", "aside", "base", "basefont", "blockquote", "body", "caption", "center",
    "col", "colgroup", "dd", "details", "dialog", "dir", "div", "dl", "dt", "fieldset",
    "figcaption", "figure", "footer", "form", "frame", "frameset", "h1", "h2", "h3", "h4", "h5",
    "h6", "head", "header", "hr", "html", "iframe", "legend", "li", "link", "main", "menu",
    "menuitem", "nav", "noframes", "ol", "optgroup", "option", "p", "param", "search", "section",
    "summary", "table", "tbody", "td", "tfoot", "th", "thead", "title", "tr", "track", "ul"]

/-- Whether a text begins with a word, whatever the case of its letters; the rest. -/
def afterWord? (word : String) (s : List Char) : Option (List Char) :=
  let n := word.length
  if (s.take n).map Char.toLower == word.toList then some (s.drop n) else none

/-- The text that ends a block of markup which may hold blank lines, by what follows its first
sign. -/
def markupEnding? (s : List Char) : Option (List Char) :=
  let element := ["pre", "style", "script", "textarea"].find? fun tag =>
    (afterWord? tag s).any fun rest =>
      rest.head?.all fun c => isSpacing c || c == '>'
  match element with
  | some tag => some ("</" ++ tag ++ ">").toList
  | none =>
    if (Text.afterBegin? ['!', '-', '-'] s).isSome then some ['-', '-', '>']
    else if s.head? == some '?' then some ['?', '>']
    else if (Text.afterBegin? "![CDATA[".toList s).isSome then some [']', ']', '>']
    else
      match s with
      | '!' :: c :: _ => if c.isAlpha then some ['>'] else none
      | _ => none

/-- Whether a tag of a block element follows the first sign of a line. -/
def isBlockTag (s : List Char) : Bool :=
  let s := if s.head? == some '/' then s.drop 1 else s
  let name := s.takeWhile Char.isAlphanum
  let rest := s.drop name.length
  blockTags.contains (String.ofList (name.map Char.toLower)) &&
    (rest.head?.all (fun c => isGap c || c == '>') || (Text.afterBegin? ['/', '>'] rest).isSome)

/-! ### Tables -/

/-- The texts behind the bars of a line. A bar behind a backslash does not count; where backslashes
come in pairs, the second one of a pair hides nothing. -/
def afterBars (pairs : Bool) (hidden : Bool) : List Char → List (List Char)
  | [] => []
  | c :: cs =>
    if c == '|' && !hidden then cs :: afterBars pairs false cs
    else afterBars pairs (c == '\\' && !(pairs && hidden)) cs

/-- The number of columns of a header row; it needs a bar. -/
def headerColumns? (pairs : Bool) (s : List Char) : Option Nat :=
  let rests := afterBars pairs false s
  rests.getLast?.map fun last =>
    let bars := rests.length
    let inner := if (s.dropWhile isSpacing).head? == some '|' then bars - 1 else bars
    if last.all isSpacing then inner else inner + 1

/-- Whether a text can stand between the bars of a row of dashes. -/
def isDashes (s : List Char) : Bool := s.all fun c => c == '-' || c == ':' || c == ' '

/-- The number of columns of the row of dashes below a header row; it needs a bar, and dashes in
every column but the last, where colons do. -/
def dashColumns? (c : Cursor) : Option Nat :=
  let (n, c) := c.skipUpTo 4
  let s := c.rest
  if 3 < n || !s.contains '|' || !s.contains '-' then none
  else
    let s := if s.head? == some '|' then s.drop 1 else s
    let parts := Text.splitOn ['|'] s
    let closed := parts.dropLast
    if parts.all isDashes && closed.all (·.contains '-') then
      some (if (parts.getLast?.getD []).all (· == ' ') then closed.length else parts.length)
    else none

end Transcript.Markdown
