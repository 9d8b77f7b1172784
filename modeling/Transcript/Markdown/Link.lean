import Transcript.Markdown.Marker
import Transcript.Markdown.Reference

/-!
# Links

Where a link leads does not show in its text, but it decides how far the link reaches. Functions
take a text and give what follows the part that they read.
-/

namespace Transcript.Markdown

/-- A destination between angle brackets, by what follows the first one. The count tells how many
characters are still hidden. -/
def angleDestination? : Nat → List Char → Option (List Char)
  | _, [] => none
  | skip + 1, _ :: cs => angleDestination? skip cs
  | 0, c :: cs =>
    if c == '>' then some cs
    else if c == '\n' || c == '<' then none
    else angleDestination? (if c == '\\' && cs.head?.any isSign then 1 else 0) cs

/-- A destination without angle brackets: up to a blank or a control character, or up to a closing
parenthesis that was not opened in it. Only so many parentheses may be open at once. -/
def bareDestination? (most : Nat) : Nat → Nat → List Char → Option (List Char)
  | nest, _, [] => if nest = 0 then some [] else none
  | nest, skip + 1, _ :: cs => bareDestination? most nest skip cs
  | nest, 0, c :: cs =>
    if c.toNat ≤ 32 then if nest = 0 then some (c :: cs) else none
    else if c == '(' then if most < nest then none else bareDestination? most (nest + 1) 0 cs
    else if c == ')' then
      if nest = 0 then some (c :: cs) else bareDestination? most (nest - 1) 0 cs
    else bareDestination? most nest (if c == '\\' && cs.head?.any isSign then 1 else 0) cs

/-- **A destination.** -/
def destination? (most : Nat) (s : List Char) : Option (List Char) :=
  match s with
  | '<' :: s => angleDestination? 0 s
  | _ => bareDestination? most 0 0 s

/-- The rest of a title up to its closing sign. A sign that may not stand in it is given too. -/
def titleEnd? (closing : Char) (refused : Option Char) : Nat → List Char → Option (List Char)
  | _, [] => none
  | skip + 1, _ :: cs => titleEnd? closing refused skip cs
  | 0, c :: cs =>
    if c == closing then some cs
    else if refused == some c then none
    else titleEnd? closing refused (if c == '\\' && cs.head?.any isSign then 1 else 0) cs

/-- **A title:** between quotes or parentheses. Parentheses inside may be refused. -/
def title? (nested : Bool) (s : List Char) : Option (List Char) :=
  match s with
  | '"' :: s => titleEnd? '"' none 0 s
  | '\'' :: s => titleEnd? '\'' none 0 s
  | '(' :: s => titleEnd? ')' (if nested then none else some '(') 0 s
  | _ => none

/-- Skips spacing with at most one line end in it. -/
def skipSeparator (s : List Char) : List Char :=
  let s := s.dropWhile isSpacing
  match s with
  | '\n' :: s => s.dropWhile isSpacing
  | s => s

/-- **The target of a link** in parentheses: a destination and perhaps a title. -/
def target? (s : List Char) : Option (List Char) := do
  let s ← Text.afterBegin? ['('] s
  let s ← destination? 5 (skipSeparator s)
  let s := skipSeparator s
  let s := ((title? false s).map skipSeparator).getD s
  Text.afterBegin? [')'] s

/-! ### Labels -/

/-- Labels are compared in this form. -/
abbrev Label := List Char

/-- The text before the bracket that closes a label, without an opening one, and what follows. -/
def labelEnd? : Nat → List Char → Option (List Char × List Char)
  | _, [] => none
  | skip + 1, c :: cs => (labelEnd? skip cs).map fun (text, rest) => (c :: text, rest)
  | 0, c :: cs =>
    if c == ']' then some ([], cs)
    else if c == '[' then none
    else (labelEnd? (if c == '\\' then 1 else 0) cs).map fun (text, rest) => (c :: text, rest)

/-- Puts a space for every run of spacing and line ends. -/
def collapse (s : List Char) : List Char :=
  match s with
  | [] => []
  | c :: cs =>
    if isSpacing c || c == '\n' then
      if cs.head?.any fun d => isSpacing d || d == '\n' then collapse cs else ' ' :: collapse cs
    else c :: collapse cs

/-- The form of a text in which labels are compared: case does not count, nor does the amount of
spacing. -/
def Label.ofText (s : List Char) : Label := Text.lower (Text.upper (collapse s))

/-- **A label**, by what follows its opening bracket. It is not blank. -/
def label? (s : List Char) : Option (Label × List Char) :=
  (labelEnd? 0 s).bind fun (text, rest) =>
    if text.all fun c => isSpacing c || c == '\n' then none else some (.ofText text, rest)

/-! ### Definitions -/

/-- Whether nothing but spacing stands before the end of the line; the text from the line end on. -/
def restOfLine? (s : List Char) : Option (List Char) :=
  let s := s.dropWhile isSpacing
  if s.head?.all (· == '\n') then some s else none

/-- **A definition** of a label: the label, a colon, a destination, and perhaps a title. Nothing else
stands on its last line; the text goes on with the end of that line. -/
def definition? (s : List Char) : Option (Label × List Char) := do
  let s ← Text.afterBegin? ['['] s
  let (label, s) ← label? s
  let s ← Text.afterBegin? [':'] s
  let start := skipSeparator s
  let s ← destination? 1 start
  if s.length = start.length then none
  else
    let titled := do
      let t := skipSeparator s
      if t.length = s.length then none else (title? true t).bind restOfLine?
    (titled.or (restOfLine? s)).map fun rest => (label, rest)

end Transcript.Markdown
