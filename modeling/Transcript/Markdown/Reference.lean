import Transcript.Markdown.Cursor
import Transcript.Markdown.Table.CharacterName
import Transcript.Text.Search

/-!
# Characters written by reference

A character can be written by its name or its number between an ampersand and a semicolon, and a
sign loses its meaning behind a backslash.
-/

namespace Transcript.Markdown

/-- Whether a character is one of the signs of ASCII. -/
def isSign (c : Char) : Bool :=
  let n := c.toNat
  (33 ≤ n && n ≤ 47) || (58 ≤ n && n ≤ 64) || (91 ≤ n && n ≤ 96) || (123 ≤ n && n ≤ 126)

/-- The value of a hexadecimal digit. -/
def hexDigit? (c : Char) : Option Nat :=
  let n := c.toLower.toNat
  if c.isDigit then some (c.toNat - 48)
  else if 97 ≤ n && n ≤ 102 then some (n - 87)
  else none

/-- The number that digits of some base write. -/
def numeral (base : Nat) (digits : List Char) : Nat :=
  digits.foldl (fun n c => base * n + (hexDigit? c).getD 0) 0

/-- The character with a number; zero stands for the replacement character. -/
def numbered? (n : Nat) : Option Char :=
  if n = 0 then some '\ufffd' else if n.isValidChar then some (Char.ofNat n) else none

/-- Entry of the table of names: the name, and the text it stands for. -/
def entryOf (word : List Char) : List Char × List Char :=
  match Text.splitAt? ['='] word with
  | some (name, codes) =>
    (name, (Text.splitOn [','] codes).map fun digits => Char.ofNat (numeral 16 digits))
  | none => (word, [])

/-- The text that a name stands for. -/
def named? (name : List Char) : Option (List Char) :=
  Table.characterNames.findSome? fun line =>
    (Text.words line.toList).findSome? fun word =>
      let (key, text) := entryOf word
      if key = name then some text else none

/-- A reference by number, by what follows its sign: the text and the length. -/
def numericReference? (s : List Char) : Option (List Char × Nat) :=
  let finish (base before : Nat) (digits rest : List Char) : Option (List Char × Nat) :=
    if digits.isEmpty || rest.head? != some ';' then none
    else (numbered? (numeral base digits)).map fun c => ([c], before + digits.length + 1)
  let digitsOf (p : Char → Bool) (most : Nat) (s : List Char) : List Char := (s.take most).takeWhile p
  match s with
  | c :: cs =>
    if c == 'x' || c == 'X' then
      let digits := digitsOf (fun c => (hexDigit? c).isSome) 6 cs
      finish 16 1 digits (cs.drop digits.length)
    else
      let digits := digitsOf Char.isDigit 7 s
      finish 10 0 digits (s.drop digits.length)
  | [] => none

/-- **A reference to a character**, by what follows the ampersand: the text that it stands for, and
its length. -/
def reference? (s : List Char) : Option (List Char × Nat) :=
  match s with
  | '#' :: s => (numericReference? s).map fun (text, n) => (text, n + 1)
  | _ =>
    let name := s.takeWhile Char.isAlphanum
    if (s.drop name.length).head? == some ';' then (named? name).map fun text => (text, name.length + 1)
    else none

/-- A text after so many characters, without backslashes before signs and with references
replaced. -/
def unescapeAfter : Nat → List Char → List Char
  | _, [] => []
  | skip + 1, _ :: cs => unescapeAfter skip cs
  | 0, c :: cs =>
    if c == '\\' && cs.head?.any isSign then cs.take 1 ++ unescapeAfter 1 cs
    else if c == '&' then
      match reference? cs with
      | some (text, n) => text ++ unescapeAfter n cs
      | none => c :: unescapeAfter 0 cs
    else c :: unescapeAfter 0 cs

/-- **The text that is meant.** -/
def unescape (s : List Char) : List Char := unescapeAfter 0 s

end Transcript.Markdown
