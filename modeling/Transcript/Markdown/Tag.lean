import Transcript.Markdown.Marker

/-!
# Tags

Markup inside of text: tags of elements, comments, instructions, declarations and raw data. A
function takes the text behind the opening sign and gives the text behind the closing one.
-/

namespace Transcript.Markdown

/-- Whether a character can begin the name of an attribute. -/
def beginsAttribute (c : Char) : Bool := c.isAlpha || c == '_' || c == ':'

/-- Whether a character can stand in the name of an attribute. -/
def isAttributeChar (c : Char) : Bool := c.isAlphanum || ['_', '.', ':', '-'].contains c

/-- The name of an element; the rest. -/
def tagName? (s : List Char) : Option (List Char) :=
  match s with
  | c :: cs => if c.isAlpha then some (cs.dropWhile fun c => c.isAlphanum || c == '-') else none
  | [] => none

/-- Skips blanks; line feeds count only where they are allowed. -/
def skipBlanks (feeds : Bool) (s : List Char) : List Char :=
  s.dropWhile fun c => isSpacing c || (feeds && c == '\n')

/-- A value of an attribute in quotes, by what follows the opening quote. -/
def quotedValue? (feeds : Bool) (quote : Char) (s : List Char) : Option (List Char) :=
  match s.dropWhile fun c => c != quote && (feeds || c != '\n') with
  | c :: rest => if c == quote then some rest else none
  | [] => none

/-- The value of an attribute. -/
def attributeValue? (feeds : Bool) (s : List Char) : Option (List Char) :=
  match s with
  | '"' :: rest => quotedValue? feeds '"' rest
  | '\'' :: rest => quotedValue? feeds '\'' rest
  | _ =>
    let rest := s.dropWhile fun c =>
      !(Text.isBlank c || ['"', '\'', '=', '<', '>', backtick].contains c)
    if rest.length < s.length then some rest else none

/-- An attribute, by the text that begins with its name. -/
def attribute? (feeds : Bool) (s : List Char) : Option (List Char) :=
  match s with
  | c :: cs =>
    if beginsAttribute c then
      let rest := cs.dropWhile isAttributeChar
      match skipBlanks feeds rest with
      | '=' :: value => attributeValue? feeds (skipBlanks feeds value)
      | _ => some rest
    else none
  | [] => none

/-- The attributes and the end of a tag. Blanks stand before every attribute. -/
def tagEnd? (feeds : Bool) : Nat → List Char → Option (List Char)
  | 0, _ => none
  | n + 1, s =>
    let rest := skipBlanks feeds s
    match rest with
    | '>' :: after | '/' :: '>' :: after => some after
    | _ => if rest.length < s.length then (attribute? feeds rest).bind (tagEnd? feeds n) else none

/-- **A tag** of an element. -/
def tag? (feeds : Bool) (s : List Char) : Option (List Char) :=
  match s with
  | '/' :: s =>
    (tagName? s).bind fun rest => Text.afterBegin? ['>'] (skipBlanks feeds rest)
  | s => (tagName? s).bind fun rest => tagEnd? feeds s.length rest

/-- The text behind an ending. -/
def afterEnding? (ending s : List Char) : Option (List Char) :=
  (Text.splitAt? ending s).map Prod.snd

/-- **Markup inside of text.** -/
def inlineMarkup? (s : List Char) : Option (List Char) :=
  match s with
  | '!' :: '-' :: '-' :: s =>
    match s with
    | '>' :: rest | '-' :: '>' :: rest => some rest
    | _ => afterEnding? ['-', '-', '>'] s
  | '?' :: s => afterEnding? ['?', '>'] s
  | '!' :: s =>
    match Text.afterBegin? "[CDATA[".toList s with
    | some s => afterEnding? [']', ']', '>'] s
    | none => if s.head?.any Char.isAlpha then afterEnding? ['>'] s else none
  | s => tag? true s

/-- Whether a line is one tag of an element and nothing else, by what follows its first sign. -/
def isLoneTag (s : List Char) : Bool := (tag? false s).any (·.all isSpacing)

/-- Whether a character can stand in the scheme of an address. -/
def isSchemeChar (c : Char) : Bool := c.isAlphanum || ['+', '-', '.'].contains c

/-- Whether a text is an address: a scheme of 2 to 32 characters, a colon, and neither blanks nor
angle brackets. -/
def isAddress (s : List Char) : Bool :=
  let scheme := s.takeWhile isSchemeChar
  let rest := s.drop scheme.length
  scheme.head?.any Char.isAlpha && 2 ≤ scheme.length && scheme.length ≤ 32 &&
    rest.head? == some ':' && rest.all fun c => 32 < c.toNat && c != '<' && c != '>'

/-- Whether a text is a part of a domain name. -/
def isDomainPart (s : List Char) : Bool :=
  1 ≤ s.length && s.length ≤ 63 && s.all (fun c => c.isAlphanum || c == '-') &&
    s.head? != some '-' && s.getLast? != some '-'

/-- Whether a text is an electronic mail address. -/
def isMailAddress (s : List Char) : Bool :=
  let user := s.takeWhile fun c =>
    c.isAlphanum || (".!#$%&'*+/=?^_\x7b|\x7d~-".toList ++ [backtick]).contains c
  let rest := s.drop user.length
  !user.isEmpty && rest.head? == some '@' && (Text.splitOn ['.'] (rest.drop 1)).all isDomainPart

/-- **An address between angle brackets**, by the text behind the first one; the address and the
rest. -/
def autolink? (s : List Char) : Option (List Char × List Char) := do
  let (address, rest) ← Text.splitAt? ['>'] s
  if isAddress address || isMailAddress address then some (address, rest) else none

end Transcript.Markdown
