import Transcript.Text.Table.LetterCase
import Transcript.Text.Table.Shown
import Transcript.Text.Table.Word

/-!
# Classes of characters

What a text is made of, for any script: the characters of words and numbers, the letters with their capital
and small forms, and the characters that a message shows as they are.
-/

namespace Transcript.Text

/-! ## Word characters

The classes behind "a name", "a number" and "a word" in a text: decimal digits of any script, and
word characters (letters, marks, digits, connectors).
-/

/-- Whether a code point lies in one of the closed ranges. -/
def inRanges (table : List (Nat × Nat)) (n : Nat) : Bool :=
  table.any fun (first, last) => first ≤ n && n ≤ last

/-- **Decimal digit** of any script. -/
def isDecimal (c : Char) : Bool :=
  if c.toNat < 128 then c.isDigit else inRanges Table.decimals c.toNat

/-- **Word character** of any script. -/
def isWord (c : Char) : Bool :=
  if c.toNat < 128 then c.isAlphanum || c == '_' else inRanges Table.wordCharacters c.toNat

/-! ## Letter case of whole texts

Capital and small forms by the full Unicode mappings: one letter may become several, and a capital
sigma that ends a word takes the small form of a word's end.
-/

/-- The image of a code point under case runs `(first, last, step, distance)`. -/
def runImage? (runs : List (Nat × Nat × Nat × Int)) (n : Nat) : Option Char :=
  (runs.find? fun (first, last, step, _) => first ≤ n && n ≤ last && (n - first) % step == 0).map
    fun (_, _, _, distance) => Char.ofNat (n + distance).toNat

/-- The image of a character under the mappings to several characters, then the runs. -/
def caseImage (many : List (Nat × List Nat)) (runs : List (Nat × Nat × Nat × Int)) (c : Char) :
    List Char :=
  match many.lookup c.toNat with
  | some cs => cs.map Char.ofNat
  | none => [(runImage? runs c.toNat).getD c]

/-- The capital form of one character. -/
def upperChar (c : Char) : List Char :=
  if c.toNat < 128 then [c.toUpper] else caseImage Table.upperMany Table.upperRuns c

/-- The small form of one character, whatever stands beside it. -/
def lowerChar (c : Char) : List Char :=
  if c.toNat < 128 then [c.toLower] else caseImage Table.lowerMany Table.lowerRuns c

/-- A letter with a capital and a small form. -/
def isCased (c : Char) : Bool :=
  if c.toNat < 128 then c.isAlpha else inRanges Table.cased c.toNat

/-- A character that a search for a neighbouring cased letter skips. -/
def isCaseIgnorable (c : Char) : Bool :=
  if c.toNat < 128 then c == '\'' || c == '.' || c == ':' || c == '^' || c.toNat == 96
  else inRanges Table.caseIgnorable c.toNat

/-- Whether the first character that is not skipped is a cased letter. -/
def startsCased (s : List Char) : Bool :=
  match s.dropWhile isCaseIgnorable with
  | [] => false
  | c :: _ => isCased c

/-- The capital form of a text. -/
def upper (s : List Char) : List Char := s.flatMap upperChar

/-- The small form of a text that follows the (reversed) text `before`. -/
def lowerAfter (before : List Char) : List Char → List Char
  | [] => []
  | c :: cs =>
    (if c = 'Σ' then
      if startsCased before && !startsCased cs then ['ς'] else ['σ']
    else lowerChar c) ++ lowerAfter (c :: before) cs

/-- The small form of a text. -/
def lower (s : List Char) : List Char := lowerAfter [] s

/-! ## Quoted texts in messages

A message shows a piece of a document between double quotes, on one line: quotes and backslashes
are escaped, line ends and tabs have letters, and what has no picture is written by its number.
-/

/-- A character that a quoted text shows as it is, escapes of the notation itself apart. -/
def isShown (c : Char) : Bool :=
  if c.toNat < 128 then 32 ≤ c.toNat && c.toNat < 127
  else !inRanges Table.pictureless c.toNat && !inRanges Table.extenders c.toNat

/-- A number in small hexadecimal digits. -/
def hexDigits (n : Nat) : List Char := Nat.toDigits 16 n

/-- One character of a quoted text. -/
def quoteChar (c : Char) : List Char :=
  match c with
  | '"' => ['\\', '"']
  | '\\' => ['\\', '\\']
  | '\n' => ['\\', 'n']
  | '\r' => ['\\', 'r']
  | '\t' => ['\\', 't']
  | '\x00' => ['\\', '0']
  | c => if isShown c then [c] else ['\\', 'u', '\x7b'] ++ hexDigits c.toNat ++ ['\x7d']

/-- A text between double quotes. -/
def quoted (s : List Char) : String :=
  String.ofList ('"' :: (s.flatMap quoteChar ++ ['"']))

end Transcript.Text
