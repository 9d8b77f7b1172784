import Transcript.Decimal.Basic

/-!
# Tokens of the session language

Words with a meaning of their own, symbols, literals, and the layout tokens that tell where lines
end and blocks open and close.

Results:
* `Keyword.ofText?_text`, `Symbol.ofText?_text`: words and symbols are read back from their texts.
-/

namespace Transcript.Lang

/-- Words that name no variable. -/
inductive Keyword
  | false | none | true | and | as | assert | async | await | break | continue | define | del | elif
  | else | except | finally | for | global | if | import | in | is | not | or | pass | raise
  | return | try | while
  deriving DecidableEq, Repr

namespace Keyword

/-- All keywords. -/
def all : List Keyword :=
  [.false, .none, .true, .and, .as, .assert, .async, .await, .break, .continue, .define, .del, .elif,
    .else, .except, .finally, .for, .global, .if, .import, .in, .is, .not, .or, .pass, .raise,
    .return, .try, .while]

/-- The spelling of a keyword. -/
def text : Keyword → String
  | .false => "False"
  | .none => "None"
  | .true => "True"
  | .and => "and"
  | .as => "as"
  | .assert => "assert"
  | .async => "async"
  | .await => "await"
  | .break => "break"
  | .continue => "continue"
  | .define => "def"
  | .del => "del"
  | .elif => "elif"
  | .else => "else"
  | .except => "except"
  | .finally => "finally"
  | .for => "for"
  | .global => "global"
  | .if => "if"
  | .import => "import"
  | .in => "in"
  | .is => "is"
  | .not => "not"
  | .or => "or"
  | .pass => "pass"
  | .raise => "raise"
  | .return => "return"
  | .try => "try"
  | .while => "while"

/-- The keyword of a spelling. -/
def ofText? (s : String) : Option Keyword := all.find? (·.text == s)

theorem ofText?_text (k : Keyword) : ofText? k.text = some k := by cases k <;> rfl

end Keyword

/-- Operators and delimiters. -/
inductive Symbol
  | plus | minus | star | power | slash | floorDiv | percent
  | equal | notEqual | less | lessEqual | greater | greaterEqual
  | assign | plusAssign | minusAssign | starAssign | slashAssign | floorDivAssign | percentAssign
  | openParen | closeParen | openBracket | closeBracket | openBrace | closeBrace
  | comma | colon | dot | semicolon | arrow
  deriving DecidableEq, Repr

namespace Symbol

/-- All symbols. -/
def all : List Symbol :=
  [.plus, .minus, .star, .power, .slash, .floorDiv, .percent, .equal, .notEqual, .less, .lessEqual,
    .greater, .greaterEqual, .assign, .plusAssign, .minusAssign, .starAssign, .slashAssign,
    .floorDivAssign, .percentAssign, .openParen, .closeParen, .openBracket, .closeBracket,
    .openBrace, .closeBrace, .comma, .colon, .dot, .semicolon, .arrow]

/-- The spelling of a symbol. -/
def text : Symbol → List Char
  | .plus => ['+']
  | .minus => ['-']
  | .star => ['*']
  | .power => ['*', '*']
  | .slash => ['/']
  | .floorDiv => ['/', '/']
  | .percent => ['%']
  | .equal => ['=', '=']
  | .notEqual => ['!', '=']
  | .less => ['<']
  | .lessEqual => ['<', '=']
  | .greater => ['>']
  | .greaterEqual => ['>', '=']
  | .assign => ['=']
  | .plusAssign => ['+', '=']
  | .minusAssign => ['-', '=']
  | .starAssign => ['*', '=']
  | .slashAssign => ['/', '=']
  | .floorDivAssign => ['/', '/', '=']
  | .percentAssign => ['%', '=']
  | .openParen => ['(']
  | .closeParen => [')']
  | .openBracket => ['[']
  | .closeBracket => [']']
  | .openBrace => ['\x7b']
  | .closeBrace => ['\x7d']
  | .comma => [',']
  | .colon => [':']
  | .dot => ['.']
  | .semicolon => [';']
  | .arrow => ['-', '>']

/-- The symbol of a spelling. -/
def ofText? (s : List Char) : Option Symbol := all.find? (·.text == s)

/-- The longest symbol that starts a text. -/
def scan? (s : List Char) : Option Symbol :=
  (ofText? (s.take 3)).or ((ofText? (s.take 2)).or (ofText? (s.take 1)))

/-- Whether a symbol opens a bracket. -/
def opens : Symbol → Bool
  | .openParen | .openBracket | .openBrace => true
  | _ => false

/-- Whether a symbol closes a bracket. -/
def closes : Symbol → Bool
  | .closeParen | .closeBracket | .closeBrace => true
  | _ => false

theorem ofText?_text (s : Symbol) : ofText? s.text = some s := by cases s <;> rfl

end Symbol

/-- **A token.** -/
inductive Token
  /-- A name. -/
  | name (text : String)
  /-- An integer literal. -/
  | int (value : Int64)
  /-- A floating point literal, as the decimal that it writes. -/
  | float (value : Decimal)
  /-- A text literal. -/
  | str (value : List Char)
  /-- A bytes literal. -/
  | bytes (value : List UInt8)
  /-- A keyword. -/
  | keyword (k : Keyword)
  /-- An operator or delimiter. -/
  | symbol (s : Symbol)
  /-- The end of a logical line. -/
  | newline
  /-- A deeper block opens. -/
  | indent
  /-- A block closes. -/
  | dedent
  /-- The end of the source. -/
  | eof
  deriving DecidableEq, Repr

/-- A token with its place in the source. -/
structure Placed where
  /-- The token. -/
  token : Token
  /-- The byte offset of its beginning. -/
  start : Nat
  /-- The byte offset of its end. -/
  stop : Nat
  /-- The physical line of its beginning, counted from one. -/
  line : Nat
  deriving DecidableEq, Repr

/-- **Why a source does not fall into tokens.** -/
inductive LexProblem
  /-- A quote is not closed on its line. -/
  | unterminatedString
  /-- A character that starts no token. -/
  | strayCharacter
  /-- A number that is out of range or has no digits. -/
  | badNumber
  /-- A bytes literal with a character outside ASCII. -/
  | bytesNotAscii
  /-- A hexadecimal escape without its digits. -/
  | badEscape
  /-- A line that returns to no block around it. -/
  | badDedent
  deriving DecidableEq, Repr

/-- The wording of a problem. -/
def LexProblem.message : LexProblem → String
  | .unterminatedString => "unterminated string literal"
  | .strayCharacter => "invalid syntax"
  | .badNumber => "invalid decimal literal"
  | .bytesNotAscii => "bytes can only contain ASCII literal characters"
  | .badEscape => "truncated \\xXX escape"
  | .badDedent => "unindent does not match any outer indentation level"

end Transcript.Lang
