import Transcript.Lang.Token
import Transcript.Text.Bytes

/-!
# From source to tokens

A source falls into lexemes, each the longest that fits; blanks, comments and joined lines between
them vanish. Indentation at the start of a logical line opens and closes blocks; inside brackets
line ends mean nothing.

Results:
* `runLength_le`: a run of characters lies within the text.
-/

namespace Transcript.Lang

/-- **A lexeme**, before layout. -/
inductive Lexeme
  /-- Blanks. -/
  | blanks
  /-- A comment up to the end of its line. -/
  | comment
  /-- A backslash that joins a line with the next one. -/
  | joint
  /-- A line end. -/
  | lineEnd
  /-- A name or keyword. -/
  | word
  /-- A number with a point or an exponent. -/
  | decimal
  /-- A whole number. -/
  | whole
  /-- A quoted literal with its prefix. -/
  | quoted
  /-- An operator or delimiter. -/
  | symbol (s : Symbol)
  deriving DecidableEq, Repr

/-- A blank inside a line. -/
def isInlineBlank (c : Char) : Bool := c == ' ' || c == '\t' || c == '\x0c'

/-- A character that may start a name. -/
def isNameStart (c : Char) : Bool := c.isAlpha || c == '_'

/-- A character that may go on in a name. -/
def isNamePart (c : Char) : Bool := c.isAlphanum || c == '_'

/-- A digit or the separator of digits. -/
def isDigitPart (c : Char) : Bool := c.isDigit || c == '_'

/-- The length of the run of characters that satisfy `p`. -/
def runLength (p : Char → Bool) (s : List Char) : Nat := (s.takeWhile p).length

/-- The length of an exponent, zero if there is none. -/
def exponentLength : List Char → Nat
  | e :: rest =>
    if e = 'e' || e = 'E' then
      match rest with
      | s :: digits =>
        if s = '+' || s = '-' then
          let n := runLength Char.isDigit digits
          if n = 0 then 0 else n + 2
        else
          let n := runLength Char.isDigit rest
          if n = 0 then 0 else n + 1
      | [] => 0
    else 0
  | [] => 0

/-- The length of digits in another base after the leading zero, zero if there are none. -/
def basedLength : List Char → Nat
  | b :: digits =>
    let n :=
      if b = 'x' || b = 'X' then
        runLength (fun c => c.isDigit || ('a' ≤ c && c ≤ 'f') || ('A' ≤ c && c ≤ 'F') || c == '_') digits
      else if b = 'o' || b = 'O' then runLength (fun c => ('0' ≤ c && c ≤ '7') || c == '_') digits
      else if b = 'b' || b = 'B' then runLength (fun c => c == '0' || c == '1' || c == '_') digits
      else 0
    if n = 0 then 0 else n + 1
  | [] => 0

/-- A number that starts with a digit, as the number of characters after it. -/
def scanNumber (first : Char) (rest : List Char) : Lexeme × Nat :=
  let based := if first = '0' then basedLength rest else 0
  if based ≠ 0 then (.whole, based)
  else
    let n := runLength isDigitPart rest
    match rest.drop n with
    | '.' :: after =>
      let m := runLength isDigitPart after
      (.decimal, n + 1 + m + exponentLength (after.drop m))
    | after =>
      let e := exponentLength after
      if e = 0 then (.whole, n) else (.decimal, n + e)

/-- The length of the rest of a quoted literal with its closing quote. A backslash takes the next
character with it; no literal goes over a line end. -/
def quotedLength? (quote : Char) : List Char → Option Nat
  | [] => none
  | c :: rest =>
    if c = quote then some 1
    else if c = '\n' then none
    else if c = '\\' then
      match rest with
      | [] => none
      | d :: rest' => if d = '\n' then none else (quotedLength? quote rest').map (· + 2)
    else (quotedLength? quote rest).map (· + 1)

/-- Whether a character quotes literals. -/
def isQuote (c : Char) : Bool := c == '\'' || c == '"'

/-- The prefixes of quoted literals, in small letters. -/
def literalPrefixes : List (List Char) := [[], ['u'], ['r'], ['b'], ['b', 'r'], ['r', 'b']]

/-- The length of a quoted literal with its prefix. -/
def literalLength? (s : List Char) : Option Nat :=
  let lead := (s.take 3).takeWhile (!isQuote ·)
  if literalPrefixes.contains (lead.map Char.toLower) then
    match s.drop lead.length with
    | q :: rest => (quotedLength? q rest).map (lead.length + 1 + ·)
    | [] => none
  else none

/-- The lexeme that starts a text, as the number of characters after the first. -/
def scan? : List Char → Option (Lexeme × Nat)
  | [] => none
  | c :: rest =>
    if isInlineBlank c then some (.blanks, runLength isInlineBlank rest)
    else if c = '#' then some (.comment, runLength (· != '\n') rest)
    else if c = '\n' then some (.lineEnd, 0)
    else if c = '\r' then
      match rest with
      | '\n' :: _ => some (.lineEnd, 1)
      | _ => none
    else if c = '\\' then
      match rest with
      | '\n' :: _ => some (.joint, 1)
      | '\r' :: '\n' :: _ => some (.joint, 2)
      | _ => none
    else
      match literalLength? (c :: rest) with
      | some n => some (.quoted, n - 1)
      | none =>
        if isNameStart c then some (.word, runLength isNamePart rest)
        else if c.isDigit then some (scanNumber c rest)
        else if c = '.' && rest.head?.any Char.isDigit then
          let n := runLength isDigitPart rest
          some (.decimal, n + exponentLength (rest.drop n))
        else (Symbol.scan? (c :: rest)).map fun s => (.symbol s, s.text.length - 1)

/-- The value of a digit in bases up to sixteen. -/
def digitOf (c : Char) : Nat :=
  if c.isDigit then c.toNat - 48 else if 'a' ≤ c && c ≤ 'f' then c.toNat - 87 else c.toNat - 55

/-- The number that digits write in a base, if there is a digit and it fits into 63 bits. -/
def readBased? (base : Nat) (digits : List Char) : Option Int64 :=
  let n := digits.foldl (fun n c => n * base + digitOf c) 0
  if digits.isEmpty || 0x8000000000000000 ≤ n then none else some (Int64.ofNat n)

/-- The value of a whole number. -/
def readWhole? (text : List Char) : Option Int64 :=
  match text.filter (· != '_') with
  | '0' :: b :: digits =>
    if b = 'x' || b = 'X' then readBased? 16 digits
    else if b = 'o' || b = 'O' then readBased? 8 digits
    else if b = 'b' || b = 'B' then readBased? 2 digits
    else readBased? 10 (b :: digits)
  | digits => readBased? 10 digits

/-- Whether a character is a hexadecimal digit. -/
def isHexDigit (c : Char) : Bool :=
  c.isDigit || ('a' ≤ c && c ≤ 'f') || ('A' ≤ c && c ≤ 'F')

/-- The character that the one or two characters of a hexadecimal escape denote. A plus sign may
stand in for a leading digit. -/
def hexEscape? : List Char → Option Char
  | [a] => if isHexDigit a then some (Char.ofNat (digitOf a)) else none
  | [a, b] =>
    if isHexDigit b then
      if isHexDigit a then some (Char.ofNat (16 * digitOf a + digitOf b))
      else if a = '+' then some (Char.ofNat (digitOf b))
      else none
    else none
  | _ => none

/-- The characters that the body of a literal denotes. A backslash before a character without a
meaning of its own stands for itself. -/
def unescape : List Char → Except LexProblem (List Char)
  | [] => .ok []
  | '\\' :: rest =>
    match rest with
    | [] => .ok ['\\']
    | 'n' :: s => (unescape s).map ('\n' :: ·)
    | 't' :: s => (unescape s).map ('\t' :: ·)
    | 'r' :: s => (unescape s).map ('\r' :: ·)
    | '0' :: s => (unescape s).map ('\x00' :: ·)
    | '\\' :: s => (unescape s).map ('\\' :: ·)
    | '\'' :: s => (unescape s).map ('\'' :: ·)
    | '"' :: s => (unescape s).map ('"' :: ·)
    | '\n' :: s => unescape s
    | 'x' :: s =>
      match s with
      | a :: b :: s =>
        match hexEscape? [a, b] with
        | some c => (unescape s).map (c :: ·)
        | none => .error .badEscape
      | [a] =>
        match hexEscape? [a] with
        | some c => .ok [c]
        | none => .error .badEscape
      | [] => .error .badEscape
    | c :: s => (unescape s).map ('\\' :: c :: ·)
  | c :: s => (unescape s).map (c :: ·)

/-- The token of a quoted literal. -/
def readQuoted (text : List Char) : Except LexProblem Token := do
  let lead := text.takeWhile (!isQuote ·)
  let letters := lead.map Char.toLower
  let body := (text.drop (lead.length + 1)).dropLast
  let value ← if letters.contains 'r' then .ok body else unescape body
  if letters.contains 'b' then
    if value.all (·.toNat < 128) then .ok (.bytes (value.map fun c => UInt8.ofNat c.toNat))
    else .error .bytesNotAscii
  else .ok (.str value)

/-- The token of a lexeme with its text; blanks and line ends have none here. -/
def Lexeme.token (l : Lexeme) (text : List Char) : Except LexProblem (Option Token) :=
  match l with
  | .blanks | .comment | .joint | .lineEnd => .ok none
  | .word =>
    let s := String.ofList text
    match Keyword.ofText? s with
    | some k => .ok (some (.keyword k))
    | none => .ok (some (.name s))
  | .decimal =>
    match Decimal.read? (text.filter (· != '_')) with
    | some d => .ok (some (.float d))
    | none => .error .badNumber
  | .whole =>
    match readWhole? text with
    | some n => .ok (some (.int n))
    | none => .error .badNumber
  | .quoted => (readQuoted text).map some
  | .symbol s => .ok (some (.symbol s))

/-- **The state between two lexemes.** -/
structure Layout where
  /-- The columns of the open blocks, the innermost first; the outermost is not listed. -/
  indents : List Nat
  /-- The number of open brackets. -/
  depth : Nat
  /-- Whether no token of the logical line has been read. -/
  atLineStart : Bool
  /-- The columns since the last line end. -/
  column : Nat
  /-- The byte offset. -/
  byte : Nat
  /-- The physical line, counted from one. -/
  line : Nat

/-- The state at the beginning of a source. -/
def Layout.start : Layout := ⟨[], 0, true, 0, 0, 1⟩

/-- The columns that blanks take: a tab takes eight. -/
def columns (text : List Char) : Nat := text.foldl (fun n c => n + if c = '\t' then 8 else 1) 0

/-- The column of the innermost open block. -/
def Layout.current (st : Layout) : Nat := st.indents.head?.getD 0

/-- A token of no length at the current place. -/
def Layout.mark (st : Layout) (t : Token) : Placed := ⟨t, st.byte, st.byte, st.line⟩

/-- The blocks that stay open at a column, and how many close. -/
def closeBlocks (column : Nat) : List Nat → List Nat × Nat
  | [] => ([], 0)
  | i :: rest => if column < i then ((closeBlocks column rest).1, (closeBlocks column rest).2 + 1) else (i :: rest, 0)

/-- The layout tokens before the first token of a logical line. -/
def Layout.open (st : Layout) : Except LexProblem (Layout × List Placed) :=
  if !(st.atLineStart && st.depth == 0) then .ok (st, [])
  else if st.current < st.column then
    .ok ({ st with indents := st.column :: st.indents, atLineStart := false }, [st.mark .indent])
  else
    let (left, closed) := closeBlocks st.column st.indents
    if left.head?.getD 0 = st.column then
      .ok ({ st with indents := left, atLineStart := false }, List.replicate closed (st.mark .dedent))
    else .error .badDedent

/-- The state after a text with the columns it takes. -/
def Layout.pass (st : Layout) (text : List Char) : Layout :=
  { st with
    column := st.column + columns text
    byte := st.byte + Text.byteLength text
    line := st.line + text.count '\n' }

/-- The state after a line end. -/
def Layout.passLineEnd (st : Layout) (text : List Char) : Layout :=
  { st.pass text with column := 0 }

/-- The number of open brackets after a token. -/
def Layout.nest (st : Layout) : Lexeme → Layout
  | .symbol s =>
    if s.opens then { st with depth := st.depth + 1 }
    else if s.closes then { st with depth := st.depth - 1 }
    else st
  | _ => st

/-- One lexeme: the tokens it gives and the state after it. -/
def Layout.advance (st : Layout) (l : Lexeme) (text : List Char) :
    Except LexProblem (Layout × List Placed) :=
  match l with
  | .blanks | .comment | .joint => .ok (st.pass text, [])
  | .lineEnd =>
    let after := st.passLineEnd text
    if st.depth == 0 && !st.atLineStart then
      .ok ({ after with atLineStart := true }, [⟨.newline, st.byte, after.byte, st.line⟩])
    else .ok (after, [])
  | _ => do
    let (st, layout) ← st.open
    let after := (st.nest l).pass text
    match ← l.token text with
    | some t => .ok (after, layout ++ [⟨t, st.byte, after.byte, st.line⟩])
    | none => .ok (after, layout)

/-- The tokens at the end of a source. -/
def Layout.finish (st : Layout) : List Placed :=
  (if st.atLineStart then [] else [st.mark .newline]) ++
    List.replicate st.indents.length (st.mark .dedent) ++ [st.mark .eof]

/-- Why a text starts with no lexeme. -/
def strayProblem (c : Char) : LexProblem :=
  if isQuote c then .unterminatedString else .strayCharacter

/-- The tokens of a text in a state; an error comes with its byte offset. -/
def tokensFrom (st : Layout) (s : List Char) : Except (Nat × LexProblem) (List Placed) :=
  match s with
  | [] => .ok st.finish
  | c :: rest =>
    match scan? (c :: rest) with
    | none => .error (st.byte, strayProblem c)
    | some (l, more) =>
      match st.advance l (c :: rest.take more) with
      | .error e => .error (st.byte, e)
      | .ok (st', here) =>
        match tokensFrom st' (rest.drop more) with
        | .error e => .error e
        | .ok later => .ok (here ++ later)
termination_by s.length
decreasing_by simp only [List.length_cons, List.length_drop]; omega

/-- **The tokens of a source.** -/
def tokens (source : List Char) : Except (Nat × LexProblem) (List Placed) :=
  tokensFrom .start source

theorem runLength_le (p : Char → Bool) (s : List Char) : runLength p s ≤ s.length :=
  (List.takeWhile_prefix p).length_le

end Transcript.Lang
