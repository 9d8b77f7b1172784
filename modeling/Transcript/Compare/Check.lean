import Transcript.Compare.BlankLine
import Transcript.Decimal.Double
import Transcript.Flag.Basic
import Transcript.Text.Bytes
import Transcript.Text.Character
import Transcript.Text.Search

/-!
# Does an output match its expectation?

The flags widen what counts as equal: first by blank lines, blanks and gaps, then, where this does
not suffice, once more after the literal prefixes and the precision of numbers have been evened
out.

An expectation may write a number with fewer digits than the output. Two numbers agree when they
differ by at most one unit of the last place that the expectation writes (or a millionth of the
output). A number counts here only if it has a point or an exponent.

Results:
* `ellipsisMatch_of_no_gap`: without a gap the texts have to be equal.
* `accepts_self`: a text matches itself under all flags.
-/

namespace Transcript.Compare

/-! ## Numbers to the written precision -/

/-- **A number in a text.** -/
structure Numeral where
  /-- The number as written. -/
  text : List Char
  /-- The digits after its point. -/
  fraction : List Char
  /-- Its exponent with the sign, if it has one. -/
  exponent : Option (List Char)

/-- Splits off a sign, if there is one. -/
def spanSign : List Char → List Char × List Char
  | '+' :: rest => (['+'], rest)
  | '-' :: rest => (['-'], rest)
  | s => ([], s)

/-- Splits off digits of any script. -/
def spanDecimals (s : List Char) : List Char × List Char := s.span Text.isDecimal

/-- Splits off an exponent mark and an exponent of at least one digit. -/
def spanExponent? : List Char → Option (List Char × List Char × List Char)
  | e :: rest =>
    if e = 'E' || e = 'e' then
      let (sign, rest) := spanSign rest
      let (digits, rest) := spanDecimals rest
      if digits.isEmpty then none else some (e :: (sign ++ digits), sign ++ digits, rest)
    else none
  | [] => none

/-- The number that starts a text, with the text after it. Digits with a point come with or without
an exponent, digits without a point only with one. -/
def numeralAt? (s : List Char) : Option (Numeral × List Char) :=
  let (sign, s) := spanSign s
  let (whole, s) := spanDecimals s
  match s with
  | '.' :: rest =>
    let (fraction, rest) := spanDecimals rest
    if whole.isEmpty && fraction.isEmpty then none
    else
      let mantissa := sign ++ whole ++ '.' :: fraction
      match spanExponent? rest with
      | some (text, exponent, rest) => some (⟨mantissa ++ text, fraction, some exponent⟩, rest)
      | none => some (⟨mantissa, fraction, none⟩, rest)
  | _ =>
    if whole.isEmpty then none
    else
      (spanExponent? s).map fun (text, exponent, rest) =>
        (⟨sign ++ whole ++ text, [], some exponent⟩, rest)

/-- A part of a text: one character outside numbers, or a number. -/
inductive Part
  /-- A character that belongs to no number. -/
  | other (c : Char)
  /-- A number. -/
  | numeral (n : Numeral)

/-- The parts of a text after skipping some characters. -/
def partsAfter : Nat → List Char → List Part
  | _, [] => []
  | skip + 1, _ :: cs => partsAfter skip cs
  | 0, c :: cs =>
    match numeralAt? (c :: cs) with
    | some (n, _) => .numeral n :: partsAfter (n.text.length - 1) cs
    | none => .other c :: partsAfter 0 cs

/-- The parts of a text. -/
def parts (s : List Char) : List Part := partsAfter 0 s

/-- The numbers of a text. -/
def numerals (s : List Char) : List Numeral :=
  (parts s).filterMap fun
    | .numeral n => some n
    | .other _ => none

/-- The product of `acc` and `base ^ n` by repeated squaring. -/
def mulPower (acc base : Float) (n : Nat) : Float :=
  let acc := if n % 2 = 1 then acc * base else acc
  if n / 2 = 0 then acc else mulPower acc (base * base) (n / 2)
termination_by n
decreasing_by omega

/-- A power of ten. -/
def powerOfTen (e : Int) : Float :=
  if e < 0 then 1.0 / mulPower 1.0 10.0 e.natAbs else mulPower 1.0 10.0 e.natAbs

/-- The exponent that a number writes; one that no 32 bits hold counts as zero. -/
def exponentValue (text : List Char) : Int32 :=
  match Decimal.readInt? text with
  | some e => if -2147483648 ≤ e && e ≤ 2147483647 then Int32.ofInt e else 0
  | none => 0

/-- Whether the number of an output agrees with that of its expectation. -/
def Numeral.agrees (want got : Numeral) : Bool :=
  match Decimal.readFloat? want.text, Decimal.readFloat? got.text with
  | some w, some g =>
    let places := Int32.ofNat (Text.byteLength want.fraction) - (want.exponent.map exponentValue).getD 0
    let least := 1e-6 * g.abs
    let unit := powerOfTen (-places).toInt
    w == g || (w - g).abs ≤ (if least < unit then unit else least)
  | _, _ => false

/-- The parts with each number that agrees with its expectation written as there. -/
def respell : List Part → List Numeral → List Char
  | [], _ => []
  | .other c :: ps, ws => c :: respell ps ws
  | .numeral g :: ps, w :: ws =>
    (if w.agrees g then w.text else g.text) ++ respell ps ws
  | .numeral g :: ps, [] => g.text ++ respell ps []

/-- The output with the numbers that agree with the expectation written as there. Numbers are
matched in order, so both texts must have the same number of them. -/
def matchPrecision (want got : List Char) : List Char :=
  let ws := numerals want
  if ws.length = (numerals got).length then respell (parts got) ws else got

/-! ## Matching -/

/-! ## Expectations with gaps

Three dots in an expectation stand for any text. The text before the first gap begins the output,
the text after the last one ends it, and the pieces between are looked for from left to right in
what remains.
-/

/-- The mark of a gap. -/
def gap : List Char := ['.', '.', '.']

/-- What is left of a text after the pieces have been found in it one after the other. -/
def findPieces? (pieces : List (List Char)) (text : List Char) : Option (List Char) :=
  pieces.foldlM (fun rest piece => (Text.splitAt? piece rest).map Prod.snd) text

/-- Whether an output agrees with an expectation whose gaps stand for any text. -/
def ellipsisMatch (want got : List Char) : Bool :=
  match Text.splitOn gap want with
  | first :: second :: rest =>
    let last := (second :: rest).getLast (by simp)
    match (Text.afterBegin? first got).bind (Text.beforeEnd? last) with
    | some window => (findPieces? (second :: rest).dropLast window).isSome
    | none => false
  | _ => want == got

theorem ellipsisMatch_of_no_gap (want got p : List Char) (h : Text.splitOn gap want = [p]) :
    ellipsisMatch want got = (want == got) := by
  simp [ellipsisMatch, h]

/-! ## Prefixes of text and bytes literals

An expectation may leave out the letter before the quote of a text literal, or write one that the
output lacks. Taking out the letter on both sides makes them agree.
-/

/-- The opening of a literal after its prefix letter: an optional `r` and a quote. -/
def literalOpening? : List Char → Option (List Char × List Char)
  | 'r' :: q :: rest => if q = '\'' || q = '"' then some (['r', q], rest) else none
  | 'R' :: q :: rest => if q = '\'' || q = '"' then some (['R', q], rest) else none
  | q :: rest => if q = '\'' || q = '"' then some ([q], rest) else none
  | [] => none

/-- The opening of a literal whose prefix letter is one of two. -/
def prefixedOpening? (small capital : Char) : List Char → Option (List Char × List Char)
  | c :: rest => if c = small || c = capital then literalOpening? rest else none
  | [] => none

/-- Takes out the prefix letters of literals. A prefix stands at the beginning of the text or after
a character that belongs to no word; that character must not itself have opened a literal. `skip`
characters are kept as they are. -/
def dropPrefixesAfter (small capital : Char) : Nat → List Char → List Char
  | _, [] => []
  | skip + 1, c :: cs => c :: dropPrefixesAfter small capital skip cs
  | 0, c :: cs =>
    if Text.isWord c then c :: dropPrefixesAfter small capital 0 cs
    else
      match prefixedOpening? small capital cs with
      | some (opening, _) => c :: dropLetter opening.length cs
      | none => c :: dropPrefixesAfter small capital 0 cs
where
  /-- The text without its first letter, which is a prefix. -/
  dropLetter (skip : Nat) : List Char → List Char
    | [] => []
    | _ :: cs => dropPrefixesAfter small capital skip cs

/-- The text without the prefix letters of its literals. -/
def dropPrefixes (small capital : Char) (text : List Char) : List Char :=
  match prefixedOpening? small capital text with
  | some (opening, rest) => opening ++ dropPrefixesAfter small capital 0 rest
  | none => dropPrefixesAfter small capital 0 text

/-! ## Match -/

/-- The text with single spaces between its words. -/
def normalizeBlanks (s : List Char) : List Char := Text.joinWith [' '] (Text.words s)

/-- Whether a truth value stands where its number is expected. -/
def isTruthOfNumber (want got : List Char) : Bool :=
  (got == "True\n".toList && want == "1\n".toList) ||
    (got == "False\n".toList && want == "0\n".toList)

/-- Match up to truth values, blank lines, blanks and gaps. -/
def acceptsPlain (want got : List Char) (flags : FlagSet) : Bool :=
  if got == want then true
  else if !flags.has .dontAcceptTrueForOne && isTruthOfNumber want got then true
  else
    let (want, got) :=
      if flags.has .dontAcceptBlankline then (want, got)
      else (unmarkBlankLines want, clearBlankLines got)
    if got == want then true
    else
      let (want, got) :=
        if flags.has .normalizeWhitespace then (normalizeBlanks want, normalizeBlanks got)
        else (want, got)
      got == want || (flags.has .ellipsis && ellipsisMatch want got)

/-- The text without the literal prefixes that the flags allow to differ. -/
def dropAllowedPrefixes (flags : FlagSet) (text : List Char) : List Char :=
  let text := if flags.has .allowUnicode then dropPrefixes 'u' 'U' text else text
  if flags.has .allowBytes then dropPrefixes 'b' 'B' text else text

/-- **Match** of an output with its expectation under the flags. -/
def accepts (want got : List Char) (flags : FlagSet) : Bool :=
  acceptsPlain want got flags ||
    (flags.hasAny [.allowUnicode, .allowBytes, .number] &&
      let want := dropAllowedPrefixes flags want
      let got := dropAllowedPrefixes flags got
      acceptsPlain want (if flags.has .number then matchPrecision want got else got) flags)

/-- The name of an exception in its message: for `area.part.Error: detail` this is `Error`. -/
def exceptionName (message : List Char) : List Char :=
  let line := message.takeWhile (· != '\n')
  let head := line.takeWhile (· != ':')
  (head.reverse.takeWhile (· != '.')).reverse

theorem acceptsPlain_self (s : List Char) (flags : FlagSet) : acceptsPlain s s flags = true := by
  simp [acceptsPlain]

theorem accepts_self (s : List Char) (flags : FlagSet) : accepts s s flags = true := by
  simp [accepts, acceptsPlain_self]

end Transcript.Compare
