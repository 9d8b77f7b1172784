import Transcript.Decimal.Basic

/-!
# Decimals and doubles

A decimal is read as the double nearest to it, and a double is written by the shortest decimal that is
read as it.
-/

namespace Transcript.Decimal

/-! ## The nearest double

A ratio of natural numbers becomes the double nearest to it, a tie going to the even neighbour;
what lies half a step above the largest finite double is infinite. Doubles are built from their
bits: with the least step `2 ^ -1074`, the finite doubles counted from zero are the numbers
`step * 2 ^ 52 + mantissa`, where the step doubles from one run of mantissas to the next.
-/

/-- The quotient rounded to the nearest natural number, a half going to the even one. -/
def roundHalfEven (num den : Nat) : Nat :=
  let q := num / den
  let r := num % den
  if 2 * r < den then q
  else if den < 2 * r then q + 1
  else if q % 2 = 0 then q else q + 1

/-- The number of doubles in a run, `2 ^ 52`: they have one step in common. -/
def runSize : Nat := 0x10000000000000

/-- The ratio `num / den` divided by `2 ^ step`, as numerator and denominator. -/
def scaleDown (num den : Nat) (step : Int) : Nat × Nat :=
  match step with
  | .ofNat n => (num, den * Nat.pow 2 n)
  | .negSucc n => (num * Nat.pow 2 (n + 1), den)

/-- The binary step of the run of doubles that holds the ratio: mantissas of 53 bits, but no step
below the least. -/
def binaryStep (num den : Nat) : Int :=
  let guess := (num.log2 : Int) - den.log2 - 52
  let (n, d) := scaleDown num den guess
  let step := if n / d < runSize then guess - 1
    else if 2 * runSize ≤ n / d then guess + 1
    else guess
  max step (-1074)

/-- The bits of the nearest double to a ratio. -/
def nearestBits (num den : Nat) : UInt64 :=
  if num = 0 then 0
  else
    let step := binaryStep num den
    let (n, d) := scaleDown num den step
    let count := (step + 1074).toNat * runSize + roundHalfEven n d
    UInt64.ofNat (min count (0x7FF * runSize))

/-- The double with a sign and the bits of an absolute value. -/
def ofSignBits (negative : Bool) (bits : UInt64) : Float :=
  Float.ofBits (if negative then bits ||| 0x8000000000000000 else bits)

/-- How many decimal digits a natural number has; none for zero. -/
def digitCount (n : Nat) : Nat := if n = 0 then 0 else (Nat.toDigits 10 n).length

/-- The bits of the double nearest to the absolute value. Digits beyond the range of doubles are
told from their count, so that no huge power of ten arises. -/
def bits (d : Decimal) : UInt64 :=
  let magnitude := (digitCount d.digits : Int) + d.exponent
  if d.digits = 0 || magnitude < -330 then 0
  else if 310 < magnitude then 0x7FF0000000000000
  else
    match d.exponent with
    | .ofNat n => nearestBits (d.digits * Nat.pow 10 n) 1
    | .negSucc n => nearestBits d.digits (Nat.pow 10 (n + 1))

/-- The double nearest to a decimal number. -/
def toFloat (d : Decimal) : Float := ofSignBits d.negative d.bits

/-- The words that a text may use for what no decimal writes. -/
def readSpecial? (s : List Char) : Option Float :=
  let (negative, s) := splitSign s
  let word := String.ofList (s.map Char.toLower)
  if word = "inf" || word = "infinity" then some (ofSignBits negative 0x7FF0000000000000)
  else if word = "nan" then some (ofSignBits negative 0x7FF8000000000000)
  else none

/-- Reads a floating point number: a decimal, `inf`, `infinity` or `nan`. -/
def readFloat? (s : List Char) : Option Float :=
  match read? s with
  | some d => some d.toFloat
  | none => readSpecial? s

/-! ## The shortest decimal of a double

Of the decimals that read back as a given double, the one with the fewest digits; of those the
nearest, a tie going up. The doubles that read back form an interval around the double whose ends
lie half a step away and belong to it iff the mantissa is even.

For each digit count the two neighbours of the double on the grid of that many digits are tried:
if any point of the grid lies in the interval, one of them does.
-/

/-- A positive finite double as `mantissa · 2 ^ step`, with the two half steps around it in units
of `2 ^ (step - 2)`. -/
structure Binary where
  /-- The mantissa, of at most 53 bits. -/
  mantissa : Nat
  /-- The power of two that the mantissa counts. -/
  step : Int
  /-- The half step below in quarters of a step: one below a power of two, else two. -/
  below : Nat

/-- The parts of the double with the given bits of an absolute value. -/
def Binary.ofBits (bits : UInt64) : Binary :=
  let n : Nat := bits.toNat % 0x8000000000000000
  let run : Nat := n / runSize
  let low : Nat := n % runSize
  if run = 0 then ⟨low, -1074, 2⟩
  else ⟨low + runSize, Int.ofNat run - 1075, if low = 0 && 1 < run then 1 else 2⟩

/-- The ratio of `n · 2 ^ e` as numerator and denominator. -/
def binaryRatio (n : Nat) (e : Int) : Nat × Nat :=
  match e with
  | .ofNat k => (n * Nat.pow 2 k, 1)
  | .negSucc k => (n, Nat.pow 2 (k + 1))

/-- Compares `c · 10 ^ k` with the ratio `num / den`. -/
def compareDecimal (c : Nat) (k : Int) (num den : Nat) : Ordering :=
  match k with
  | .ofNat j => compare (c * Nat.pow 10 j * den) num
  | .negSucc j => compare (c * den) (num * Nat.pow 10 (j + 1))

/-- Whether `c · 10 ^ k` reads back as the double. -/
def readsBack (b : Binary) (c : Nat) (k : Int) : Bool :=
  let even := b.mantissa % 2 == 0
  let (ln, ld) := binaryRatio (4 * b.mantissa - b.below) (b.step - 2)
  let (un, ud) := binaryRatio (4 * b.mantissa + 2) (b.step - 2)
  (match compareDecimal c k ln ld with
    | .lt => false
    | .eq => even
    | .gt => true) &&
  (match compareDecimal c k un ud with
    | .lt => true
    | .eq => even
    | .gt => false)

/-- The floor of the ratio divided by `10 ^ k`. -/
def floorDecimal (num den : Nat) (k : Int) : Nat :=
  match k with
  | .ofNat j => num / (den * Nat.pow 10 j)
  | .negSucc j => num * Nat.pow 10 (j + 1) / den

/-- The place of the first digit of a positive ratio that is not far below `10 ^ -350`. -/
def leadingPlace (num den : Nat) : Int :=
  (digitCount (num * Nat.pow 10 350 / den) : Int) - 351

/-- The nearer of two neighbours `c` and `c + 1` on the grid of `10 ^ k`; a tie goes up. -/
def nearer (c : Nat) (k : Int) (num den : Nat) : Nat :=
  -- The middle `c + 1/2` is `(10 c + 5)` on the next finer grid.
  match compareDecimal (10 * c + 5) (k - 1) num den with
  | .gt => c
  | _ => c + 1

/-- The shortest digits among at most `more` further digit counts, beginning with the grid of
`10 ^ k`. -/
def shortestFrom (b : Binary) (num den : Nat) : Nat → Int → Nat × Int
  | 0, k => (floorDecimal num den k, k)
  | more + 1, k =>
    let c := floorDecimal num den k
    match readsBack b c k, readsBack b (c + 1) k with
    | true, true => (nearer c k num den, k)
    | true, false => (c, k)
    | false, true => (c + 1, k)
    | false, false => shortestFrom b num den more (k - 1)

/-- Takes zeros off the end of a digit string, at most `fuel` of them. -/
def dropZeros : Nat → Nat → Int → Nat × Int
  | 0, c, k => (c, k)
  | fuel + 1, c, k => if c % 10 = 0 && c != 0 then dropZeros fuel (c / 10) (k + 1) else (c, k)

/-- The shortest decimal of a finite double. -/
def shortest (f : Float) : Decimal :=
  let bits := f.toBits
  let negative := 0x8000000000000000 ≤ bits.toNat
  let b := Binary.ofBits bits
  if b.mantissa = 0 then ⟨negative, 0, 0⟩
  else
    let (num, den) := binaryRatio b.mantissa b.step
    let (c, k) := shortestFrom b num den 17 (leadingPlace num den)
    let (c, k) := dropZeros 20 c k
    ⟨negative, c, k⟩

/-! ## Styles of decimals

How the digits of a decimal number are laid out: with a point where the first digit is close to
it, else with an exponent. A style is a record of the decisions, so that one printer serves all.
-/

/-- **The decisions of a style.** -/
structure Style where
  /-- The least place of the first digit that is written with a point. -/
  leastPlace : Int
  /-- The first place that is written with an exponent again. -/
  endPlace : Int
  /-- The least number of digits of the exponent. -/
  exponentDigits : Nat

/-- The digits of a natural number, padded with zeros on the left. -/
def padded (width n : Nat) : List Char :=
  let ds := Nat.toDigits 10 n
  List.replicate (width - ds.length) '0' ++ ds

/-- The digits with a point, and a zero on a side that has none. -/
def positional (digits : Nat) (exponent : Int) : List Char :=
  match exponent with
  | .ofNat k => Nat.toDigits 10 digits ++ List.replicate k '0' ++ ['.', '0']
  | .negSucc k =>
    let ds := padded (k + 2) digits
    ds.take (ds.length - (k + 1)) ++ ['.'] ++ ds.drop (ds.length - (k + 1))

/-- The digits with a point after the first, if there are more, and the exponent with its sign. -/
def scientific (exponentDigits digits : Nat) (exponent : Int) : List Char :=
  let ds := Nat.toDigits 10 digits
  let place := exponent + ds.length - 1
  let mantissa :=
    match ds with
    | [d] => [d]
    | d :: rest => d :: '.' :: rest
    | [] => []
  mantissa ++ ['e', if place < 0 then '-' else '+'] ++ padded exponentDigits place.natAbs

/-- Writes a decimal number. -/
def write (style : Style) (d : Decimal) : List Char :=
  let place := d.exponent + digitCount d.digits - 1
  (if d.negative then ['-'] else []) ++
    if d.digits = 0 || (style.leastPlace ≤ place && place < style.endPlace) then
      positional d.digits d.exponent
    else scientific style.exponentDigits d.digits d.exponent

/-- Writes a double by its shortest decimal, or names what is not finite. -/
def writeFloat (style : Style) (f : Float) : List Char :=
  if f.isNaN then "nan".toList
  else if f.isInf then (if f < 0.0 then "-inf" else "inf").toList
  else write style (shortest f)

end Transcript.Decimal
