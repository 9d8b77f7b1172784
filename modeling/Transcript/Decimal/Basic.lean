/-!
# Decimal numbers

A decimal number is a sign, a natural number of digits and a power of ten. Its text has a sign, digits
with at most one point, and an exponent.

Results:
* `digitsValue_append`: digits are read from the left, the value shifting by one place each.
-/

namespace Transcript

/-- **A decimal number:** `± digits · 10 ^ exponent`. -/
structure Decimal where
  /-- Whether the number has a minus sign. -/
  negative : Bool
  /-- The digits as a natural number. -/
  digits : Nat
  /-- The power of ten that the digits count. -/
  exponent : Int
  deriving DecidableEq, Repr

namespace Decimal

/-- The value of a decimal digit. -/
def digitValue (c : Char) : Nat := c.toNat - '0'.toNat

/-- The number that digits write, after the digits of a first part. -/
def digitsFrom (first : Nat) (ds : List Char) : Nat :=
  ds.foldl (fun n c => n * 10 + digitValue c) first

/-- The number that digits write. -/
def digitsValue (ds : List Char) : Nat := digitsFrom 0 ds

/-- Splits off the longest run of digits. -/
def spanDigits (s : List Char) : List Char × List Char := s.span Char.isDigit

/-- Splits off a sign; no sign means plus. -/
def splitSign : List Char → Bool × List Char
  | '-' :: rest => (true, rest)
  | '+' :: rest => (false, rest)
  | s => (false, s)

/-- An integer with an optional sign, or nothing. -/
def readInt? (s : List Char) : Option Int :=
  let (negative, ds) := splitSign s
  if ds.isEmpty || !ds.all Char.isDigit then none
  else some (if negative then -(digitsValue ds : Int) else digitsValue ds)

/-- Reads the exponent mark and exponent of a decimal, both of which may be missing. -/
def readExponent? : List Char → Option Int
  | [] => some 0
  | e :: rest => if e = 'e' || e = 'E' then readInt? rest else none

/-- Reads a decimal: an optional sign, digits with an optional point (a digit on at least one of
its sides), and an optional exponent. -/
def read? (s : List Char) : Option Decimal :=
  let (negative, s) := splitSign s
  let (whole, s) := spanDigits s
  let (fraction, s) :=
    match s with
    | '.' :: rest => spanDigits rest
    | _ => ([], s)
  if whole.isEmpty && fraction.isEmpty then none
  else
    (readExponent? s).map fun e =>
      ⟨negative, digitsFrom (digitsValue whole) fraction, e - fraction.length⟩

theorem digitsValue_append (s t : List Char) :
    digitsValue (s ++ t) = digitsFrom (digitsValue s) t := by
  simp [digitsValue, digitsFrom]

end Decimal

end Transcript
