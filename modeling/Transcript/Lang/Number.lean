import Transcript.Lang.Problem

/-!
# Arithmetic

Integers have 64 bits, and a result that does not fit is an error. Division rounds down and the
remainder has the sign of the divisor. Where a floating point number takes part, the other operand
is converted to the nearest one.

Results:
* `fit_eq_ok`: a result that fits is exact.
-/

namespace Transcript.Lang

/-- The integers that fit into 64 bits. -/
def fits (n : Int) : Bool := -0x8000000000000000 ≤ n && n < 0x8000000000000000

/-- An exact result, if it fits. -/
def fit (n : Int) : Except Problem Int64 :=
  if fits n then .ok (Int64.ofInt n) else .error .overflow

/-- The nearest floating point number of an integer. -/
def floatOfInt (n : Int) : Float :=
  Decimal.ofSignBits (decide (n < 0)) (Decimal.nearestBits n.natAbs 1)

/-- The floating point number that a value counts as. -/
def Value.asFloat? : Value → Option Float
  | .float f => some f
  | v => v.asInt?.map fun n => floatOfInt n.toInt

/-- The parts of a finite floating point number: sign, mantissa and power of two. -/
def floatParts (f : Float) : Bool × Nat × Int :=
  let b := Decimal.Binary.ofBits f.toBits
  (decide (0x8000000000000000 ≤ f.toBits.toNat), b.mantissa, b.step)

/-- Whether a floating point number is neither infinite nor undefined. -/
def isFinite (f : Float) : Bool := !f.isNaN && !f.isInf

/-- A mantissa in units of a smaller power of two. -/
def rescale (mantissa : Nat) (step least : Int) : Nat := mantissa * Nat.pow 2 (step - least).toNat

/-- The remainder of a division toward zero, which is exact. -/
def floatRemainder (a b : Float) : Float :=
  if !isFinite a || b.isNaN then 0.0 / 0.0
  else if b.isInf then a
  else
    let (negative, m, s) := floatParts a
    let (_, n, t) := floatParts b
    let least := min s t
    let (num, den) := Decimal.binaryRatio (rescale m s least % rescale n t least) least
    Decimal.ofSignBits negative (Decimal.nearestBits num den)

/-- The integer part of a floating point number, as far as 64 bits go. -/
def truncate (f : Float) : Int64 :=
  let (negative, m, s) := floatParts f
  let (num, den) := Decimal.binaryRatio m s
  let n : Int := if negative then -((num / den : Nat) : Int) else ((num / den : Nat) : Int)
  Int64.ofInt (max (-0x8000000000000000) (min n 0x7FFFFFFFFFFFFFFF))

/-- An integer to a power that is not negative. Powers beyond 64 bits are found without computing
them: a base other than 0, 1 and -1 has none with an exponent of 64 or more. -/
def intPower (a : Int) (n : Nat) : Except Problem Int64 :=
  if 0x100000000 ≤ n then .error .overflow
  else if a = 0 || a = 1 then fit (if n = 0 then 1 else a)
  else if a = -1 then fit (if n % 2 = 0 then 1 else -1)
  else if 64 ≤ n then .error .overflow
  else fit (Int.pow a n)

/-- Arithmetic on integers. -/
def intBinary (op : BinaryOp) (a b : Int64) : Except Problem Value :=
  let x := a.toInt
  let y := b.toInt
  match op with
  | .add => Value.int <$> fit (x + y)
  | .sub => Value.int <$> fit (x - y)
  | .mul => Value.int <$> fit (x * y)
  | .div =>
    if y = 0 then .error (.zeroDivision false .div)
    else .ok (.float (floatOfInt x / floatOfInt y))
  | .floorDiv =>
    if y = 0 then .error (.zeroDivision false .floorDiv) else Value.int <$> fit (x.fdiv y)
  | .mod =>
    if y = 0 then .error (.zeroDivision false .mod)
    else if fits (x.fdiv y) then Value.int <$> fit (x.fmod y)
    else .error .overflow
  | .pow =>
    if y < 0 then .ok (.float (Float.pow (floatOfInt x) (floatOfInt y)))
    else Value.int <$> intPower x y.toNat

/-- Arithmetic on floating point numbers. -/
def floatBinary (op : BinaryOp) (a b : Float) : Except Problem Value :=
  match op with
  | .add => .ok (.float (a + b))
  | .sub => .ok (.float (a - b))
  | .mul => .ok (.float (a * b))
  | .div => if b == 0.0 then .error (.zeroDivision true .div) else .ok (.float (a / b))
  | .floorDiv =>
    if b == 0.0 then .error (.zeroDivision true .floorDiv) else .ok (.float (a / b).floor)
  | .mod =>
    if b == 0.0 then .error (.zeroDivision true .mod)
    else
      let r := floatRemainder a b
      .ok (.float (if r != 0.0 && (r < 0.0) != (b < 0.0) then r + b else r))
  | .pow => .ok (.float (Float.pow a b))

/-- The negative of a value. -/
def negate (v : Value) : Except Problem Value :=
  match v with
  | .float f => .ok (.float (-f))
  | v =>
    match v.asInt? with
    | some n => Value.int <$> fit (-n.toInt)
    | none => .error (.badUnary "-" v.typeName)

/-- The value itself, as a number. -/
def positive (v : Value) : Except Problem Value :=
  match v with
  | .float f => .ok (.float f)
  | v =>
    match v.asInt? with
    | some n => .ok (.int n)
    | none => .error (.badUnary "+" v.typeName)

/-- The absolute value. The least integer, whose absolute value does not fit, is kept. -/
def absolute (v : Value) : Except Problem Value :=
  match v with
  | .float f => .ok (.float f.abs)
  | v =>
    match v.asInt? with
    | some n => .ok (.int (if n < 0 then -n else n))
    | none => .error (.badAbs v.typeName)

/-- The integer that a value denotes. -/
def toInt (v : Value) : Except Problem Value :=
  match v with
  | .float f =>
    if isFinite f then .ok (.int (truncate f))
    else .error (.floatToInt (String.ofList (showFloat f)))
  | .str _ s =>
    match Decimal.readInt? ((Text.trim s).filter (· != '_')) with
    | some n =>
      if fits n then .ok (.int (Int64.ofInt n))
      else .error (.badIntText (String.ofList (showText s)))
    | none => .error (.badIntText (String.ofList (showText s)))
  | v =>
    match v.asInt? with
    | some n => .ok (.int n)
    | none => .error (.badIntArgument v.typeName)

/-- The floating point number that a value denotes. -/
def toFloat (v : Value) : Except Problem Value :=
  match v with
  | .str _ s =>
    match Decimal.readFloat? (Text.trim s) with
    | some f => .ok (.float f)
    | none => .error (.badFloatText (String.ofList (showText s)))
  | v =>
    match v.asFloat? with
    | some f => .ok (.float f)
    | none => .error (.badFloatArgument v.typeName)

theorem fit_eq_ok {n : Int} {m : Int64} (h : fit n = .ok m) : m.toInt = n := by
  unfold fit at h
  split at h
  · rename_i hf
    simp only [Except.ok.injEq] at h
    subst h
    simp only [fits, Bool.and_eq_true, decide_eq_true_eq] at hf
    exact Int64.toInt_ofInt_of_le hf.1 (by omega)
  · simp at h

end Transcript.Lang
