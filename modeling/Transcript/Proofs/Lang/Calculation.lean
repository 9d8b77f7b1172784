import Transcript.Lang.Call
import Transcript.Proofs.Lang.Conversion
import Transcript.Proofs.Lang.Division

/-!
# Exact calculations

A calculation with integers has an exact outcome: a number, or what is wrong with its operands. It should
give the number, where it fits into 64 bits, and else fail with an overflow. Calculations are checked one
by one, and where a check is missing or too strict they slip.

Results:
* `Calculation.sumOf_eq`: which sums are found.
* `calculation_right_iff`: which calculations are right.
* `large_float_saturates`: one that is not.
-/

namespace Transcript.Lang

/-! ## Operands -/

/-- **An operand:** a truth value, which counts as zero or one, or an integer. -/
inductive Whole
  /-- A truth value. -/
  | bool (b : Bool)
  /-- An integer. -/
  | int (n : Int64)

namespace Whole

/-- The operand as a value. -/
def value : Whole → Value
  | bool b => .bool b
  | int n => .int n

/-- The 64-bit integer that an operand counts as. -/
def word : Whole → Int64
  | bool b => if b then 1 else 0
  | int n => n

/-- The number that an operand counts as. -/
def toInt (a : Whole) : Int := a.word.toInt

end Whole

/-! ## Calculations -/

/-- **A calculation** with integers in a world. -/
inductive Calculation (w : World)
  /-- `a + b` -/
  | add (a b : Whole)
  /-- `a - b` -/
  | sub (a b : Whole)
  /-- `a * b` -/
  | mul (a b : Whole)
  /-- `a // b` -/
  | floorDiv (a b : Whole)
  /-- `a % b` -/
  | mod (a b : Whole)
  /-- `a ** b` with an exponent that is not negative -/
  | pow (a b : Whole) (hb : 0 ≤ b.toInt)
  /-- `-a` -/
  | negate (a : Whole)
  /-- `+a` -/
  | plus (a : Whole)
  /-- `abs(a)` -/
  | abs (a : Whole)
  /-- `int(f)` of a finite double -/
  | ofFloat (f : Float) (x : ℚ) (hf : floatValue? f = some x)
  /-- `int(s)` of a text -/
  | ofText (identity : Nat) (s : List Char)
  /-- `sum(l)` of a list of integers -/
  | sum (r : Ref) (items : List Whole) (hr : w.list r = items.map Whole.value)
  /-- `len(r)` of a range -/
  | len (start stop step : Int64) (hstep : step ≠ 0)

namespace Calculation

variable {w : World}

/-- What the program does. -/
def run : Calculation w → Except Problem (Value × World)
  | add a b => binary .add a.value b.value w
  | sub a b => binary .sub a.value b.value w
  | mul a b => binary .mul a.value b.value w
  | floorDiv a b => binary .floorDiv a.value b.value w
  | mod a b => binary .mod a.value b.value w
  | pow a b _ => binary .pow a.value b.value w
  | negate a => unary .negate a.value w
  | plus a => unary .plus a.value w
  | abs a => callBuiltin .abs ⟨Builtin.abs.name, [a.value], []⟩ w
  | ofFloat f _ _ => callBuiltin .int ⟨Builtin.int.name, [.float f], []⟩ w
  | ofText identity s => callBuiltin .int ⟨Builtin.int.name, [.str identity s], []⟩ w
  | sum r _ _ => callBuiltin .sum ⟨Builtin.sum.name, [.list r], []⟩ w
  | len start stop step _ => callBuiltin .len ⟨Builtin.len.name, [.range start stop step], []⟩ w

/-- **The exact outcome:** a number, or the kind of the exception for operands that have none. Quotients are
rounded down and doubles toward zero, a remainder is what the quotient leaves, and a range is as long as it has
items before its end. -/
inductive Exact : Calculation w → Except ExceptionKind Int → Prop
  | add (a b : Whole) : Exact (.add a b) (.ok (a.toInt + b.toInt))
  | sub (a b : Whole) : Exact (.sub a b) (.ok (a.toInt - b.toInt))
  | mul (a b : Whole) : Exact (.mul a b) (.ok (a.toInt * b.toInt))
  | floorDiv (a : Whole) {b : Whole} (hb : b.toInt ≠ 0) :
    Exact (.floorDiv a b) (.ok ⌊(a.toInt : ℚ) / b.toInt⌋)
  | floorDivZero (a : Whole) {b : Whole} (hb : b.toInt = 0) : Exact (.floorDiv a b) (.error .zeroDivisionError)
  | mod (a : Whole) {b : Whole} (hb : b.toInt ≠ 0) :
    Exact (.mod a b) (.ok (a.toInt - b.toInt * ⌊(a.toInt : ℚ) / b.toInt⌋))
  | modZero (a : Whole) {b : Whole} (hb : b.toInt = 0) : Exact (.mod a b) (.error .zeroDivisionError)
  | pow (a b : Whole) (hb : 0 ≤ b.toInt) : Exact (.pow a b hb) (.ok (a.toInt ^ b.toInt.toNat))
  | negate (a : Whole) : Exact (.negate a) (.ok (-a.toInt))
  | plus (a : Whole) : Exact (.plus a) (.ok a.toInt)
  | abs (a : Whole) : Exact (.abs a) (.ok |a.toInt|)
  | ofFloat (f : Float) (x : ℚ) (hf : floatValue? f = some x) : Exact (.ofFloat f x hf) (.ok (towardZero x))
  | ofText (identity : Nat) {s : List Char} {n : Int} (h : IsNumeral s n) : Exact (.ofText identity s) (.ok n)
  | ofMalformed (identity : Nat) {s : List Char} (h : ∀ n, ¬ IsNumeral s n) :
    Exact (.ofText identity s) (.error .valueError)
  | sum (r : Ref) (items : List Whole) (hr : w.list r = items.map Whole.value) :
    Exact (.sum r items hr) (.ok (items.map Whole.toInt).sum)
  | len {start stop step : Int64} (hstep : step ≠ 0) {n : Nat} (h : IsLength start stop step n) :
    Exact (.len start stop step hstep) (.ok n)

/-- What should come of an exact outcome: the number, if it fits, else an overflow. -/
def promised : Except ExceptionKind Int → Except ExceptionKind Int64
  | .ok n => if fits n then .ok (Int64.ofInt n) else .error .overflowError
  | .error k => .error k

/-- **A calculation is right** about an exact outcome: it gives what it should, and changes nothing. -/
def IsRight (c : Calculation w) (exact : Except ExceptionKind Int) : Prop :=
  c.run.mapError Problem.kind = (promised exact).map fun n => (.int n, w)

/-- **Where a calculation slips.** -/
inductive Slips : Calculation w → Prop
  /-- The remainder zero of the least integer by minus one is refused with the quotient, which does not fit. -/
  | mod {a b : Whole} (ha : a.toInt = -2 ^ 63) (hb : b.toInt = -1) : Slips (.mod a b)
  /-- Exponents of more than 32 bits are refused, the powers of zero, one and minus one with the others. -/
  | pow {a b : Whole} (hb : 0 ≤ b.toInt) (ha : a.toInt = 0 ∨ a.toInt = 1 ∨ a.toInt = -1)
      (hlarge : 2 ^ 32 ≤ b.toInt) : Slips (.pow a b hb)
  /-- The least integer is its own absolute value. -/
  | abs {a : Whole} (ha : a.toInt = -2 ^ 63) : Slips (.abs a)
  /-- A double beyond 64 bits is cut to the least or greatest integer. -/
  | ofFloat {f : Float} {x : ℚ} (hf : floatValue? f = some x) (hx : fits (towardZero x) = false) :
    Slips (.ofFloat f x hf)
  /-- A numeral beyond 64 bits is called malformed. -/
  | ofText (identity : Nat) {s : List Char} {n : Int} (h : IsNumeral s n) (hn : fits n = false) :
    Slips (.ofText identity s)
  /-- A sum that fits is refused, if the sum of its first items does not. -/
  | sum (r : Ref) {items part : List Whole} (hr : w.list r = items.map Whole.value) (hpart : part <+: items)
      (hover : fits (part.map Whole.toInt).sum = false) (hfits : fits (items.map Whole.toInt).sum = true) :
    Slips (.sum r items hr)
  /-- The length of a range wraps around. -/
  | len {start stop step : Int64} (hstep : step ≠ 0) (h : LengthSlips start stop step) :
    Slips (.len start stop step hstep)

/-! ### What should come -/

variable {c : Calculation w} {x : Except ExceptionKind Int} {n : Int}

theorem promised_eq_ok {a : Int64} : promised (.ok n) = .ok a ↔ a.toInt = n := by
  rw [promised]
  split_ifs with h
  · obtain ⟨hlo, hhi⟩ := fits_iff.mp h
    have hn := Int64.toInt_ofInt_of_le hlo hhi
    constructor
    · intro heq
      rw [← Except.ok.inj heq, hn]
    · rintro rfl
      rw [Int64.ofInt_toInt]
  · refine iff_of_false (fun heq => nomatch heq) ?_
    rintro rfl
    exact h (fits_toInt a)

theorem promised_eq_overflow : promised (.ok n) = .error .overflowError ↔ fits n = false := by
  rw [promised]
  split_ifs with h
  · exact iff_of_false (fun heq => nomatch heq) (by rw [h]; exact Bool.noConfusion)
  · exact iff_of_true rfl (by simpa using h)

/-- A calculation that gives an integer is right if it should give this one. -/
theorem isRight_ok {a : Int64} (h : c.run = .ok (.int a, w)) : c.IsRight x ↔ promised x = .ok a := by
  rw [IsRight, h]
  cases promised x with
  | error k => exact iff_of_false (fun heq => nomatch heq) fun heq => nomatch heq
  | ok b =>
    constructor
    · intro heq
      cases heq
      rfl
    · intro heq
      cases heq
      rfl

/-- A calculation that fails is right if it should fail in this way. -/
theorem isRight_error {p : Problem} (h : c.run = .error p) : c.IsRight x ↔ promised x = .error p.kind := by
  rw [IsRight, h]
  cases promised x with
  | ok b => exact iff_of_false (fun heq => nomatch heq) fun heq => nomatch heq
  | error k =>
    constructor
    · intro heq
      cases heq
      rfl
    · intro heq
      cases heq
      rfl

/-- A checked calculation is right. -/
theorem isRight_fit (h : c.run = (Value.int <$> fit n).map (·, w)) : c.IsRight (.ok n) := by
  rw [IsRight, h, promised, fit]
  split_ifs <;> rfl

/-! ### Operators -/

theorem binary_value (op : BinaryOp) (a b : Whole) :
    binary op a.value b.value w = (intBinary op a.word b.word).map (·, w) := by
  cases a <;> cases b <;> rfl

/-- The quotient of 64-bit integers fits, but for one. -/
theorem fits_fdiv_iff {a b : Int64} (hb : b ≠ 0) :
    fits (a.toInt.fdiv b.toInt) = true ↔ ¬(a.toInt = -2 ^ 63 ∧ b.toInt = -1) := by
  constructor
  · rintro hfits ⟨ha, hb⟩
    rw [ha, hb] at hfits
    exact absurd hfits (by decide)
  · intro h
    have hchecked : ¬(a = Int64.minValue ∧ b = -1) := by
      rintro ⟨rfl, rfl⟩
      exact h ⟨rfl, rfl⟩
    obtain ⟨q, -, hq⟩ := stepQuotient_of_checked hb hchecked
    rw [← hq]
    exact fits_toInt q

/-- A remainder fits as the divisor does. -/
theorem fits_fmod {b : Int64} (a : Int) (hb : b ≠ 0) : fits (a.fmod b.toInt) = true := by
  have hbounds := (isDivision_iff.mp (isDivision_fdiv a (toInt_eq_zero.not.mpr hb))).2
  have hlo := b.le_toInt
  have hhi := b.toInt_lt
  rw [fits_iff]
  omega

theorem floorDiv_right {a b : Whole} (hb : b.toInt ≠ 0) :
    (floorDiv (w := w) a b).IsRight (.ok ⌊(a.toInt : ℚ) / b.toInt⌋) := by
  rw [(isDivision_fdiv a.toInt hb).floor_eq]
  refine isRight_fit ?_
  rw [run, binary_value, intBinary]
  exact congrArg _ (if_neg hb)

theorem mod_right_iff {a b : Whole} (hb : b.toInt ≠ 0) :
    (mod (w := w) a b).IsRight (.ok (a.toInt - b.toInt * ⌊(a.toInt : ℚ) / b.toInt⌋)) ↔
      ¬(mod (w := w) a b).Slips := by
  have hslips : (mod (w := w) a b).Slips ↔ a.toInt = -2 ^ 63 ∧ b.toInt = -1 :=
    ⟨fun h => by cases h with | mod ha hb => exact ⟨ha, hb⟩, fun h => .mod h.1 h.2⟩
  have hfits := fits_fdiv_iff (a := a.word) (toInt_eq_zero.not.mp hb)
  rw [(isDivision_fdiv a.toInt hb).floor_eq, ← Int.fmod_def, hslips]
  have hrun : (mod (w := w) a b).run = (if fits (a.toInt.fdiv b.toInt) then Value.int <$> fit (a.toInt.fmod b.toInt)
      else .error .overflow).map (·, w) := by
    rw [run, binary_value, intBinary]
    exact congrArg _ (if_neg hb)
  split_ifs at hrun with h
  · exact iff_of_true (isRight_fit hrun) (hfits.mp h)
  · have hmod : fits (a.toInt.fmod b.toInt) = true := fits_fmod a.toInt (toInt_eq_zero.not.mp hb)
    rw [isRight_error hrun, Problem.kind, promised_eq_overflow, hmod]
    exact iff_of_false Bool.noConfusion fun hn => h (hfits.mpr hn)

/-- The powers of zero, one and minus one fit. -/
theorem fits_pow_of_small {a : Int} (ha : a = 0 ∨ a = 1 ∨ a = -1) (n : Nat) : fits (a ^ n) = true := by
  have hpow : a ^ n = 0 ∨ a ^ n = 1 ∨ a ^ n = -1 := by
    rcases ha with rfl | rfl | rfl
    · rcases Nat.eq_zero_or_pos n with rfl | hn
      · exact .inr (.inl rfl)
      · exact .inl (zero_pow hn.ne')
    · exact .inr (.inl (one_pow n))
    · exact .inr (neg_one_pow_eq_or Int n)
  rcases hpow with h | h | h <;> rw [h] <;> rfl

/-- Large powers of other numbers do not. -/
theorem not_fits_pow {a : Int} (ha : ¬(a = 0 ∨ a = 1 ∨ a = -1)) {n : Nat} (hn : 64 ≤ n) :
    fits (a ^ n) = false := by
  have hbase : 2 ≤ a.natAbs := by omega
  have hlarge : 2 ^ 64 ≤ (a ^ n).natAbs := by
    rw [Int.natAbs_pow]
    exact (Nat.pow_le_pow_right (by decide) hn).trans (Nat.pow_le_pow_left hbase n)
  rw [Bool.eq_false_iff, ne_eq, fits_iff]
  omega

/-- With an exponent of 32 bits, a power is found if it fits. -/
theorem intPower_eq_fit (a : Int) {n : Nat} (hn : n < 2 ^ 32) : intPower a n = fit (a ^ n) := by
  unfold intPower
  rw [if_neg (by omega)]
  by_cases hsame : a = 0 ∨ a = 1
  · rw [if_pos (by simpa using hsame)]
    refine congrArg fit ?_
    split_ifs with hzero
    · rw [hzero, pow_zero]
    · rcases hsame with rfl | rfl
      · exact (zero_pow hzero).symm
      · exact (one_pow n).symm
  rw [if_neg (by simpa using hsame)]
  by_cases hminus : a = -1
  · rw [if_pos hminus, hminus]
    refine congrArg fit ?_
    split_ifs with heven
    · exact (Even.neg_one_pow (Nat.even_iff.mpr heven)).symm
    · exact (Odd.neg_one_pow (Nat.odd_iff.mpr (by omega))).symm
  rw [if_neg hminus]
  split_ifs with hlarge
  · have hover : fits (a ^ n) = false := not_fits_pow (by tauto) hlarge
    rw [fit, hover]
    rfl
  · rfl

theorem pow_right_iff {a b : Whole} (hb : 0 ≤ b.toInt) :
    (pow (w := w) a b hb).IsRight (.ok (a.toInt ^ b.toInt.toNat)) ↔ ¬(pow (w := w) a b hb).Slips := by
  have hslips : (pow (w := w) a b hb).Slips ↔
      (a.toInt = 0 ∨ a.toInt = 1 ∨ a.toInt = -1) ∧ 2 ^ 32 ≤ b.toInt :=
    ⟨fun h => by cases h with | pow _ ha hlarge => exact ⟨ha, hlarge⟩, fun h => .pow hb h.1 h.2⟩
  have hrun : (pow (w := w) a b hb).run = (Value.int <$> intPower a.toInt b.toInt.toNat).map (·, w) := by
    rw [run, binary_value, intBinary]
    exact congrArg _ (if_neg (not_lt.mpr hb))
  rw [hslips]
  rcases Nat.lt_or_ge b.toInt.toNat (2 ^ 32) with hsmall | hlarge
  · rw [intPower_eq_fit a.toInt hsmall] at hrun
    exact iff_of_true (isRight_fit hrun) (by omega)
  · have hover : intPower a.toInt b.toInt.toNat = .error .overflow := if_pos hlarge
    rw [hover] at hrun
    rw [isRight_error hrun, Problem.kind, promised_eq_overflow]
    by_cases ha : a.toInt = 0 ∨ a.toInt = 1 ∨ a.toInt = -1
    · rw [fits_pow_of_small ha]
      exact iff_of_false Bool.noConfusion fun h => h ⟨ha, by omega⟩
    · exact iff_of_true (not_fits_pow ha (by omega)) fun h => ha h.1

theorem negate_right (a : Whole) : (negate (w := w) a).IsRight (.ok (-a.toInt)) := by
  refine isRight_fit ?_
  cases a <;> rfl

theorem plus_right (a : Whole) : (plus (w := w) a).IsRight (.ok a.toInt) := by
  have hrun : (plus (w := w) a).run = .ok (.int a.word, w) := by
    cases a <;> rfl
  rw [isRight_ok hrun, promised_eq_ok]
  rfl

/-! ### Functions -/

/-- The absolute value of a 64-bit integer is one, but for the least. -/
theorem toInt_absolute_iff (n : Int64) : (if n < 0 then -n else n).toInt = |n.toInt| ↔ n.toInt ≠ -2 ^ 63 := by
  have hlo := n.le_toInt
  have hhi := n.toInt_lt
  split_ifs with h
  · have hneg := lt_zero_iff.mp h
    rw [abs_of_neg hneg, Int64.toInt_neg]
    by_cases hleast : n.toInt = -2 ^ 63
    · rw [hleast]
      decide
    · exact iff_of_true (Int.bmod_eq_of_le (by omega) (by omega)) hleast
  · have hpos := lt_zero_iff.not.mp h
    rw [abs_of_nonneg (by omega)]
    exact iff_of_true rfl (by omega)

theorem abs_right_iff (a : Whole) : (abs (w := w) a).IsRight (.ok |a.toInt|) ↔ ¬(abs (w := w) a).Slips := by
  have hslips : (abs (w := w) a).Slips ↔ a.toInt = -2 ^ 63 :=
    ⟨fun h => by cases h with | abs ha => exact ha, .abs⟩
  have hrun : (abs (w := w) a).run = .ok (.int (if a.word < 0 then -a.word else a.word), w) := by
    cases a <;> rfl
  rw [isRight_ok hrun, promised_eq_ok, hslips]
  exact toInt_absolute_iff a.word

/-- A number is saturated to itself, if it fits. -/
theorem toInt_saturate_iff (n : Int) : (saturate n).toInt = n ↔ fits n = true := by
  have hsaturated : (saturate n).toInt = max (-0x8000000000000000) (min n 0x7FFFFFFFFFFFFFFF) :=
    Int64.toInt_ofInt_of_le (by omega) (by omega)
  rw [hsaturated, fits_iff]
  omega

theorem run_ofFloat {f : Float} {q : ℚ} (hf : floatValue? f = some q) :
    (ofFloat (w := w) f q hf).run = .ok (.int (saturate (towardZero q)), w) := by
  rw [← truncate_eq hf]
  change (toInt (.float f)).map (·, w) = _
  rw [toInt, if_pos (isFinite_of_value hf)]
  rfl

theorem ofFloat_right_iff {f : Float} {q : ℚ} (hf : floatValue? f = some q) :
    (ofFloat (w := w) f q hf).IsRight (.ok (towardZero q)) ↔ ¬(ofFloat (w := w) f q hf).Slips := by
  have hslips : (ofFloat (w := w) f q hf).Slips ↔ fits (towardZero q) = false :=
    ⟨fun h => by cases h with | ofFloat _ hx => exact hx, .ofFloat hf⟩
  rw [isRight_ok (run_ofFloat hf), promised_eq_ok, toInt_saturate_iff, hslips, Bool.not_eq_false]

theorem toInt_text (identity : Nat) (s : List Char) :
    toInt (.str identity s) = match Decimal.readInt? (essence s) with
      | some n =>
        if fits n then .ok (.int (Int64.ofInt n)) else .error (.badIntText (String.ofList (showText s)))
      | none => .error (.badIntText (String.ofList (showText s))) := rfl

theorem ofText_right_iff (identity : Nat) {s : List Char} (h : IsNumeral s n) :
    (ofText (w := w) identity s).IsRight (.ok n) ↔ ¬(ofText (w := w) identity s).Slips := by
  have hslips : (ofText (w := w) identity s).Slips ↔ fits n = false := by
    constructor
    · intro hs
      cases hs with
      | ofText _ h' hn => exact h.unique h' ▸ hn
    · exact .ofText identity h
  have hrun : (ofText (w := w) identity s).run = Except.map (·, w) (if fits n then .ok (.int (Int64.ofInt n))
      else .error (.badIntText (String.ofList (showText s)))) := by
    change (toInt (.str identity s)).map (·, w) = _
    rw [toInt_text, readInt?_eq_some.mpr h]
  rw [hslips, Bool.not_eq_false]
  split_ifs at hrun with hfits
  · obtain ⟨hlo, hhi⟩ := fits_iff.mp hfits
    rw [isRight_ok hrun, promised_eq_ok]
    exact iff_of_true (Int64.toInt_ofInt_of_le hlo hhi) hfits
  · rw [isRight_error hrun, promised, if_neg hfits]
    exact iff_of_false (fun heq => nomatch heq) hfits

theorem ofMalformed_right (identity : Nat) {s : List Char} (h : ∀ n, ¬ IsNumeral s n) :
    (ofText (w := w) identity s).IsRight (.error .valueError) := by
  have hnone : Decimal.readInt? (essence s) = none := by
    rw [Option.eq_none_iff_forall_ne_some]
    exact fun n hn => h n (readInt?_eq_some.mp hn)
  have hrun : (ofText (w := w) identity s).run = .error (.badIntText (String.ofList (showText s))) := by
    change (toInt (.str identity s)).map (·, w) = _
    rw [toInt_text, hnone]
    rfl
  rw [isRight_error hrun]
  rfl

/-- The first items of a list are none, or its head and the first items of its tail. -/
theorem forall_prefix_cons {a : Whole} {as : List Whole} {P : List Whole → Prop} :
    (∀ part, part <+: a :: as → P part) ↔ P [] ∧ ∀ part, part <+: as → P (a :: part) := by
  constructor
  · intro h
    exact ⟨h [] List.nil_prefix, fun part hpart => h _ (List.prefix_cons_inj a |>.mpr hpart)⟩
  · rintro ⟨hnil, hcons⟩ part hpart
    rcases List.prefix_cons_iff.mp hpart with rfl | ⟨rest, rfl, hrest⟩
    · exact hnil
    · exact hcons rest hrest

/-- The sum of the first items of a list, added to what came before. -/
def total (t : Int) (part : List Whole) : Int := t + (part.map Whole.toInt).sum

theorem total_cons (t : Int) (a : Whole) (part : List Whole) : total t (a :: part) = total (t + a.toInt) part := by
  rw [total, total, List.map_cons, List.sum_cons, Int.add_assoc]

theorem sumOf_cons (t : Int64) (a : Whole) (vs : List Value) (w : World) :
    sumOf (.int t) (a.value :: vs) w =
      if fits (t.toInt + a.toInt) then sumOf (.int (Int64.ofInt (t.toInt + a.toInt))) vs w else .error .overflow := by
  change (binary .add (Whole.int t).value a.value w >>= fun found => sumOf found.1 vs found.2) = _
  rw [binary_value]
  change ((Value.int <$> fit (t.toInt + a.toInt)).map (·, w) >>= _) = _
  rw [fit]
  split_ifs <;> rfl

/-- **A sum is found item by item,** so that the sum of any first items must fit. -/
theorem sumOf_eq (t : Int64) (items : List Whole) (w : World) :
    ((∀ part, part <+: items → fits (total t.toInt part) = true) →
        sumOf (.int t) (items.map Whole.value) w = .ok (.int (Int64.ofInt (total t.toInt items)), w)) ∧
      (¬(∀ part, part <+: items → fits (total t.toInt part) = true) →
        sumOf (.int t) (items.map Whole.value) w = .error .overflow) := by
  have hnil (t : Int64) : total t.toInt [] = t.toInt := Int.add_zero t.toInt
  induction items generalizing t with
  | nil =>
    refine ⟨fun _ => ?_, fun h => absurd (fun part hpart => ?_) h⟩
    · rw [hnil, Int64.ofInt_toInt]
      rfl
    · rw [List.prefix_nil.mp hpart, hnil]
      exact fits_toInt t
  | cons a as ih =>
    rw [List.map_cons, sumOf_cons, forall_prefix_cons, hnil]
    simp only [total_cons, fits_toInt t, true_and]
    split_ifs with hfits
    · obtain ⟨hlo, hhi⟩ := fits_iff.mp hfits
      have ih := ih (Int64.ofInt (t.toInt + a.toInt))
      rwa [Int64.toInt_ofInt_of_le hlo hhi] at ih
    · refine ⟨fun h => absurd ?_ hfits, fun _ => rfl⟩
      exact Int.add_zero (t.toInt + a.toInt) ▸ h [] List.nil_prefix

theorem sum_right_iff {r : Ref} {items : List Whole} (hr : w.list r = items.map Whole.value) :
    (sum r items hr).IsRight (.ok (items.map Whole.toInt).sum) ↔ ¬(sum r items hr).Slips := by
  have htotal (part : List Whole) : total (0 : Int64).toInt part = (part.map Whole.toInt).sum :=
    Int.zero_add _
  have hrun : (sum r items hr).run = sumOf (.int 0) (items.map Whole.value) w := by
    rw [← hr]
    rfl
  obtain ⟨hall, hsome⟩ := sumOf_eq 0 items w
  simp only [htotal] at hall hsome
  by_cases h : ∀ part, part <+: items → fits (part.map Whole.toInt).sum = true
  · have hfits := h items List.prefix_rfl
    obtain ⟨hlo, hhi⟩ := fits_iff.mp hfits
    rw [isRight_ok (hrun.trans (hall h)), promised_eq_ok]
    refine iff_of_true (Int64.toInt_ofInt_of_le hlo hhi) fun hslips => ?_
    cases hslips with
    | sum _ _ hpart hover _ => exact Bool.false_ne_true (hover.symm.trans (h _ hpart))
  · rw [isRight_error (hrun.trans (hsome h)), Problem.kind, promised_eq_overflow]
    simp only [not_forall, Bool.not_eq_true] at h
    obtain ⟨part, hpart, hover⟩ := h
    cases hfits : fits (items.map Whole.toInt).sum with
    | false =>
      refine iff_of_true rfl fun hslips => ?_
      cases hslips with
      | sum _ _ _ _ hwhole => exact Bool.false_ne_true (hfits.symm.trans hwhole)
    | true => exact iff_of_false Bool.noConfusion fun h => h (.sum r hr hpart hover hfits)

theorem len_right_iff {start stop step : Int64} (hstep : step ≠ 0) {n : Nat} (h : IsLength start stop step n) :
    (len (w := w) start stop step hstep).IsRight (.ok n) ↔ ¬(len (w := w) start stop step hstep).Slips := by
  have hslips : (len (w := w) start stop step hstep).Slips ↔ LengthSlips start stop step :=
    ⟨fun h => by cases h with | len _ h => exact h, .len hstep⟩
  have hrun : (len (w := w) start stop step hstep).run = .ok (.int (rangeLength start stop step), w) := rfl
  rw [isRight_ok hrun, promised_eq_ok, hslips]
  exact rangeLength_eq_iff hstep h

/-! ## All calculations -/

/-- Every calculation has an exact outcome. -/
theorem exists_exact (c : Calculation w) : ∃ x, c.Exact x := by
  cases c with
  | add a b => exact ⟨_, .add a b⟩
  | sub a b => exact ⟨_, .sub a b⟩
  | mul a b => exact ⟨_, .mul a b⟩
  | floorDiv a b =>
    by_cases hb : b.toInt = 0
    · exact ⟨_, .floorDivZero a hb⟩
    · exact ⟨_, .floorDiv a hb⟩
  | mod a b =>
    by_cases hb : b.toInt = 0
    · exact ⟨_, .modZero a hb⟩
    · exact ⟨_, .mod a hb⟩
  | pow a b hb => exact ⟨_, .pow a b hb⟩
  | negate a => exact ⟨_, .negate a⟩
  | plus a => exact ⟨_, .plus a⟩
  | abs a => exact ⟨_, .abs a⟩
  | ofFloat f q hf => exact ⟨_, .ofFloat f q hf⟩
  | ofText identity s =>
    by_cases h : ∃ n, IsNumeral s n
    · obtain ⟨n, hn⟩ := h
      exact ⟨_, .ofText identity hn⟩
    · exact ⟨_, .ofMalformed identity (not_exists.mp h)⟩
  | sum r items hr => exact ⟨_, .sum r items hr⟩
  | len start stop step hstep =>
    obtain ⟨n, hn⟩ := exists_isLength start stop hstep
    exact ⟨_, .len hstep hn⟩

/-- There is only one. -/
theorem Exact.unique {y : Except ExceptionKind Int} (hx : c.Exact x) (hy : c.Exact y) : x = y := by
  cases hx with
  | floorDiv a hb =>
    cases hy with
    | floorDiv => rfl
    | floorDivZero _ hzero => exact absurd hzero hb
  | floorDivZero a hzero =>
    cases hy with
    | floorDiv _ hb => exact absurd hzero hb
    | floorDivZero => rfl
  | mod a hb =>
    cases hy with
    | mod => rfl
    | modZero _ hzero => exact absurd hzero hb
  | modZero a hzero =>
    cases hy with
    | mod _ hb => exact absurd hzero hb
    | modZero => rfl
  | ofText identity h =>
    cases hy with
    | ofText _ h' => rw [h.unique h']
    | ofMalformed _ h' => exact absurd h (h' _)
  | ofMalformed identity h =>
    cases hy with
    | ofText _ h' => exact absurd h' (h _)
    | ofMalformed => rfl
  | len hstep h =>
    cases hy with
    | len _ h' => rw [h.unique hstep h']
  | _ =>
    cases hy
    rfl

/-- A calculation is right about its exact outcome unless it slips. -/
theorem isRight_iff (h : c.Exact x) : c.IsRight x ↔ ¬ c.Slips := by
  cases h with
  | add a b => exact iff_of_true (isRight_fit (binary_value .add a b)) (by rintro ⟨⟩)
  | sub a b => exact iff_of_true (isRight_fit (binary_value .sub a b)) (by rintro ⟨⟩)
  | mul a b => exact iff_of_true (isRight_fit (binary_value .mul a b)) (by rintro ⟨⟩)
  | floorDiv a hb => exact iff_of_true (floorDiv_right hb) (by rintro ⟨⟩)
  | @floorDivZero a b hb =>
    have hrun : (floorDiv (w := w) a b).run = .error (.zeroDivision false .floorDiv) := by
      rw [run, binary_value, intBinary]
      exact congrArg _ (if_pos hb)
    rw [isRight_error hrun]
    exact iff_of_true rfl (by rintro ⟨⟩)
  | mod a hb => exact mod_right_iff hb
  | @modZero a b hb =>
    have hrun : (mod (w := w) a b).run = .error (.zeroDivision false .mod) := by
      rw [run, binary_value, intBinary]
      exact congrArg _ (if_pos hb)
    rw [isRight_error hrun]
    refine iff_of_true rfl fun h => ?_
    cases h with
    | mod _ hone =>
      rw [hb] at hone
      cases hone
  | pow a b hb => exact pow_right_iff hb
  | negate a => exact iff_of_true (negate_right a) (by rintro ⟨⟩)
  | plus a => exact iff_of_true (plus_right a) (by rintro ⟨⟩)
  | abs a => exact abs_right_iff a
  | ofFloat f q hf => exact ofFloat_right_iff hf
  | ofText identity h => exact ofText_right_iff identity h
  | ofMalformed identity h =>
    refine iff_of_true (ofMalformed_right identity h) fun hs => ?_
    cases hs with
    | ofText _ h' _ => exact h _ h'
  | sum r items hr => exact sum_right_iff hr
  | len hstep h => exact len_right_iff hstep h

end Calculation

/-- **Which calculations are right:** each has one exact outcome, and gives what should come of it unless it
is one of those that slip. -/
theorem calculation_right_iff {w : World} (c : Calculation w) :
    ∃ x, c.Exact x ∧ (∀ y, c.Exact y → y = x) ∧ (c.IsRight x ↔ ¬ c.Slips) := by
  obtain ⟨x, hx⟩ := c.exists_exact
  exact ⟨x, hx, fun y hy => hy.unique hx, Calculation.isRight_iff hx⟩

/-- **A double beyond 64 bits does not overflow.** Ten to the power of 19 becomes the greatest integer. -/
theorem large_float_saturates :
    ∃ hf : floatValue? (Decimal.toFloat ⟨false, 1, 19⟩) = some (10 ^ 19),
      (Calculation.ofFloat (w := .empty) _ _ hf).Exact (.ok (10 ^ 19)) ∧
        (Calculation.ofFloat (w := .empty) _ _ hf).run = .ok (.int 0x7FFFFFFFFFFFFFFF, .empty) ∧
        ¬(Calculation.ofFloat (w := .empty) _ _ hf).IsRight (.ok (10 ^ 19)) := by
  have hf : floatValue? (Decimal.toFloat ⟨false, 1, 19⟩) = some (10 ^ 19) := by
    have hunpack : (Decimal.toFloat ⟨false, 1, 19⟩).toModel.unpack =
        .finite .positive 4882812500000000 11 (by decide) := rfl
    rw [floatValue?, hunpack]
    change some (((4882812500000000 : Int) : ℚ) * 2 ^ (11 : Int)) = some (10 ^ 19)
    norm_num
  have hexact : towardZero (10 ^ 19) = 10 ^ 19 := by
    norm_num [towardZero]
  have hrun := Calculation.run_ofFloat (w := .empty) hf
  rw [hexact] at hrun
  refine ⟨hf, hexact ▸ .ofFloat _ _ hf, hrun, ?_⟩
  rw [Calculation.isRight_ok hrun, Calculation.promised_eq_ok]
  decide

end Transcript.Lang
