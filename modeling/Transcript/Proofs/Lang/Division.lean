import Transcript.Lang.Container
import Mathlib.Data.Rat.Floor
import Mathlib.Tactic.Linarith

/-!
# Division

A quotient of integers is rounded down, and the remainder has the sign of the divisor. Both are found
from the division of 64-bit integers, which rounds toward zero. Where it is not exact and the signs
differ, one is taken from its quotient, and the divisor is added to its remainder. The length of a range is a
quotient as well, rounded up.

Results:
* `IsDivision.floor_eq`: a quotient whose remainder has the sign of the divisor is rounded down.
* `stepQuotient_eq`, `stepRemainder_eq`: quotient and remainder by these steps, none of which leaves 64 bits.
* `division_law`: what the operators give.
* `isLength_iff`, `rangeLength_eq_iff`: the length of a range, and for which ranges it is found.
-/

namespace Transcript.Lang

/-! ## Integers of 64 bits -/

theorem fits_iff {n : Int} : fits n = true ↔ -2 ^ 63 ≤ n ∧ n < 2 ^ 63 := by
  unfold fits
  rw [Bool.and_eq_true, decide_eq_true_iff, decide_eq_true_iff]
  rfl

theorem fits_toInt (a : Int64) : fits a.toInt = true := fits_iff.mpr ⟨a.le_toInt, a.toInt_lt⟩

/-- A number that a 64-bit integer has fits. -/
theorem fit_of_toInt {n : Int} {a : Int64} (h : a.toInt = n) : fit n = .ok a := by
  subst h
  rw [fit, if_pos (fits_toInt a), Int64.ofInt_toInt]

theorem toInt_eq_zero {a : Int64} : a.toInt = 0 ↔ a = 0 := Int64.toInt_inj (y := 0)

/-! ## The law of division -/

/-- **A quotient and a remainder** that has the sign of the divisor. -/
structure IsDivision (a b q r : Int) : Prop where
  /-- The quotient times the divisor and the remainder give the dividend back. -/
  eq : a = q * b + r
  /-- The remainder is zero or has the sign of the divisor. -/
  sign : r = 0 ∨ r.sign = b.sign
  /-- The remainder is less than the divisor. -/
  lt : |r| < |b|

section

variable {a b q r : Int}

/-- Such a remainder lies between zero and the divisor. -/
theorem isDivision_iff :
    IsDivision a b q r ↔ a = q * b + r ∧ (0 ≤ r ∧ r < b ∨ b < r ∧ r ≤ 0) := by
  constructor
  · rintro ⟨heq, hsign, hlt⟩
    refine ⟨heq, ?_⟩
    rcases lt_trichotomy b 0 with hb | rfl | hb
    · rw [Int.sign_eq_neg_one_of_neg hb, Int.sign_eq_neg_one_iff_neg] at hsign
      rw [abs_of_neg hb, abs_lt] at hlt
      omega
    · rw [abs_zero] at hlt
      exact absurd hlt (not_lt.mpr (abs_nonneg r))
    · rw [Int.sign_eq_one_of_pos hb, Int.sign_eq_one_iff_pos] at hsign
      rw [abs_of_pos hb, abs_lt] at hlt
      omega
  · rintro ⟨heq, ⟨h0, hb⟩ | ⟨hb, h0⟩⟩
    · refine ⟨heq, ?_, by rwa [abs_of_nonneg h0, abs_of_pos (h0.trans_lt hb)]⟩
      rw [Int.sign_eq_one_of_pos (h0.trans_lt hb), Int.sign_eq_one_iff_pos]
      omega
    · refine ⟨heq, ?_, by rw [abs_of_nonpos h0, abs_of_neg (hb.trans_le h0)]; omega⟩
      rw [Int.sign_eq_neg_one_of_neg (hb.trans_le h0), Int.sign_eq_neg_one_iff_neg]
      omega

/-- **The quotient is rounded down.** -/
theorem IsDivision.floor_eq (h : IsDivision a b q r) : ⌊(a : ℚ) / b⌋ = q := by
  obtain ⟨rfl, hr⟩ := isDivision_iff.mp h
  have hpart : (b : ℚ) ≠ 0 ∧ 0 ≤ (r : ℚ) / b ∧ (r : ℚ) / b < 1 := by
    rcases hr with ⟨h0, hb⟩ | ⟨hb, h0⟩
    · have hpos : (0 : ℚ) < b := by exact_mod_cast h0.trans_lt hb
      exact ⟨hpos.ne', div_nonneg (by exact_mod_cast h0) hpos.le, (div_lt_one hpos).mpr (by exact_mod_cast hb)⟩
    · have hneg : (b : ℚ) < 0 := by exact_mod_cast hb.trans_le h0
      exact ⟨hneg.ne, div_nonneg_of_nonpos (by exact_mod_cast h0) hneg.le,
        (div_lt_one_of_neg hneg).mpr (by exact_mod_cast hb)⟩
  have hsplit : ((q * b + r : ℤ) : ℚ) / b = q + (r : ℚ) / b := by
    push_cast
    rw [add_div, mul_div_cancel_right₀ _ hpart.1]
  rw [hsplit, Int.floor_intCast_add, Int.floor_eq_zero_iff.mpr hpart.2, add_zero]

/-- The quotient that is rounded down, with its remainder. -/
theorem isDivision_fdiv (a : Int) (hb : b ≠ 0) : IsDivision a b (a.fdiv b) (a.fmod b) := by
  refine isDivision_iff.mpr ⟨(Int.fdiv_mul_add_fmod a b).symm, ?_⟩
  rcases lt_or_gt_of_ne hb with hneg | hpos
  · have hfmod : a.fmod b = a % b + if 0 ≤ b ∨ b ∣ a then 0 else b := Int.fmod_eq_emod
    have h0 := Int.emod_nonneg a hb
    have hlt := Int.emod_lt_abs a hb
    rw [abs_of_neg hneg] at hlt
    split_ifs at hfmod with hdvd
    · have hexact : a % b = 0 := Int.emod_eq_zero_of_dvd (hdvd.resolve_left (not_le.mpr hneg))
      exact .inr ⟨by omega, by omega⟩
    · rw [not_or] at hdvd
      have hpart : a % b ≠ 0 := fun h => hdvd.2 (Int.dvd_of_emod_eq_zero h)
      exact .inr ⟨by omega, by omega⟩
  · exact .inl ⟨Int.fmod_nonneg_of_pos a hpos, Int.fmod_lt_of_pos a hpos⟩

/-- There is one such quotient with one remainder. -/
theorem IsDivision.unique (h : IsDivision a b q r) {q' r' : Int} (h' : IsDivision a b q' r') :
    q = q' ∧ r = r' := by
  have hq : q = q' := h.floor_eq.symm.trans h'.floor_eq
  subst hq
  exact ⟨rfl, Int.add_left_cancel (h.eq.symm.trans h'.eq)⟩

/-! ### Division toward zero -/

/-- The remainder of a division toward zero has the sign of the dividend. -/
theorem tmod_bounds (a : Int) (hb : b ≠ 0) :
    (0 ≤ a → 0 ≤ a.tmod b) ∧ (a ≤ 0 → a.tmod b ≤ 0) ∧ -|b| < a.tmod b ∧ a.tmod b < |b| := by
  have habs : a.tmod b = a.tmod |b| := by
    rcases abs_choice b with h | h <;> rw [h]
    rw [Int.tmod_neg]
  refine ⟨Int.tmod_nonneg b, fun ha => ?_, ?_, ?_⟩
  · have hneg := Int.tmod_nonneg b (Int.neg_nonneg.mpr ha)
    rw [Int.neg_tmod] at hneg
    exact Int.neg_nonneg.mp hneg
  · rw [habs]
    exact Int.lt_tmod_of_pos a (abs_pos.mpr hb)
  · rw [habs]
    exact Int.tmod_lt_of_pos a (abs_pos.mpr hb)

/-- Division toward zero rounds down where it is exact or the signs are the same. -/
theorem isDivision_tdiv (hb : b ≠ 0) (h : a.tmod b = 0 ∨ (a < 0 ↔ b < 0)) :
    IsDivision a b (a.tdiv b) (a.tmod b) := by
  refine isDivision_iff.mpr ⟨(Int.tdiv_mul_add_tmod a b).symm, ?_⟩
  obtain ⟨hpos, hneg, hlo, hhi⟩ := tmod_bounds a hb
  rcases lt_or_gt_of_ne hb with hb | hb
  · rw [abs_of_neg hb] at hlo hhi
    omega
  · rw [abs_of_pos hb] at hlo hhi
    omega

/-- Elsewhere it rounds up, and one less is rounded down. -/
theorem isDivision_tdiv_sub_one (hb : b ≠ 0) (h : a.tmod b ≠ 0) (hsign : ¬(a < 0 ↔ b < 0)) :
    IsDivision a b (a.tdiv b - 1) (a.tmod b + b) := by
  have heq : a = (a.tdiv b - 1) * b + (a.tmod b + b) := by
    rw [Int.sub_mul, Int.one_mul]
    have := Int.tdiv_mul_add_tmod a b
    omega
  refine isDivision_iff.mpr ⟨heq, ?_⟩
  obtain ⟨hpos, hneg, hlo, hhi⟩ := tmod_bounds a hb
  rcases lt_or_gt_of_ne hb with hb | hb
  · rw [abs_of_neg hb] at hlo hhi
    omega
  · rw [abs_of_pos hb] at hlo hhi
    omega

end

/-! ## Division step by step -/

/-- What stops a division: a problem that is reported, or an unchecked step whose result does not fit. -/
inductive Fault
  /-- A problem is reported. -/
  | problem (p : Problem)
  /-- An unchecked result does not fit. -/
  | wrapped

/-- An unchecked step: the exact result, or one that does not fit. -/
def unchecked (exact : Int) (found : Int64) : Except Fault Int64 :=
  if found.toInt = exact then .ok found else .error .wrapped

/-- **The quotient,** from the one that is rounded toward zero. -/
def stepQuotient (a b : Int64) : Except Fault Int64 :=
  if b = 0 then .error (.problem (.zeroDivision false .floorDiv))
  else if a = Int64.minValue ∧ b = -1 then .error (.problem .overflow)
  else if a % b ≠ 0 ∧ decide (a < 0) ≠ decide (b < 0) then unchecked ((a / b).toInt - 1) (a / b - 1)
  else .ok (a / b)

/-- **The remainder,** from the one that has the sign of the dividend. -/
def stepRemainder (a b : Int64) : Except Fault Int64 :=
  if b = 0 then .error (.problem (.zeroDivision false .mod))
  else if a = Int64.minValue ∧ b = -1 then .error (.problem .overflow)
  else if a % b ≠ 0 ∧ decide (a % b < 0) ≠ decide (b < 0) then unchecked ((a % b).toInt + b.toInt) (a % b + b)
  else .ok (a % b)

/-- An unchecked step whose exact result fits gives it. -/
theorem unchecked_of_fits {n : Int} {m : Int64} (hn : fits n = true) (hm : m.toInt = n.bmod (2 ^ 64)) :
    unchecked n m = .ok m ∧ m.toInt = n := by
  obtain ⟨hlo, hhi⟩ := fits_iff.mp hn
  have hexact : m.toInt = n := hm.trans (Int.bmod_eq_of_le (by omega) (by omega))
  exact ⟨if_pos hexact, hexact⟩

section

variable {a b : Int64}

theorem lt_zero_iff : a < 0 ↔ a.toInt < 0 := Int64.lt_iff_toInt_lt

theorem zero_lt_iff : 0 < a ↔ 0 < a.toInt := Int64.lt_iff_toInt_lt

theorem toInt_div_of_checked (h : ¬(a = Int64.minValue ∧ b = -1)) : (a / b).toInt = a.toInt.tdiv b.toInt := by
  rcases not_and_or.mp h with ha | hb
  · exact Int64.toInt_div_of_ne_left a b ha
  · exact Int64.toInt_div_of_ne_right a b hb

/-- A quotient that is not exact is far from the ends of the range. -/
theorem fits_tdiv_sub_one (hb : b ≠ 0) (h : a.toInt.tmod b.toInt ≠ 0) :
    fits (a.toInt.tdiv b.toInt - 1) = true := by
  have hlarge : 2 ≤ b.toInt.natAbs := by
    by_contra hsmall
    have hone : b.toInt.natAbs ∣ a.toInt.natAbs := by
      have hzero := toInt_eq_zero.not.mpr hb
      rw [show b.toInt.natAbs = 1 by omega]
      exact Nat.one_dvd _
    exact h (Int.tmod_eq_zero_of_dvd (Int.natAbs_dvd_natAbs.mp hone))
  have hhalf : (a.toInt.tdiv b.toInt).natAbs ≤ a.toInt.natAbs / 2 := by
    rw [Int.natAbs_tdiv]
    exact Nat.div_le_div_left hlarge (by decide)
  have hlo := a.le_toInt
  have hhi := a.toInt_lt
  rw [fits_iff]
  omega

/-- The signs are compared where the division is not exact. -/
theorem rounds_up_iff {c : Int64} :
    (a % b ≠ 0 ∧ decide (c < 0) ≠ decide (b < 0)) ↔
      a.toInt.tmod b.toInt ≠ 0 ∧ ¬(c.toInt < 0 ↔ b.toInt < 0) := by
  have hpart : a % b ≠ 0 ↔ a.toInt.tmod b.toInt ≠ 0 := by
    rw [← Int64.toInt_mod]
    exact toInt_eq_zero.not.symm
  refine and_congr hpart (not_congr ?_)
  rw [decide_eq_decide, lt_zero_iff, lt_zero_iff]

/-- Below the divisor, the remainder has the sign of the dividend. -/
theorem tmod_lt_zero_iff {x y : Int} (hy : y ≠ 0) (h : x.tmod y ≠ 0) : x.tmod y < 0 ↔ x < 0 := by
  obtain ⟨hpos, hneg, -, -⟩ := tmod_bounds x hy
  omega

theorem stepQuotient_of_checked (hb : b ≠ 0) (h : ¬(a = Int64.minValue ∧ b = -1)) :
    ∃ q, stepQuotient a b = .ok q ∧ q.toInt = a.toInt.fdiv b.toInt := by
  have hy := toInt_eq_zero.not.mpr hb
  have hdiv := toInt_div_of_checked h
  have hfloor := isDivision_fdiv a.toInt hy
  rw [stepQuotient, if_neg hb, if_neg h]
  split_ifs with hup
  · obtain ⟨hpart, hsign⟩ := (rounds_up_iff).mp hup
    have hone : (1 : Int64).toInt = 1 := rfl
    obtain ⟨hok, hq⟩ := unchecked_of_fits (fits_tdiv_sub_one hb hpart)
      (by rw [Int64.toInt_sub, hdiv, hone] : (a / b - 1).toInt = _)
    rw [hdiv]
    exact ⟨_, hok, hq.trans ((isDivision_tdiv_sub_one hy hpart hsign).unique hfloor).1⟩
  · rw [rounds_up_iff, not_and_or, not_not, not_not] at hup
    exact ⟨_, rfl, hdiv.trans ((isDivision_tdiv hy hup).unique hfloor).1⟩

theorem stepRemainder_of_checked (hb : b ≠ 0) (h : ¬(a = Int64.minValue ∧ b = -1)) :
    ∃ r, stepRemainder a b = .ok r ∧ r.toInt = a.toInt.fmod b.toInt := by
  have hy := toInt_eq_zero.not.mpr hb
  have hfloor := isDivision_fdiv a.toInt hy
  rw [stepRemainder, if_neg hb, if_neg h]
  split_ifs with hup
  · obtain ⟨hpart, hsign⟩ := (rounds_up_iff).mp hup
    rw [Int64.toInt_mod, tmod_lt_zero_iff hy hpart] at hsign
    have hdivision := isDivision_tdiv_sub_one hy hpart hsign
    have hfits : fits ((a % b).toInt + b.toInt) = true := by
      have := (isDivision_iff.mp hdivision).2
      have hlo := b.le_toInt
      have hhi := b.toInt_lt
      rw [Int64.toInt_mod, fits_iff]
      omega
    obtain ⟨hok, hr⟩ := unchecked_of_fits hfits (Int64.toInt_add (a % b) b)
    rw [Int64.toInt_mod] at hr
    exact ⟨_, hok, hr.trans (hdivision.unique hfloor).2⟩
  · rw [rounds_up_iff, not_and_or, not_not, not_not, Int64.toInt_mod] at hup
    have hexact : a.toInt.tmod b.toInt = 0 ∨ (a.toInt < 0 ↔ b.toInt < 0) := by
      by_cases hpart : a.toInt.tmod b.toInt = 0
      · exact .inl hpart
      · exact .inr ((tmod_lt_zero_iff hy hpart).symm.trans (hup.resolve_left hpart))
    exact ⟨_, rfl, (Int64.toInt_mod a b).trans ((isDivision_tdiv hy hexact).unique hfloor).2⟩

/-- **The quotient is found step by step,** and no step leaves 64 bits. -/
theorem stepQuotient_eq (a b : Int64) :
    Value.int <$> stepQuotient a b = (intBinary .floorDiv a b).mapError .problem := by
  by_cases hb : b = 0
  · subst hb
    rfl
  by_cases h : a = Int64.minValue ∧ b = -1
  · obtain ⟨rfl, rfl⟩ := h
    rfl
  obtain ⟨q, hstep, hq⟩ := stepQuotient_of_checked hb h
  rw [hstep, intBinary, if_neg (toInt_eq_zero.not.mpr hb), fit_of_toInt hq]
  rfl

/-- **The remainder is found step by step,** and no step leaves 64 bits. -/
theorem stepRemainder_eq (a b : Int64) :
    Value.int <$> stepRemainder a b = (intBinary .mod a b).mapError .problem := by
  by_cases hb : b = 0
  · subst hb
    rfl
  by_cases h : a = Int64.minValue ∧ b = -1
  · obtain ⟨rfl, rfl⟩ := h
    rfl
  obtain ⟨q, -, hq⟩ := stepQuotient_of_checked hb h
  obtain ⟨r, hstep, hr⟩ := stepRemainder_of_checked hb h
  rw [hstep, intBinary, if_neg (toInt_eq_zero.not.mpr hb), ← hq, if_pos (fits_toInt q), fit_of_toInt hr]
  rfl

end

/-! ## What the operators give -/

/-- An integer that an operator gives was found step by step. -/
theorem step_of_binary {op : BinaryOp} {a b n : Int64} {w w' : World} {steps : Except Fault Int64}
    (heq : Value.int <$> steps = (intBinary op a b).mapError .problem)
    (h : binary op (.int a) (.int b) w = .ok (.int n, w')) : steps = .ok n := by
  change (intBinary op a b).map (·, w) = _ at h
  cases hfound : intBinary op a b with
  | error p =>
    rw [hfound] at h
    cases h
  | ok v =>
    rw [hfound] at h heq
    cases h
    cases steps with
    | error f => cases heq
    | ok m =>
      cases heq
      rfl

/-- **The law of division:** where a quotient and a remainder are given, they give the dividend back
together, the remainder has the sign of the divisor, the quotient is rounded down, and the steps by which
they are found stay within 64 bits. -/
theorem division_law {a b q r : Int64} {w w₁ w₂ : World}
    (hq : binary .floorDiv (.int a) (.int b) w = .ok (.int q, w₁))
    (hr : binary .mod (.int a) (.int b) w = .ok (.int r, w₂)) :
    a.toInt = q.toInt * b.toInt + r.toInt ∧ (r = 0 ∨ r.toInt.sign = b.toInt.sign) ∧
      |r.toInt| < |b.toInt| ∧ q.toInt = ⌊(a.toInt : ℚ) / b.toInt⌋ ∧
      stepQuotient a b = .ok q ∧ stepRemainder a b = .ok r := by
  have hstepq := step_of_binary (stepQuotient_eq a b) hq
  have hstepr := step_of_binary (stepRemainder_eq a b) hr
  have hb : b ≠ 0 := by
    rintro rfl
    cases hstepq
  have hchecked : ¬(a = Int64.minValue ∧ b = -1) := by
    rintro ⟨rfl, rfl⟩
    cases hstepq
  obtain ⟨q', hstepq', hfdiv⟩ := stepQuotient_of_checked hb hchecked
  obtain ⟨r', hstepr', hfmod⟩ := stepRemainder_of_checked hb hchecked
  obtain rfl : q' = q := Except.ok.inj (hstepq'.symm.trans hstepq)
  obtain rfl : r' = r := Except.ok.inj (hstepr'.symm.trans hstepr)
  have hdivision := isDivision_fdiv a.toInt (toInt_eq_zero.not.mpr hb)
  rw [← hfdiv, ← hfmod] at hdivision
  exact ⟨hdivision.eq, hdivision.sign.imp_left toInt_eq_zero.mp, hdivision.lt, hdivision.floor_eq.symm, hstepq,
    hstepr⟩

/-- Between the ends of the range: one is taken from the quotient, and the divisor is added to the remainder. -/
theorem division_law_ends :
    (-0x8000000000000000 : Int) = -2 * 0x7FFFFFFFFFFFFFFF + 0x7FFFFFFFFFFFFFFE ∧
      ⌊((-0x8000000000000000 : Int) : ℚ) / (0x7FFFFFFFFFFFFFFF : Int)⌋ = -2 ∧
      stepQuotient Int64.minValue Int64.maxValue = .ok (-2) ∧
      stepRemainder Int64.minValue Int64.maxValue = .ok 0x7FFFFFFFFFFFFFFE := by
  have hq : binary .floorDiv (.int Int64.minValue) (.int Int64.maxValue) World.empty =
      .ok (.int (-2), World.empty) := rfl
  have hr : binary .mod (.int Int64.minValue) (.int Int64.maxValue) World.empty =
      .ok (.int 0x7FFFFFFFFFFFFFFE, World.empty) := rfl
  obtain ⟨heq, -, -, hfloor, hstepq, hstepr⟩ := division_law hq hr
  exact ⟨heq, hfloor.symm, hstepq, hstepr⟩

/-! ## The length of a range

The items of a range start at its start, go on by its step, and lie before its end. How many there are is found
by dividing the distance of the ends by the step, rounding up. These steps are not checked.
-/

/-- How far a range goes, in the direction of its step. -/
def rangeDistance (start stop step : Int64) : Int :=
  if 0 < step then stop.toInt - start.toInt else start.toInt - stop.toInt

/-- Whether the item with a number lies before the end of a range. -/
def BeforeEnd (start stop step : Int64) (k : Nat) : Prop :=
  if 0 < step then start.toInt + k * step.toInt < stop.toInt else stop.toInt < start.toInt + k * step.toInt

/-- **The number of items of a range:** they are those before its end. -/
def IsLength (start stop step : Int64) (n : Nat) : Prop := ∀ k, k < n ↔ BeforeEnd start stop step k

/-- **Where a length comes out wrong:** distance and step together do not fit. For the least step and the
distance one, the wrapped result happens to be right. -/
def LengthSlips (start stop step : Int64) : Prop :=
  0 < rangeDistance start stop step ∧ 2 ^ 63 < rangeDistance start stop step + |step.toInt| ∧
    ¬(step.toInt = -2 ^ 63 ∧ rangeDistance start stop step = 1)

section

variable {start stop step : Int64}

theorem rangeDistance_up (h : 0 < step.toInt) : rangeDistance start stop step = stop.toInt - start.toInt :=
  if_pos (zero_lt_iff.mpr h)

theorem rangeDistance_down (h : step.toInt < 0) : rangeDistance start stop step = start.toInt - stop.toInt :=
  if_neg (zero_lt_iff.not.mpr (by omega))

theorem beforeEnd_iff (hstep : step ≠ 0) {k : Nat} :
    BeforeEnd start stop step k ↔ k * |step.toInt| < rangeDistance start stop step := by
  have hpos : 0 < step ↔ 0 < step.toInt := Int64.lt_iff_toInt_lt
  unfold BeforeEnd rangeDistance
  split_ifs with h
  · rw [abs_of_pos (hpos.mp h)]
    omega
  · have hneg : step.toInt < 0 := by
      have := toInt_eq_zero.not.mpr hstep
      have := hpos.not.mp h
      omega
    rw [abs_of_neg hneg, Int.mul_neg]
    omega

/-- The distance divided by the step, rounded up; a distance that is not positive leaves no items. -/
def steps (d s : Int) : Int := if 0 < d then (d + s - 1) / s else 0

theorem lt_steps_iff {d s : Int} (hs : 0 < s) {k : Nat} : (k : Int) < steps d s ↔ k * s < d := by
  have hk : 0 ≤ (k : Int) * s := Int.mul_nonneg (Int.natCast_nonneg k) hs.le
  unfold steps
  split_ifs with hd
  · rw [← Int.add_one_le_iff, Int.le_ediv_iff_mul_le hs, Int.add_mul, Int.one_mul]
    omega
  · omega

theorem steps_nonneg {d s : Int} (hs : 0 < s) : 0 ≤ steps d s := by
  unfold steps
  split_ifs
  · exact Int.ediv_nonneg (by omega) hs.le
  · exact le_rfl

/-- **The length is the distance divided by the step,** rounded up. -/
theorem isLength_iff (hstep : step ≠ 0) {n : Nat} :
    IsLength start stop step n ↔ (n : Int) = steps (rangeDistance start stop step) |step.toInt| := by
  have hs : 0 < |step.toInt| := abs_pos.mpr (toInt_eq_zero.not.mpr hstep)
  have hbefore (k : Nat) :
      BeforeEnd start stop step k ↔ (k : Int) < steps (rangeDistance start stop step) |step.toInt| := by
    rw [beforeEnd_iff hstep, lt_steps_iff hs]
  constructor
  · intro h
    have hnonneg : 0 ≤ steps (rangeDistance start stop step) |step.toInt| := steps_nonneg hs
    have hself := (h n).trans (hbefore n)
    have hlast := (h (steps (rangeDistance start stop step) |step.toInt|).toNat).trans (hbefore _)
    rw [Int.toNat_of_nonneg hnonneg] at hlast
    omega
  · intro h k
    rw [hbefore, ← h]
    exact Int.ofNat_lt.symm

/-- Every range has one length. -/
theorem exists_isLength (start stop : Int64) (hstep : step ≠ 0) : ∃ n, IsLength start stop step n :=
  ⟨_, (isLength_iff hstep).mpr (Int.toNat_of_nonneg (steps_nonneg (abs_pos.mpr (toInt_eq_zero.not.mpr hstep))))⟩

theorem IsLength.unique (hstep : step ≠ 0) {m n : Nat} (hm : IsLength start stop step m)
    (hn : IsLength start stop step n) : m = n :=
  Int.ofNat.inj (((isLength_iff hstep).mp hm).trans ((isLength_iff hstep).mp hn).symm)

/-! ### The length that is found -/

/-- A sum that wraps around is divided to less than it should be. -/
theorem tdiv_wrapped_lt {y s : Int} (hs : 0 < s) (hsmall : s ≤ 2 ^ 63) (hover : 2 ^ 63 ≤ y) :
    (y - 2 ^ 64).tdiv s < y / s := by
  rcases lt_or_ge (y - 2 ^ 64) 0 with hneg | hpos
  · have hle : 0 ≤ (-(y - 2 ^ 64)).tdiv s := Int.tdiv_nonneg (by omega) hs.le
    have hlt : 1 ≤ y / s := (Int.le_ediv_iff_mul_le hs).mpr (by omega)
    rw [Int.neg_tdiv] at hle
    omega
  · rw [Int.tdiv_eq_ediv_of_nonneg hpos, ← Int.add_one_le_iff, Int.le_ediv_iff_mul_le hs, Int.add_mul, Int.one_mul]
    have := Int.ediv_mul_le (y - 2 ^ 64) hs.ne'
    omega

/-- The wrapped division of a sum gives the right quotient only where the sum fits. -/
theorem tdiv_bmod_eq_iff {y s : Int} (hs : 0 < s) (hsmall : s ≤ 2 ^ 63) (hy : 0 ≤ y) (hlt : y < 2 ^ 64 + 2 ^ 63) :
    (y.bmod (2 ^ 64)).tdiv s = y / s ↔ y < 2 ^ 63 := by
  rcases lt_or_ge y (2 ^ 63) with hfits | hover
  · rw [Int.bmod_eq_of_le (by omega) (by omega), Int.tdiv_eq_ediv_of_nonneg hy]
    exact iff_of_true rfl hfits
  · have hwrap : y.bmod (2 ^ 64) = y - 2 ^ 64 := by
      rw [← Int.sub_bmod_right]
      exact Int.bmod_eq_of_le (by omega) (by omega)
    rw [hwrap]
    exact iff_of_false (tdiv_wrapped_lt hs hsmall hover).ne (not_lt.mpr hover)

/-- The least integer goes into no wrapped sum but that of itself and the distance one. -/
theorem tdiv_least_eq_zero {d : Int} (hd : 1 < d) (hlt : d < 2 ^ 64) :
    ((d + 2 ^ 63 - 1).bmod (2 ^ 64)).tdiv (-2 ^ 63) = 0 := by
  have hshift : d + 2 ^ 63 - 1 - (2 ^ 64 : Nat) = d - 2 ^ 63 - 1 := by omega
  rw [← Int.sub_bmod_right, hshift, Int.bmod_eq_of_le (by omega) (by omega), ← Int.natAbs_eq_zero,
    Int.natAbs_tdiv]
  exact Nat.div_eq_of_lt (by omega)

/-- By the least integer, only the distance one is divided to what it should be. -/
theorem tdiv_least_eq_iff {d : Int} (hd : 0 < d) (hlt : d < 2 ^ 64) :
    ((d + 2 ^ 63 - 1).bmod (2 ^ 64)).tdiv (-2 ^ 63) = (d + 2 ^ 63 - 1) / 2 ^ 63 ↔ d = 1 := by
  by_cases hone : d = 1
  · rw [hone]
    decide
  · rw [tdiv_least_eq_zero (by omega) hlt]
    omega

theorem toInt_rangeLength_up (h : 0 < step.toInt) :
    (rangeLength start stop step).toInt =
      if 0 < stop.toInt - start.toInt then
        ((stop.toInt - start.toInt + step.toInt - 1).bmod (2 ^ 64)).tdiv step.toInt
      else 0 := by
  have hone : (1 : Int64).toInt = 1 := rfl
  have hup : 0 < step := Int64.lt_iff_toInt_lt.mpr h
  have hdown : ¬ step < 0 := fun hneg => by
    have := lt_zero_iff.mp hneg
    omega
  have hnegOne : step ≠ -1 := by
    rintro rfl
    exact absurd h (by decide)
  have hends : start < stop ↔ 0 < stop.toInt - start.toInt := by
    rw [Int64.lt_iff_toInt_lt]
    omega
  unfold rangeLength
  simp only [hup, hdown, hends, decide_true, decide_false, Bool.true_and, Bool.false_and, decide_eq_true_eq,
    Bool.false_eq_true, if_false]
  split_ifs
  · rw [Int64.toInt_div_of_ne_right _ _ hnegOne, Int64.toInt_sub, Int64.toInt_add, Int64.toInt_sub, hone,
      Int.bmod_add_bmod, Int.bmod_sub_bmod]
  · rfl

theorem toInt_rangeLength_down (h : step.toInt < 0) :
    (rangeLength start stop step).toInt =
      if 0 < start.toInt - stop.toInt then
        ((start.toInt - stop.toInt - step.toInt - 1).bmod (2 ^ 64)).tdiv ((-step.toInt).bmod (2 ^ 64))
      else 0 := by
  have hone : (1 : Int64).toInt = 1 := rfl
  have hdown : step < 0 := lt_zero_iff.mpr h
  have hup : ¬ 0 < step := fun hpos => by
    have : 0 < step.toInt := Int64.lt_iff_toInt_lt.mp hpos
    omega
  have hnegOne : -step ≠ -1 := by
    intro hneg
    rw [Int64.neg_inj.mp hneg] at h
    exact absurd h (by decide)
  have hends : stop < start ↔ 0 < start.toInt - stop.toInt := by
    rw [Int64.lt_iff_toInt_lt]
    omega
  unfold rangeLength
  simp only [hup, hdown, hends, decide_true, decide_false, Bool.true_and, Bool.false_and, decide_eq_true_eq,
    Bool.false_eq_true, if_false]
  split_ifs
  · rw [Int64.toInt_div_of_ne_right _ _ hnegOne, Int64.toInt_neg, Int64.toInt_sub, Int64.toInt_sub,
      Int64.toInt_sub, hone, Int.bmod_sub_bmod, Int.sub_sub _ step.toInt, Int.bmod_sub_bmod, ← Int.sub_sub]
  · rfl

/-- **For which ranges the length that is found is right.** -/
theorem rangeLength_eq_iff (hstep : step ≠ 0) {n : Nat} (hn : IsLength start stop step n) :
    (rangeLength start stop step).toInt = n ↔ ¬ LengthSlips start stop step := by
  rw [(isLength_iff hstep).mp hn]
  have hlo := step.le_toInt
  have hhi := step.toInt_lt
  have hstart := start.le_toInt
  have hstart' := start.toInt_lt
  have hstop := stop.le_toInt
  have hstop' := stop.toInt_lt
  unfold LengthSlips steps rangeDistance
  rcases lt_or_gt_of_ne (toInt_eq_zero.not.mpr hstep) with hneg | hpos
  · have hup : ¬ 0 < step := fun hpos => by
      have : 0 < step.toInt := Int64.lt_iff_toInt_lt.mp hpos
      omega
    rw [toInt_rangeLength_down hneg, if_neg hup, abs_of_neg hneg]
    split_ifs with hd
    · by_cases hleast : step.toInt = -2 ^ 63
      · have hminus : (-step.toInt).bmod (2 ^ 64) = -2 ^ 63 := by
          rw [hleast]
          rfl
        have hs : -step.toInt = 2 ^ 63 := by
          rw [hleast]
          rfl
        rw [hminus, Int.sub_eq_add_neg (b := step.toInt), hs, tdiv_least_eq_iff hd (by omega)]
        omega
      · have hminus : (-step.toInt).bmod (2 ^ 64) = -step.toInt := Int.bmod_eq_of_le (by omega) (by omega)
        rw [hminus, Int.sub_eq_add_neg (b := step.toInt),
          tdiv_bmod_eq_iff (by omega) (by omega) (by omega) (by omega)]
        omega
    · exact iff_of_true rfl fun h => hd h.1
  · have hup : 0 < step := Int64.lt_iff_toInt_lt.mpr hpos
    rw [toInt_rangeLength_up hpos, if_pos hup, abs_of_pos hpos]
    split_ifs with hd
    · rw [tdiv_bmod_eq_iff hpos (by omega) (by omega) (by omega)]
      omega
    · exact iff_of_true rfl fun h => hd h.1

end

end Transcript.Lang
