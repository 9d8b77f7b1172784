import Transcript.Proofs.Lang.Sequence

/-!
# Membership in a range

Whether a value is an item of a range is found by one division, without making the items. For integers, the answer
is that of a search in the list of the items, even where the length of the range comes out wrong. A double that
equals an item is found by the search only. The steps of the division are not checked, and some overflow.

Results:
* `inRange_iff`: for integers, the division finds the items.
* `membership_law`: for which values the two ways agree, and for which integers the first one overflows.
* `double_not_found`: a double that only the search finds.
-/

namespace Transcript.Lang

section

variable {start stop step n : Int64}

/-! ## Ranges with items -/

/-- A sum that wraps around is smaller than the step. -/
theorem tdiv_bmod_nonpos {y s : Int} (hs : 0 < s) (hbound : s < 2 ^ 63) (hover : 2 ^ 63 ≤ y)
    (hlt : y < 2 ^ 64 + s) : (y.bmod (2 ^ 64)).tdiv s ≤ 0 := by
  have hwrap : y.bmod (2 ^ 64) = y - 2 ^ 64 := by
    rw [← Int.sub_bmod_right]
    exact Int.bmod_eq_of_le (by omega) (by omega)
  rw [hwrap]
  rcases lt_or_ge (y - 2 ^ 64) 0 with hneg | hpos
  · have hle : 0 ≤ (-(y - 2 ^ 64)).tdiv s := Int.tdiv_nonneg (by omega) hs.le
    rw [Int.neg_tdiv] at hle
    omega
  · exact (Int.tdiv_eq_zero_of_lt hpos (by omega)).le

/-- **Where the length comes out wrong,** no items come out. -/
theorem LengthSlips.toInt_rangeLength (h : LengthSlips start stop step) (hstep : step ≠ 0) :
    (rangeLength start stop step).toInt ≤ 0 := by
  obtain ⟨hd, hover, hspecial⟩ := h
  have hlo := step.le_toInt
  have hhi := step.toInt_lt
  have hstart := start.le_toInt
  have hstart' := start.toInt_lt
  have hstop := stop.le_toInt
  have hstop' := stop.toInt_lt
  rcases lt_or_gt_of_ne (toInt_eq_zero.not.mpr hstep) with hneg | hpos
  · rw [rangeDistance_down hneg] at hd hover hspecial
    rw [abs_of_neg hneg] at hover
    rw [toInt_rangeLength_down hneg, if_pos hd]
    by_cases hleast : step.toInt = -2 ^ 63
    · have hminus : (-step.toInt).bmod (2 ^ 64) = -2 ^ 63 := by
        rw [hleast]
        rfl
      have hsum : start.toInt - stop.toInt - step.toInt - 1 = start.toInt - stop.toInt + 2 ^ 63 - 1 := by omega
      rw [hminus, hsum, tdiv_least_eq_zero (by omega) (by omega)]
    · have hminus : (-step.toInt).bmod (2 ^ 64) = -step.toInt := Int.bmod_eq_of_le (by omega) (by omega)
      rw [hminus]
      exact tdiv_bmod_nonpos (by omega) (by omega) (by omega) (by omega)
  · rw [rangeDistance_up hpos] at hd hover hspecial
    rw [abs_of_pos hpos] at hover
    rw [toInt_rangeLength_up hpos, if_pos hd]
    exact tdiv_bmod_nonpos hpos (by omega) (by omega) (by omega)

/-- **A range with items** has its right length, and its steps up to each item fit. -/
theorem toInt_step {k : Nat} (hk : (k : Int) < (rangeLength start stop step).toInt) (hstep : step ≠ 0) :
    (Int64.ofNat k * step).toInt = k * step.toInt ∧ |k * step.toInt| < 2 ^ 63 := by
  have hslips : ¬ LengthSlips start stop step := fun h => by
    have := h.toInt_rangeLength hstep
    omega
  obtain ⟨n, hn⟩ := exists_isLength start stop hstep
  have hlength := (rangeLength_eq_iff hstep hn).mpr hslips
  have hbefore := (beforeEnd_iff hstep).mp ((hn k).mp (by omega))
  have hnonneg : (0 : Int) ≤ k := Int.natCast_nonneg k
  have hsize : |k * step.toInt| = k * |step.toInt| := by rw [abs_mul, abs_of_nonneg hnonneg]
  have hfits : |k * step.toInt| < 2 ^ 63 := by
    rw [hsize]
    rcases Nat.eq_zero_or_pos k with rfl | hpos
    · rw [Int.natCast_zero, Int.zero_mul]
      decide
    · -- A second item leaves no room for a slip: the distance is more than the step.
      have hle : |step.toInt| ≤ k * |step.toInt| := by
        have := Int.mul_le_mul_of_nonneg_right (show (1 : Int) ≤ k by omega) (abs_nonneg step.toInt)
        omega
      have hpos' : 0 < |step.toInt| := abs_pos.mpr (toInt_eq_zero.not.mpr hstep)
      unfold LengthSlips at hslips
      omega
  refine ⟨?_, hfits⟩
  have hwrapped : (Int64.ofNat k * step).toInt = (k * step.toInt).bmod (2 ^ 64) := by
    rw [Int64.toInt_mul, Int64.toInt_ofNat']
    simp
  obtain ⟨hlo, hhi⟩ := abs_lt.mp hfits
  rw [hwrapped]
  exact Int.bmod_eq_of_le (by omega) (by omega)

/-! ## The division finds the items -/

theorem mem_rangeItems_iff : n ∈ rangeItems start stop step ↔
    ∃ k : Nat, (k : Int) < (rangeLength start stop step).toInt ∧ start + Int64.ofNat k * step = n := by
  rw [rangeItems, List.mem_map]
  refine exists_congr fun k => and_congr_left fun _ => ?_
  rw [List.mem_range]
  omega

theorem inRange_eq_true_iff : inRange start stop step n = true ↔ (n - start) % step = 0 ∧
    0 ≤ ((n - start) / step).toInt ∧ ((n - start) / step).toInt < (rangeLength start stop step).toInt := by
  unfold inRange
  simp only [Bool.and_eq_true, beq_iff_eq, decide_eq_true_eq, Int64.le_iff_toInt_le, Int64.lt_iff_toInt_lt,
    Int64.toInt_zero, and_assoc]

/-- Where no remainder is left, the quotient gives the dividend back. -/
theorem div_mul_cancel_of_mod {a b : Int64} (h : a % b = 0) : a / b * b = a := by
  have hzero : a.toInt.tmod b.toInt = 0 := by rw [← Int64.toInt_mod, h, Int64.toInt_zero]
  have hexact : a.toInt.tdiv b.toInt * b.toInt = a.toInt := Int.tdiv_mul_cancel (Int.dvd_of_tmod_eq_zero hzero)
  rw [← Int64.toInt_inj, Int64.toInt_mul, Int64.toInt_div, Int.bmod_mul_bmod, hexact, Int64.toInt_bmod]

/-- **The division finds the items** of a range. -/
theorem inRange_iff (hstep : step ≠ 0) : inRange start stop step n = true ↔ n ∈ rangeItems start stop step := by
  rw [inRange_eq_true_iff, mem_rangeItems_iff]
  constructor
  · rintro ⟨hpart, hnonneg, hlt⟩
    refine ⟨((n - start) / step).toInt.toNat, by omega, ?_⟩
    have hword : Int64.ofNat ((n - start) / step).toInt.toNat = (n - start) / step := by
      rw [← Int64.ofInt_eq_ofNat, Int.toNat_of_nonneg hnonneg, Int64.ofInt_toInt]
    rw [hword, div_mul_cancel_of_mod hpart, Int64.add_comm, Int64.sub_add_cancel]
  · rintro ⟨k, hk, rfl⟩
    obtain ⟨hexact, hfits⟩ := toInt_step hk hstep
    obtain ⟨hlo, hhi⟩ := abs_lt.mp hfits
    have hoffset : start + Int64.ofNat k * step - start = Int64.ofNat k * step := by
      rw [Int64.add_comm, Int64.add_sub_cancel]
    have hzero := toInt_eq_zero.not.mpr hstep
    -- The offset of an item is never the least integer, which has no quotient by minus one.
    have hchecked : ¬(Int64.ofNat k * step = Int64.minValue ∧ step = -1) := by
      rintro ⟨hleast, -⟩
      rw [hleast] at hexact
      have hmin : Int64.minValue.toInt = -2 ^ 63 := rfl
      omega
    have hplace : (Int64.ofNat k * step / step).toInt = k := by
      rw [toInt_div_of_checked hchecked, hexact, Int.mul_tdiv_cancel _ hzero]
    rw [hoffset, hplace]
    refine ⟨?_, Int.natCast_nonneg k, hk⟩
    rw [← Int64.toInt_inj, Int64.toInt_mod, hexact, Int.mul_tmod_left, Int64.toInt_zero]

/-! ## Step by step -/

/-- An unchecked sum. -/
def stepAdd (a b : Int64) : Except Fault Int64 := unchecked (a.toInt + b.toInt) (a + b)

/-- An unchecked difference. -/
def stepSub (a b : Int64) : Except Fault Int64 := unchecked (a.toInt - b.toInt) (a - b)

theorem unchecked_of_not_fits {x : Int} {m : Int64} (hx : ¬ fits x = true) : unchecked x m = .error .wrapped := by
  refine if_neg fun hexact => hx ?_
  rw [← hexact]
  exact fits_toInt m

/-- **The length of a range,** step by step. -/
def stepLength (start stop step : Int64) : Except Fault Int64 :=
  if 0 < step && start < stop then do
    let sum ← stepAdd (← stepSub stop start) step
    let rest ← stepSub sum 1
    return rest / step
  else if step < 0 && stop < start then do
    let sum ← stepSub (← stepSub start stop) step
    let rest ← stepSub sum 1
    return rest / (← stepSub 0 step)
  else return 0

/-- **Membership of an integer in a range,** step by step. The least integer has no remainder by minus one. -/
def stepInRange (start stop step n : Int64) : Except Fault Bool := do
  let length ← stepLength start stop step
  let offset ← stepSub n start
  if offset = Int64.minValue ∧ step = -1 then throw .wrapped
  return offset % step == 0 && 0 ≤ offset / step && offset / step < length

/-- **Where the steps to a length overflow:** the sum of distance and step does not fit. -/
def LengthOverflows (start stop step : Int64) : Prop :=
  0 < rangeDistance start stop step ∧ 2 ^ 63 ≤ rangeDistance start stop step + |step.toInt|

theorem stepAdd_of_fits {a b : Int64} (h : fits (a.toInt + b.toInt) = true) :
    stepAdd a b = .ok (a + b) ∧ (a + b).toInt = a.toInt + b.toInt :=
  unchecked_of_fits h (Int64.toInt_add a b)

theorem stepSub_of_fits {a b : Int64} (h : fits (a.toInt - b.toInt) = true) :
    stepSub a b = .ok (a - b) ∧ (a - b).toInt = a.toInt - b.toInt :=
  unchecked_of_fits h (Int64.toInt_sub a b)

/-- **The length comes out** where its steps do not overflow. -/
theorem stepLength_of_fits (h : ¬ LengthOverflows start stop step) :
    stepLength start stop step = .ok (rangeLength start stop step) := by
  have hone : (1 : Int64).toInt = 1 := rfl
  have hlo := step.le_toInt
  unfold LengthOverflows at h
  unfold stepLength rangeLength
  split_ifs with hup hdown
  · obtain ⟨hpos, hends⟩ : 0 < step ∧ start < stop := by simpa using hup
    have hpos' : 0 < step.toInt := zero_lt_iff.mp hpos
    have hends' : start.toInt < stop.toInt := Int64.lt_iff_toInt_lt.mp hends
    rw [rangeDistance_up hpos', abs_of_pos hpos'] at h
    obtain ⟨hd, hdistance⟩ := stepSub_of_fits (a := stop) (b := start) (fits_iff.mpr (by omega))
    obtain ⟨hs, hsum⟩ := stepAdd_of_fits (a := stop - start) (b := step) (fits_iff.mpr (by omega))
    obtain ⟨hr, -⟩ := stepSub_of_fits (a := stop - start + step) (b := 1) (fits_iff.mpr (by omega))
    rw [hd, Except.ok_bind, hs, Except.ok_bind, hr]
    rfl
  · obtain ⟨hneg, hends⟩ : step < 0 ∧ stop < start := by simpa using hdown
    have hneg' : step.toInt < 0 := lt_zero_iff.mp hneg
    have hends' : stop.toInt < start.toInt := Int64.lt_iff_toInt_lt.mp hends
    rw [rangeDistance_down hneg', abs_of_neg hneg'] at h
    obtain ⟨hd, hdistance⟩ := stepSub_of_fits (a := start) (b := stop) (fits_iff.mpr (by omega))
    obtain ⟨hs, hsum⟩ := stepSub_of_fits (a := start - stop) (b := step) (fits_iff.mpr (by omega))
    obtain ⟨hr, -⟩ := stepSub_of_fits (a := start - stop - step) (b := 1) (fits_iff.mpr (by omega))
    obtain ⟨hb, -⟩ := stepSub_of_fits (a := 0) (b := step) (fits_iff.mpr (by rw [Int64.toInt_zero]; omega))
    rw [hd, Except.ok_bind, hs, Except.ok_bind, hr, Except.ok_bind, hb, Int64.zero_sub]
    rfl
  · rfl

/-- **The length overflows** where the sum does. -/
theorem stepLength_of_overflows (h : LengthOverflows start stop step) (hstep : step ≠ 0) :
    stepLength start stop step = .error .wrapped := by
  obtain ⟨hd, hover⟩ := h
  unfold stepLength
  rcases lt_or_gt_of_ne (toInt_eq_zero.not.mpr hstep) with hneg | hpos
  · rw [rangeDistance_down hneg] at hd hover
    rw [abs_of_neg hneg] at hover
    have hup : ¬ 0 < step := zero_lt_iff.not.mpr (by omega)
    have hends : stop < start := Int64.lt_iff_toInt_lt.mpr (by omega)
    rw [if_neg (by simp [hup]), if_pos (by simp [lt_zero_iff.mpr hneg, hends])]
    by_cases hfits : fits (start.toInt - stop.toInt) = true
    · obtain ⟨hd', hdistance⟩ := stepSub_of_fits hfits
      have hsum : stepSub (start - stop) step = .error .wrapped :=
        unchecked_of_not_fits (by rw [hdistance, fits_iff]; omega)
      rw [hd', Except.ok_bind, hsum]
      rfl
    · rw [stepSub, unchecked_of_not_fits hfits]
      rfl
  · rw [rangeDistance_up hpos] at hd hover
    rw [abs_of_pos hpos] at hover
    have hup : 0 < step := zero_lt_iff.mpr hpos
    have hends : start < stop := Int64.lt_iff_toInt_lt.mpr (by omega)
    rw [if_pos (by simp [hup, hends])]
    by_cases hfits : fits (stop.toInt - start.toInt) = true
    · obtain ⟨hd', hdistance⟩ := stepSub_of_fits hfits
      have hsum : stepAdd (stop - start) step = .error .wrapped :=
        unchecked_of_not_fits (by rw [hdistance, fits_iff]; omega)
      rw [hd', Except.ok_bind, hsum]
      rfl
    · rw [stepSub, unchecked_of_not_fits hfits]
      rfl

/-- **Where the steps to an answer overflow:** those to the length do, the integer and the start are too far from
each other, or the division of the least integer by minus one does. -/
def MembershipOverflows (start stop step n : Int64) : Prop :=
  LengthOverflows start stop step ∨ fits (n.toInt - start.toInt) = false ∨
    n.toInt - start.toInt = -2 ^ 63 ∧ step = -1

/-- **The answer comes out** where its steps do not overflow. -/
theorem stepInRange_of_fits (h : ¬ MembershipOverflows start stop step n) :
    stepInRange start stop step n = .ok (inRange start stop step n) := by
  obtain ⟨hlength, hfits, hchecked⟩ : _ ∧ _ ∧ _ := by simpa only [MembershipOverflows, not_or] using h
  obtain ⟨ho, hoffset⟩ := stepSub_of_fits (a := n) (b := start) (by simpa using hfits)
  have hmin : ¬(n - start = Int64.minValue ∧ step = -1) := by
    rintro ⟨hleast, hone⟩
    rw [hleast] at hoffset
    exact hchecked ⟨hoffset.symm, hone⟩
  rw [stepInRange, stepLength_of_fits hlength, Except.ok_bind, ho, Except.ok_bind, if_neg hmin]
  rfl

/-- **The answer overflows** where one of its steps does. -/
theorem stepInRange_of_overflows (h : MembershipOverflows start stop step n) (hstep : step ≠ 0) :
    stepInRange start stop step n = .error .wrapped := by
  by_cases hlength : LengthOverflows start stop step
  · rw [stepInRange, stepLength_of_overflows hlength hstep]
    rfl
  · rw [stepInRange, stepLength_of_fits hlength, Except.ok_bind]
    rcases h.resolve_left hlength with hfits | ⟨hleast, hone⟩
    · rw [stepSub, unchecked_of_not_fits (by simp [hfits])]
      rfl
    · obtain ⟨ho, hoffset⟩ := stepSub_of_fits (a := n) (b := start) (by rw [hleast]; rfl)
      have hmin : n - start = Int64.minValue := Int64.toInt_inj.mp (hoffset.trans hleast)
      rw [ho, Except.ok_bind, if_pos ⟨hmin, hone⟩]
      rfl

end

/-! ## The search -/

section

variable {start stop step : Int64} {w : World} {x : Value}

theorem equalValue_int (m : Int64) (x : Value) : w.equal? (.int m) x = some (equalNumbers (.int m) x) := by
  refine World.equalValue_eq_some.mpr ⟨1, ?_⟩
  unfold Lang.equal?
  rfl

/-- **The search** among integers. -/
theorem anyEqual_ints (x : Value) (ms : List Int64) (w : World) :
    anyEqual x (ms.map .int) w = .ok (ms.any fun m => equalNumbers (.int m) x, w) := by
  induction ms with
  | nil => rfl
  | cons m ms ih =>
    have hfirst : equal (.int m) x w = .ok (equalNumbers (.int m) x, w) :=
      equal_eq_ok.mpr ⟨equalValue_int m x, rfl⟩
    rw [List.map_cons, anyEqual, op_bind hfirst, List.any_cons]
    cases equalNumbers (.int m) x with
    | true => rfl
    | false => exact ih

/-- The list of the items of a range is searched. -/
theorem contains_list_range (name : String) (start stop step : Int64) (x : Value) (w : World) :
    ∃ l w', callBuiltin .list ⟨name, [.range start stop step], []⟩ w = .ok (l, w') ∧
      contains l x w' = .ok ((rangeItems start stop step).any fun m => equalNumbers (.int m) x, w') := by
  have hcheck : Arguments.check ⟨name, [.range start stop step], []⟩ 0 1 [] w = .ok ((), w) := rfl
  have hiterate : iterate (.range start stop step) w = .ok ((rangeItems start stop step).map .int, w) := rfl
  obtain ⟨r, w', hnew, -, -, -, hlist⟩ := w.newList_eq ((rangeItems start stop step).map .int)
  refine ⟨.list r, w', ?_, ?_⟩
  · rw [callBuiltin, op_bind hcheck]
    dsimp only
    rw [op_bind hiterate]
    exact hnew
  · have hitems : iterate (.list r) w' = .ok (w'.list r, w') := rfl
    change (iterate (.list r) >>= anyEqual x) w' = _
    rw [op_bind hitems, hlist]
    exact anyEqual_ints x _ w'

theorem contains_range (start stop step : Int64) (x : Value) (w : World) :
    contains (.range start stop step) x w = .ok (x.asInt?.any (inRange start stop step), w) := by
  unfold contains
  dsimp only
  cases x.asInt? <;> rfl

/-- **A double among the items:** one that equals an item of a range. -/
def DoubleAmong (start stop step : Int64) (x : Value) : Prop :=
  ∃ f, x = .float f ∧ ∃ m ∈ rangeItems start stop step, (floatOfInt m.toInt == f) = true

/-- The search finds an integer iff the division does. -/
theorem any_items_of_asInt? {n : Int64} (hx : x.asInt? = some n) (hstep : step ≠ 0) :
    ((rangeItems start stop step).any fun m => equalNumbers (.int m) x) = inRange start stop step n := by
  have hequal (m : Int64) : equalNumbers (.int m) x = (m == n) := by
    unfold equalNumbers
    rw [hx]
    rfl
  rw [Bool.eq_iff_iff, inRange_iff hstep, List.any_eq_true]
  simp only [hequal, beq_iff_eq, exists_eq_right]

/-- The search finds a value that is no integer iff it is a double among the items. -/
theorem any_items_of_none (hx : x.asInt? = none) :
    ((rangeItems start stop step).any fun m => equalNumbers (.int m) x) = true ↔
      DoubleAmong start stop step x := by
  rw [List.any_eq_true]
  constructor
  · rintro ⟨m, hm, hequal⟩
    cases x with
    | float f => exact ⟨f, rfl, m, hm, hequal⟩
    | bool b => cases hx
    | int n => cases hx
    | _ => cases hequal
  · rintro ⟨f, rfl, m, hm, hequal⟩
    exact ⟨m, hm, hequal⟩

/-- **Membership in a range,** by division and by search. The two agree unless the value is a double that equals
an item, which only the search finds. For an integer, the steps of the division give the answer unless one of them
overflows. -/
theorem membership_law (start stop step : Int64) (hstep : step ≠ 0) (x : Value) (name : String) (w : World) :
    ∃ fast slow l w', contains (.range start stop step) x w = .ok (fast, w) ∧
      callBuiltin .list ⟨name, [.range start stop step], []⟩ w = .ok (l, w') ∧
      contains l x w' = .ok (slow, w') ∧ (fast = slow ↔ ¬ DoubleAmong start stop step x) ∧
      (DoubleAmong start stop step x → fast = false ∧ slow = true) ∧
      ∀ n, x.asInt? = some n →
        (¬ MembershipOverflows start stop step n → stepInRange start stop step n = .ok fast) ∧
        (MembershipOverflows start stop step n → stepInRange start stop step n = .error .wrapped) := by
  obtain ⟨l, w', hlist, hsearch⟩ := contains_list_range name start stop step x w
  refine ⟨_, _, l, w', contains_range start stop step x w, hlist, hsearch, ?_⟩
  cases hx : x.asInt? with
  | some n =>
    have hno : ¬ DoubleAmong start stop step x := by
      rintro ⟨f, rfl, -⟩
      cases hx
    refine ⟨iff_of_true (any_items_of_asInt? hx hstep).symm hno, fun h => absurd h hno, ?_⟩
    rintro _ ⟨⟩
    exact ⟨stepInRange_of_fits, fun h => stepInRange_of_overflows h hstep⟩
  | none =>
    have hsearch : _ ↔ DoubleAmong start stop step x := any_items_of_none hx
    refine ⟨?_, fun h => ⟨rfl, hsearch.mpr h⟩, nofun⟩
    rw [← hsearch, Bool.not_eq_true]
    exact eq_comm

/-- Numbers in a range of three, found and not found. -/
theorem membership_law_three : (1 : Int64) ≠ 0 ∧
    ∃ fast slow l w', contains (.range 0 3 1) (.bool true) World.empty = .ok (fast, World.empty) ∧
      callBuiltin .list ⟨"list", [.range 0 3 1], []⟩ World.empty = .ok (l, w') ∧
      contains l (.bool true) w' = .ok (slow, w') ∧ (fast = slow ↔ ¬ DoubleAmong 0 3 1 (.bool true)) ∧
      (DoubleAmong 0 3 1 (.bool true) → fast = false ∧ slow = true) ∧
      ∀ n, (Value.bool true).asInt? = some n →
        (¬ MembershipOverflows 0 3 1 n → stepInRange 0 3 1 n = .ok fast) ∧
        (MembershipOverflows 0 3 1 n → stepInRange 0 3 1 n = .error .wrapped) :=
  ⟨by decide, membership_law 0 3 1 (by decide) (.bool true) "list" World.empty⟩

/-- **A double that only the search finds.** -/
theorem double_not_found :
    contains (.range 0 3 1) (.float 1.0) World.empty = .ok (false, World.empty) ∧
      ∃ l w', callBuiltin .list ⟨"list", [.range 0 3 1], []⟩ World.empty = .ok (l, w') ∧
        contains l (.float 1.0) w' = .ok (true, w') := by
  have hitems : rangeItems 0 3 1 = [0, 1, 2] := by decide
  have hequal : equalNumbers (.int 1) (.float 1.0) = true := by decide
  obtain ⟨l, w', hlist, hsearch⟩ := contains_list_range "list" 0 3 1 (.float 1.0) World.empty
  refine ⟨rfl, l, w', hlist, ?_⟩
  rw [hsearch, hitems]
  simp [hequal]

end

end Transcript.Lang
