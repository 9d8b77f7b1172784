import Transcript.Lang.Number
import Mathlib.Data.List.Induction
import Mathlib.Data.Nat.Digits.Defs
import Mathlib.Data.Rat.Floor

/-!
# Integers of texts and doubles

A text denotes an integer by digits behind an optional sign. Blanks may stand around it and underscores between,
which are taken off before it is read. A finite double is a rational number: a sign, and a mantissa times a
power of two. Cutting off what stands behind the point rounds toward zero.

Results:
* `readInt?_eq_some`: reading finds the integer that a text denotes.
* `floatParts_eq`: the parts of a finite double make up its number.
* `truncate_eq`: cutting off what stands behind the point, as far as 64 bits go.
-/

namespace Transcript.Lang

/-! ## Numerals -/

/-- The number that digits write. -/
def numeral (ds : List Char) : Nat := Nat.ofDigits 10 (ds.reverse.map fun c => c.toNat - '0'.toNat)

/-- What is read of a text that should write an integer: blanks around it and underscores do not count. -/
def essence (s : List Char) : List Char := (Text.trim s).filter (· != '_')

/-- **A numeral** of an integer: digits behind an optional sign. -/
inductive IsNumeral (s : List Char) : Int → Prop
  /-- There is no minus sign. -/
  | positive {ds : List Char} (h : essence s = ds ∨ essence s = '+' :: ds) (hne : ds ≠ [])
      (hall : ∀ c ∈ ds, c.isDigit = true) : IsNumeral s (numeral ds)
  /-- There is one. -/
  | negative {ds : List Char} (h : essence s = '-' :: ds) (hne : ds ≠ [])
      (hall : ∀ c ∈ ds, c.isDigit = true) : IsNumeral s (-(numeral ds : Int))

theorem digitsValue_eq (ds : List Char) : Decimal.digitsValue ds = numeral ds := by
  induction ds using List.reverseRecOn with
  | nil => rfl
  | append_singleton ds c ih =>
    rw [Decimal.digitsValue_append, ih, numeral, numeral, List.reverse_append, List.reverse_singleton,
      List.singleton_append, List.map_cons, Nat.ofDigits_cons]
    change _ * 10 + Decimal.digitValue c = _
    rw [Nat.mul_comm, Nat.add_comm]
    rfl

theorem splitSign_eq {s ds : List Char} {negative : Bool} (h : Decimal.splitSign s = (negative, ds)) :
    if negative then s = '-' :: ds else s = ds ∨ s = '+' :: ds := by
  unfold Decimal.splitSign at h
  split at h
  · cases h
    exact rfl
  · cases h
    exact .inr rfl
  · cases h
    exact .inl rfl

/-- Digits have no sign before them. -/
theorem splitSign_digits {ds : List Char} (hall : ∀ c ∈ ds, c.isDigit = true) :
    Decimal.splitSign ds = (false, ds) := by
  unfold Decimal.splitSign
  split
  · exact absurd (hall '-' List.mem_cons_self) (by decide)
  · exact absurd (hall '+' List.mem_cons_self) (by decide)
  · rfl

/-- **Reading finds the integer that a text denotes.** -/
theorem readInt?_eq_some {s : List Char} {n : Int} : Decimal.readInt? (essence s) = some n ↔ IsNumeral s n := by
  have hdigits (ds : List Char) : (ds.isEmpty || !ds.all Char.isDigit) = false ↔
      ds ≠ [] ∧ ∀ c ∈ ds, c.isDigit = true := by
    simp
  unfold Decimal.readInt?
  constructor
  · intro h
    obtain ⟨⟨negative, ds⟩, hsplit⟩ : ∃ parts, Decimal.splitSign (essence s) = parts := ⟨_, rfl⟩
    have hsign := splitSign_eq hsplit
    rw [hsplit] at h
    dsimp only at h
    split_ifs at h with hbad hneg
    · obtain ⟨hne, hall⟩ := (hdigits ds).mp (by simpa using hbad)
      rw [hneg, if_pos rfl] at hsign
      rw [← Option.some.inj h, digitsValue_eq]
      exact .negative hsign hne hall
    · obtain ⟨hne, hall⟩ := (hdigits ds).mp (by simpa using hbad)
      rw [if_neg hneg] at hsign
      rw [← Option.some.inj h, digitsValue_eq]
      exact .positive hsign hne hall
  · intro h
    cases h with
    | @positive ds h hne hall =>
      have hsplit : Decimal.splitSign (essence s) = (false, ds) := by
        rcases h with h | h
        · rw [h, splitSign_digits hall]
        · rw [h]
          rfl
      rw [hsplit]
      dsimp only
      rw [(hdigits ds).mpr ⟨hne, hall⟩, digitsValue_eq]
      rfl
    | @negative ds h hne hall =>
      rw [h]
      change (if ds.isEmpty || !ds.all Char.isDigit then none else some (-(Decimal.digitsValue ds : Int))) = _
      rw [(hdigits ds).mpr ⟨hne, hall⟩, digitsValue_eq]
      rfl

theorem IsNumeral.unique {s : List Char} {m n : Int} (hm : IsNumeral s m) (hn : IsNumeral s n) : m = n :=
  Option.some.inj ((readInt?_eq_some.mpr hm).symm.trans (readInt?_eq_some.mpr hn))

/-! ## The numbers of doubles -/

open Float.Model

/-- The number of an unpacked double. -/
def unpackedValue? : UnpackedFloat → Option ℚ
  | .zero _ => some 0
  | .finite s m e _ => some ((s.apply m : Int) * (2 : ℚ) ^ e)
  | .infinity _ | .notANumber => none

/-- **The number of a double,** if it is finite. -/
def floatValue? (f : Float) : Option ℚ := unpackedValue? f.toModel.unpack

/-- A number rounded toward zero. -/
def towardZero (x : ℚ) : Int := if 0 ≤ x then ⌊x⌋ else ⌈x⌉

/-! ### The fields of a double -/

section

variable (b : BitVec Format.binary64.numBits)

theorem toNat_unpackMantissa : (UnpackedFloat.unpackMantissa b).toNat = b.toNat % 2 ^ 52 := by
  simp [UnpackedFloat.unpackMantissa, BitVec.extractLsb_toNat]

theorem toNat_unpackExponent : (UnpackedFloat.unpackExponent b).toNat = b.toNat / 2 ^ 52 % 2 ^ 11 := by
  simp [UnpackedFloat.unpackExponent, BitVec.extractLsb_toNat, Nat.shiftRight_eq_div_pow]

theorem toNat_unpackSign : (UnpackedFloat.unpackSign b).toNat = b.toNat / 2 ^ 63 % 2 := by
  change (b.extractLsb 63 63).toNat = _
  rw [BitVec.extractLsb_toNat, Nat.shiftRight_eq_div_pow]

/-- The sign is the first bit. -/
theorem sign_apply_eq (m : Nat) :
    ((UnpackedFloat.Sign.ofBitVec (UnpackedFloat.unpackSign b)).apply m : Int) =
      if 2 ^ 63 ≤ b.toNat then -(m : Int) else m := by
  have hsign := toNat_unpackSign b
  have hlt : b.toNat < 2 ^ 64 := b.isLt
  unfold UnpackedFloat.Sign.ofBitVec
  by_cases h : 2 ^ 63 ≤ b.toNat
  · rw [if_pos h, if_neg]
    · rfl
    · intro hzero
      rw [hzero] at hsign
      change 0 = _ at hsign
      omega
  · rw [if_neg h, if_pos]
    · rfl
    · refine BitVec.eq_of_toNat_eq ?_
      rw [hsign]
      change _ = 0
      omega

variable {b}

/-- **A finite number is made of the fields of its bits.** -/
theorem unpackedValue?_unpack {x : ℚ} (h : unpackedValue? (UnpackedFloat.unpack Format.binary64 b) = some x)
    {parts : Decimal.Binary} (hparts : Decimal.Binary.ofBits (UInt64.ofBitVec b) = parts) :
    x = ((if 2 ^ 63 ≤ b.toNat then -(parts.mantissa : Int) else parts.mantissa : Int) : ℚ) *
      (2 : ℚ) ^ parts.step := by
  have hmantissa := toNat_unpackMantissa b
  have hexponent := toNat_unpackExponent b
  have hbits : (UInt64.ofBitVec b).toNat = b.toNat := rfl
  have hlow : b.toNat % 0x8000000000000000 % Decimal.runSize = b.toNat % 2 ^ 52 := by
    rw [Decimal.runSize]
    omega
  have hrun : b.toNat % 0x8000000000000000 / Decimal.runSize = b.toNat / 2 ^ 52 % 2 ^ 11 := by
    rw [Decimal.runSize]
    omega
  subst hparts
  unfold Decimal.Binary.ofBits
  dsimp only
  rw [hbits, hlow, hrun, ← hmantissa, ← hexponent]
  unfold UnpackedFloat.unpack at h
  by_cases hfull : UnpackedFloat.unpackExponent b = -1#_
  · rw [if_pos hfull] at h
    split at h <;> cases h
  rw [if_neg hfull] at h
  by_cases hleast : UnpackedFloat.unpackExponent b = 0#_
  · rw [if_pos hleast] at h
    by_cases hzero : UnpackedFloat.unpackMantissa b = 0#_
    · rw [dif_pos hzero] at h
      cases h
      rw [hleast, hzero]
      simp
    · rw [dif_neg hzero] at h
      cases h
      rw [sign_apply_eq, hleast]
      rfl
  · rw [if_neg hleast] at h
    cases h
    have hpos : (UnpackedFloat.unpackExponent b).toNat ≠ 0 := fun h => hleast (BitVec.eq_of_toNat_eq h)
    -- The first bit of the mantissa is not stored.
    have hfirst : (1#1 ++ UnpackedFloat.unpackMantissa b).toNat =
        (UnpackedFloat.unpackMantissa b).toNat + Decimal.runSize := by
      rw [BitVec.toNat_append, Nat.add_comm]
      exact (Nat.shiftLeft_add_eq_or_of_lt (UnpackedFloat.unpackMantissa b).isLt 1).symm
    rw [sign_apply_eq, if_neg hpos, hfirst]
    rfl

end

/-- **The parts of a finite double make up its number.** -/
theorem floatParts_eq {f : Float} {x : ℚ} (h : floatValue? f = some x) :
    x = ((if (floatParts f).1 then -((floatParts f).2.1 : Int) else (floatParts f).2.1 : Int) : ℚ) *
      (2 : ℚ) ^ (floatParts f).2.2 := by
  rw [unpackedValue?_unpack h rfl, floatParts]
  simp only [decide_eq_true_eq]
  rfl

theorem isFinite_of_value {f : Float} {x : ℚ} (h : floatValue? f = some x) : isFinite f = true := by
  have hnan : f.isNaN = f.toModel.unpack.isNaN := rfl
  have hinf : f.isInf = f.toModel.unpack.isInf := rfl
  unfold floatValue? at h
  rw [isFinite, hnan, hinf]
  cases hunpack : f.toModel.unpack with
  | infinity s =>
    rw [hunpack] at h
    cases h
  | notANumber =>
    rw [hunpack] at h
    cases h
  | zero s => rfl
  | finite s m e hm => rfl

/-! ### Cutting off what stands behind the point -/

theorem binaryRatio_eq (n : Nat) (e : Int) :
    ((Decimal.binaryRatio n e).1 : ℚ) / (Decimal.binaryRatio n e).2 = n * (2 : ℚ) ^ e := by
  cases e with
  | ofNat k =>
    change ((n * 2 ^ k : Nat) : ℚ) / (1 : Nat) = n * (2 : ℚ) ^ (k : Int)
    push_cast
    rw [div_one, zpow_natCast]
  | negSucc k =>
    change (n : ℚ) / (2 ^ (k + 1) : Nat) = n * (2 : ℚ) ^ Int.negSucc k
    push_cast
    rw [zpow_negSucc, div_eq_mul_inv]

/-- A ratio of natural numbers is divided toward zero, with either sign. -/
theorem towardZero_div (negative : Bool) (n d : Nat) :
    towardZero (if negative then -((n : ℚ) / d) else (n : ℚ) / d) =
      if negative then -((n / d : Nat) : Int) else ((n / d : Nat) : Int) := by
  have hfloor : ⌊(n : ℚ) / d⌋ = ((n / d : Nat) : Int) := by
    have := Rat.floor_intCast_div_natCast n d
    rwa [Int.cast_natCast] at this
  have hnonneg : 0 ≤ (n : ℚ) / d := by positivity
  cases negative with
  | false =>
    rw [if_neg Bool.false_ne_true, if_neg Bool.false_ne_true, towardZero, if_pos hnonneg, hfloor]
  | true =>
    rw [if_pos rfl, if_pos rfl, towardZero]
    split_ifs with h
    · have hzero : (n : ℚ) / d = 0 := le_antisymm (neg_nonneg.mp h) hnonneg
      rw [hzero, neg_zero, Int.floor_zero, ← hfloor, hzero, Int.floor_zero, neg_zero]
    · rw [Int.ceil_neg, hfloor]

/-- The nearest number that fits. -/
def saturate (n : Int) : Int64 := Int64.ofInt (max (-0x8000000000000000) (min n 0x7FFFFFFFFFFFFFFF))

/-- **Cutting off what stands behind the point** rounds toward zero, as far as 64 bits go. -/
theorem truncate_eq {f : Float} {x : ℚ} (h : floatValue? f = some x) : truncate f = saturate (towardZero x) := by
  have hx := floatParts_eq h
  unfold truncate
  obtain ⟨⟨negative, m, s⟩, hparts⟩ : ∃ parts, floatParts f = parts := ⟨_, rfl⟩
  obtain ⟨⟨num, den⟩, hnum⟩ : ∃ ratio, Decimal.binaryRatio m s = ratio := ⟨_, rfl⟩
  have hratio := binaryRatio_eq m s
  rw [hparts] at hx ⊢
  rw [hnum] at hratio
  dsimp only at hx hratio ⊢
  rw [hnum]
  have hsigned : x = if negative then -((num : ℚ) / den) else (num : ℚ) / den := by
    rw [hratio, hx]
    split_ifs <;> push_cast <;> ring
  rw [hsigned, towardZero_div]
  rfl

end Transcript.Lang
