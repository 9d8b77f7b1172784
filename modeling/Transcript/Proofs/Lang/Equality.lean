import Transcript.Proofs.Lang.Depth

/-!
# What makes values equal

Equality goes down into lists and tuples with so many levels left. Without the levels, it is a relation: texts
and numbers are equal if what they say is, lists and tuples if their items are, one by one, and a list equals
itself whatever its items are.

Results:
* `World.Equal.step`: in which ways a value that can be ordered equals another one.
* `World.EqualStep.equal`: in all of these ways it does.
-/

namespace Transcript.Lang

/-- **Equal values** of a world. -/
def World.Equal (w : World) (a b : Value) : Prop := w.equal? a b = some true

theorem equal_eq_ok {w w' : World} {a b : Value} {c : Bool} :
    equal a b w = .ok (c, w') ↔ w.equal? a b = some c ∧ w' = w := by
  change Op.ofOption (w.equal? a b) w = _ ↔ _
  cases w.equal? a b with
  | none => exact ⟨nofun, fun h => nomatch h.1⟩
  | some b =>
    constructor
    · intro h
      cases h
      exact ⟨rfl, rfl⟩
    · rintro ⟨h, rfl⟩
      cases h
      rfl

theorem equal_eq_ok_true {w : World} {a b : Value} : equal a b w = .ok (true, w) ↔ w.Equal a b :=
  equal_eq_ok.trans (and_iff_left rfl)

theorem equal_bind_eq_ok {β : Type} {w : World} {a b : Value} {f : Bool → Op β} {r : β × World} :
    (equal a b >>= f) w = .ok r ↔ ∃ c, w.equal? a b = some c ∧ f c w = .ok r := by
  change (Op.ofOption (w.equal? a b) >>= f) w = _ ↔ _
  cases w.equal? a b with
  | none => exact ⟨nofun, fun ⟨_, h, _⟩ => nomatch h⟩
  | some c =>
    constructor
    · exact fun h => ⟨c, rfl, h⟩
    · rintro ⟨_, hc, h⟩
      cases hc
      exact h

namespace Value

/-- Whether a value can be ordered: truth values, integers, texts, bytes, lists and tuples can. Doubles can as
well, which are left out. -/
def isSortable : Value → Bool
  | .bool _ | .int _ | .str .. | .bytes _ | .list _ | .tuple .. => true
  | _ => false

/-- Whether a value is a double. -/
def isDouble : Value → Bool
  | .float _ => true
  | _ => false

theorem asInt?_isSome_of_asFloat? {a : Value} {f : Float} (h : a.asFloat? = some f) (ha : a.isDouble = false) :
    a.asInt?.isSome = true := by
  cases a with
  | bool b => rfl
  | int n => rfl
  | float f => cases ha
  | _ => cases h

end Value

namespace World

variable {w : World}

theorem equalValue_str (i j : Nat) (s t : List Char) : w.equal? (.str i s) (.str j t) = some (s == t) := by
  rw [World.equal?, World.equalDepth, Lang.equal?]

theorem equalValue_bytes (s t : List UInt8) : w.equal? (.bytes s) (.bytes t) = some (s == t) := by
  rw [World.equal?, World.equalDepth, Lang.equal?]

theorem equalValue_number {a b : Value} {m n : Int64} (ha : a.asInt? = some m) (hb : b.asInt? = some n) :
    w.equal? a b = some (m == n) := by
  have hnumbers : equalNumbers a b = (m == n) := by
    unfold equalNumbers
    rw [ha, hb]
  refine equalValue_eq_some.mpr ⟨1, Eq.trans ?_ (congrArg some hnumbers)⟩
  unfold Lang.equal?
  cases a with
  | bool x => rfl
  | int x => rfl
  | _ => cases ha

/-! ## One by one -/

/-- Items that are equal one by one are so with some levels. -/
theorem exists_allPairs? {xs ys : List Value} :
    List.Forall₂ w.Equal xs ys ↔ ∃ n, allPairs? (Lang.equal? n w) xs ys = some true := by
  constructor
  · intro h
    induction h with
    | nil => exact ⟨0, rfl⟩
    | @cons x y xs ys hxy _ ih =>
      obtain ⟨m, hm⟩ := equalValue_eq_some.mp hxy
      obtain ⟨n, hn⟩ := ih
      refine ⟨max m n, ?_⟩
      have hfirst : Lang.equal? (max m n) w x y = some true :=
        (equal?_descent w).mono (x := (x, y)) hm (Nat.le_max_left m n)
      have hrest : allPairs? (Lang.equal? (max m n) w) xs ys = some true :=
        allPairs?_of_imp hn fun x' _ y' _ b hb =>
          (equal?_descent w).mono (x := (x', y')) hb (Nat.le_max_right m n)
      rw [allPairs?, hfirst]
      exact hrest
  · rintro ⟨n, h⟩
    induction xs generalizing ys with
    | nil =>
      cases ys with
      | nil => exact .nil
      | cons y ys => cases h
    | cons x xs ih =>
      cases ys with
      | nil => cases h
      | cons y ys =>
        obtain ⟨c, hc, h⟩ := Option.bind_eq_some_iff.mp h
        cases c with
        | false => cases h
        | true => exact .cons (equalValue_eq_some.mpr ⟨n, hc⟩) (ih h)

/-- Two lists of items are equal if they are the same, or one by one. -/
theorem exists_equalItems {same : Bool} {xs ys : List Value} :
    (∃ n, equal?.equalItems n w same xs ys = some true) ↔ same = true ∨ List.Forall₂ w.Equal xs ys := by
  unfold equal?.equalItems
  cases same with
  | true => exact iff_of_true ⟨0, rfl⟩ (.inl rfl)
  | false =>
    rw [exists_allPairs?]
    simp only [Bool.false_eq_true, if_false, false_or]
    refine exists_congr fun n => ?_
    by_cases hlength : xs.length = ys.length
    · rw [if_neg (not_not.mpr hlength)]
    · rw [if_pos hlength]
      refine iff_of_false (fun h => nomatch h) fun h => hlength ?_
      exact (exists_allPairs?.mpr ⟨n, h⟩).length_eq

theorem equal_list_iff {r s : Ref} :
    w.Equal (.list r) (.list s) ↔ r = s ∨ List.Forall₂ w.Equal (w.list r) (w.list s) := by
  have hstep : w.Equal (.list r) (.list s) ↔
      ∃ n, equal?.equalItems n w (r == s) (w.list r) (w.list s) = some true := by
    rw [Equal, equalValue_eq_some]
    constructor
    · rintro ⟨n, h⟩
      refine ⟨n, ?_⟩
      have hmore := (equal?_descent w).mono (x := (.list r, .list s)) h (Nat.le_succ n)
      rwa [Lang.equal?] at hmore
    · rintro ⟨n, h⟩
      exact ⟨n + 1, by rwa [Lang.equal?]⟩
  rw [hstep, exists_equalItems, beq_iff_eq]

theorem equal_tuple_iff {i j : Nat} {xs ys : List Value} :
    w.Equal (.tuple i xs) (.tuple j ys) ↔ List.Forall₂ w.Equal xs ys := by
  have hstep : w.Equal (.tuple i xs) (.tuple j ys) ↔ ∃ n, equal?.equalItems n w false xs ys = some true := by
    rw [Equal, equalValue_eq_some]
    constructor
    · rintro ⟨n, h⟩
      refine ⟨n, ?_⟩
      have hmore := (equal?_descent w).mono (x := (.tuple i xs, .tuple j ys)) h (Nat.le_succ n)
      rwa [Lang.equal?] at hmore
    · rintro ⟨n, h⟩
      exact ⟨n + 1, by rwa [Lang.equal?]⟩
  rw [hstep, exists_equalItems]
  simp

/-! ## The ways to be equal -/

/-- **The ways to be equal** for values other than doubles. -/
inductive EqualStep (w : World) : Value → Value → Prop
  /-- Texts with the same characters. -/
  | text (i j : Nat) (s : List Char) : EqualStep w (.str i s) (.str j s)
  /-- The same bytes. -/
  | bytes (s : List UInt8) : EqualStep w (.bytes s) (.bytes s)
  /-- One list. -/
  | same (r : Ref) : EqualStep w (.list r) (.list r)
  /-- Lists with equal items. -/
  | list {r s : Ref} (h : List.Forall₂ w.Equal (w.list r) (w.list s)) : EqualStep w (.list r) (.list s)
  /-- Tuples with equal items. -/
  | tuple {i j : Nat} {xs ys : List Value} (h : List.Forall₂ w.Equal xs ys) :
      EqualStep w (.tuple i xs) (.tuple j ys)
  /-- The same number. -/
  | number {a b : Value} {n : Int64} (ha : a.asInt? = some n) (hb : b.asInt? = some n) : EqualStep w a b
  /-- Neither of the values can be ordered. -/
  | other {a b : Value} (ha : a.isSortable = false) (hb : b.isSortable = false) : EqualStep w a b

/-- With one level, equality of numbers is found. -/
theorem equalNumbers_of_equal {a b : Value} (h : w.Equal a b)
    (hone : Lang.equal? 1 w a b = some (equalNumbers a b)) : equalNumbers a b = true :=
  Option.some.inj ((equalValue_eq_some.mpr ⟨1, hone⟩).symm.trans h)

/-- Values that are equal as numbers are the same integer, where there are no doubles. -/
theorem EqualStep.of_numbers {a b : Value} (h : equalNumbers a b = true) (ha : a.isDouble = false)
    (hb : b.isDouble = false) : EqualStep w a b := by
  unfold equalNumbers at h
  split at h
  · rename_i x y hx hy
    rw [beq_iff_eq.mp h] at hx
    exact .number hx hy
  · rename_i hnone
    split at h
    · rename_i x y hx hy
      obtain ⟨m, hm⟩ := Option.isSome_iff_exists.mp (Value.asInt?_isSome_of_asFloat? hx ha)
      obtain ⟨n, hn⟩ := Option.isSome_iff_exists.mp (Value.asInt?_isSome_of_asFloat? hy hb)
      exact absurd hn (hnone m n hm)
    · cases h

/-- **Values that are equal are so in one of these ways,** if none of them is a double. -/
theorem Equal.step {a b : Value} (h : w.Equal a b) (ha : a.isDouble = false) (hb : b.isDouble = false) :
    EqualStep w a b := by
  have hnumbers (hone : Lang.equal? 1 w a b = some (equalNumbers a b)) : EqualStep w a b :=
    .of_numbers (equalNumbers_of_equal h hone) ha hb
  unfold Lang.equal? at hnumbers
  cases a with
  | str i s =>
    cases b with
    | str j t =>
      obtain rfl : s = t := beq_iff_eq.mp (Option.some.inj ((equalValue_str i j s t).symm.trans h))
      exact .text i j s
    | _ => exact hnumbers rfl
  | bytes s =>
    cases b with
    | bytes t =>
      obtain rfl : s = t := beq_iff_eq.mp (Option.some.inj ((equalValue_bytes s t).symm.trans h))
      exact .bytes s
    | _ => exact hnumbers rfl
  | list r =>
    cases b with
    | list s =>
      rcases equal_list_iff.mp h with rfl | h
      · exact .same r
      · exact .list h
    | _ => exact hnumbers rfl
  | tuple i xs =>
    cases b with
    | tuple j ys => exact .tuple (equal_tuple_iff.mp h)
    | _ => exact hnumbers rfl
  | bool x => exact hnumbers rfl
  | int x => exact hnumbers rfl
  | float f => cases ha
  | _ =>
    -- The first value cannot be ordered: where the second one can, the two are compared as numbers.
    cases hsort : b.isSortable with
    | false => exact .other rfl hsort
    | true =>
      cases b with
      | bool y => exact hnumbers rfl
      | int y => exact hnumbers rfl
      | str j t => exact hnumbers rfl
      | bytes t => exact hnumbers rfl
      | list s => exact hnumbers rfl
      | tuple j ys => exact hnumbers rfl
      | _ => cases hsort

/-- **In each of these ways values are equal,** if one of them can be ordered. -/
theorem EqualStep.equal {a b : Value} (h : EqualStep w a b) (ha : a.isSortable = true) : w.Equal a b := by
  cases h with
  | text i j s => exact (equalValue_str i j s s).trans (congrArg some (beq_self_eq_true s))
  | bytes s => exact (equalValue_bytes s s).trans (congrArg some (beq_self_eq_true s))
  | same r => exact equal_list_iff.mpr (.inl rfl)
  | list h => exact equal_list_iff.mpr (.inr h)
  | tuple h => exact equal_tuple_iff.mpr h
  | number ha hb => exact (equalValue_number ha hb).trans (congrArg some (beq_self_eq_true _))
  | other hno => exact absurd ha (by rw [hno]; exact Bool.false_ne_true)

end World

end Transcript.Lang
