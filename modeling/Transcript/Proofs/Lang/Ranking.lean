import Transcript.Proofs.Lang.Equality
import Mathlib.Data.List.Forall2
import Mathlib.Logic.Relation

/-!
# How values are ordered

Ordering two values goes down with so many levels left, may fail, and asks for equality at each item of a list.
Without doubles, it is a relation: texts and bytes are ordered by their first difference, numbers as integers,
lists and tuples by their first unequal items. Equality and order of any world, even one with values that
contain themselves, agree where both have answers.

Results:
* `order_iff`: ordering two values succeeds iff they are ordered, with any symbol, and changes nothing.
* `Ordered.eq_iff`: values are ordered as equal iff they are equal.
* `Ordered.compared`: values that are ordered both ways are so in opposite ways.
* `Compared.composes`: how a value is ordered before a third one follows from how both are before a second one.
-/

namespace Transcript.Lang

/-! ## The first difference -/

section

variable {α : Type} {cmp : α → α → Ordering}

theorem compareLists_eq (xs ys : List α) : compareLists cmp xs ys = List.compareLex cmp xs ys := by
  induction xs generalizing ys with
  | nil => cases ys <;> rfl
  | cons x xs ih =>
    cases ys with
    | nil => rfl
    | cons y ys =>
      rw [compareLists, List.compareLex_cons_cons, ih]
      cases cmp x y <;> rfl

end

section

variable {α : Type} (f : α → Nat)

instance transCmp_on : Std.TransCmp fun a b => compare (f a) (f b) := inferInstanceAs (Std.TransCmp (compareOn f))

theorem lawfulEqCmp_on (hf : Function.Injective f) : Std.LawfulEqCmp fun a b => compare (f a) (f b) where
  compare_self := compare_eq_iff_eq.mpr rfl
  eq_of_compare h := hf (compare_eq_iff_eq.mp h)

instance lawfulEqCmp_char : Std.LawfulEqCmp fun c d : Char => compare c.toNat d.toNat :=
  lawfulEqCmp_on Char.toNat fun _ _ h => Char.toNat_inj.mp h

instance lawfulEqCmp_byte : Std.LawfulEqCmp fun c d : UInt8 => compare c.toNat d.toNat :=
  lawfulEqCmp_on UInt8.toNat fun _ _ h => UInt8.toNat_inj.mp h

end

/-- **How orders compose:** what the order of two values and the order of the second and a third one say about
that of the first and the third one. -/
structure Composes (o₁ o₂ o₃ : Ordering) : Prop where
  /-- A value takes the place of an equal one on the left. -/
  left : o₁ = .eq → o₃ = o₂
  /-- A value takes the place of an equal one on the right. -/
  right : o₂ = .eq → o₃ = o₁
  /-- Less than less is less. -/
  less : o₁ = .lt → o₂ = .lt → o₃ = .lt

theorem composes_of_trans {α : Type} (cmp : α → α → Ordering) [Std.TransCmp cmp] (a b c : α) :
    Composes (cmp a b) (cmp b c) (cmp a c) where
  left h := Std.TransCmp.congr_left h
  right h := (Std.TransCmp.congr_right h).symm
  less := Std.TransCmp.lt_trans

/-- **The order of two lists** by their first difference: `E` tells which items are the same, `N` which are not,
and `R` how those are ordered. -/
inductive ListOrder {α : Type} (E N : α → α → Prop) (R : α → α → Ordering → Prop) :
    List α → List α → Ordering → Prop
  /-- One of the lists ends. -/
  | ends {xs ys : List α} (h : xs = [] ∨ ys = []) : ListOrder E N R xs ys (compare xs.length ys.length)
  /-- The first items are the same. -/
  | same {x y : α} {xs ys : List α} {o : Ordering} (hxy : E x y) (h : ListOrder E N R xs ys o) :
      ListOrder E N R (x :: xs) (y :: ys) o
  /-- The first items are not the same. -/
  | differ {x y : α} {xs ys : List α} {o : Ordering} (hxy : N x y) (h : R x y o) :
      ListOrder E N R (x :: xs) (y :: ys) o

namespace ListOrder

variable {α : Type} {E E' N N' : α → α → Prop} {R R' : α → α → Ordering → Prop} {xs ys zs : List α}
  {o o' o₁ o₂ o₃ : Ordering}

theorem imp_of_mem (h : ListOrder E N R xs ys o) (hE : ∀ x ∈ xs, ∀ y ∈ ys, E x y → E' x y)
    (hN : ∀ x ∈ xs, ∀ y ∈ ys, N x y → N' x y) (hR : ∀ x ∈ xs, ∀ y ∈ ys, ∀ o, R x y o → R' x y o) :
    ListOrder E' N' R' xs ys o := by
  induction h with
  | ends h => exact .ends h
  | @same x y xs ys o hxy _ ih =>
    refine .same (hE x List.mem_cons_self y List.mem_cons_self hxy) (ih ?_ ?_ ?_)
    · exact fun x hx y hy => hE x (List.mem_cons_of_mem _ hx) y (List.mem_cons_of_mem _ hy)
    · exact fun x hx y hy => hN x (List.mem_cons_of_mem _ hx) y (List.mem_cons_of_mem _ hy)
    · exact fun x hx y hy => hR x (List.mem_cons_of_mem _ hx) y (List.mem_cons_of_mem _ hy)
  | @differ x y xs ys o hxy h =>
    exact .differ (hN x List.mem_cons_self y List.mem_cons_self hxy)
      (hR x List.mem_cons_self y List.mem_cons_self o h)

theorem imp (h : ListOrder E N R xs ys o) (hE : ∀ {x y}, E x y → E' x y) (hN : ∀ {x y}, N x y → N' x y)
    (hR : ∀ {x y o}, R x y o → R' x y o) : ListOrder E' N' R' xs ys o :=
  h.imp_of_mem (fun _ _ _ _ => hE) (fun _ _ _ _ => hN) fun _ _ _ _ _ => hR

theorem of_forall₂ (h : List.Forall₂ E xs ys) : ListOrder E N R xs ys .eq := by
  induction h with
  | nil => exact .ends (.inl rfl)
  | cons hxy _ ih => exact .same hxy ih

/-- Lists are ordered as equal only if their items are the same. -/
theorem forall₂_of_eq (h : ListOrder E N R xs ys .eq) (hne : ∀ {x y}, N x y → ¬ R x y .eq) :
    List.Forall₂ E xs ys := by
  generalize ho : Ordering.eq = o at h
  induction h with
  | @ends xs ys h =>
    have hlength : xs.length = ys.length := compare_eq_iff_eq.mp ho.symm
    rcases h with rfl | rfl
    · rw [List.eq_nil_of_length_eq_zero hlength.symm]
      exact .nil
    · rw [List.eq_nil_of_length_eq_zero hlength]
      exact .nil
  | same hxy _ ih => exact .cons hxy (ih ho)
  | differ hxy h => exact absurd (ho ▸ h) (hne hxy)

/-- Lists whose items are the same are ordered as equal only. -/
theorem eq_of_forall₂ (h : ListOrder E N R xs ys o) (hE : List.Forall₂ E xs ys)
    (hne : ∀ {x y o}, N x y → R x y o → ¬ E x y) : o = .eq := by
  induction h with
  | ends => rw [hE.length_eq, compare_eq_iff_eq]
  | same _ _ ih =>
    cases hE with
    | cons _ hE => exact ih hE
  | differ hxy h =>
    cases hE with
    | cons hE _ => exact absurd hE (hne hxy h)

/-- A list is ordered before itself as equal only. -/
theorem eq_of_self (h : ListOrder E N R xs xs o) (hR : ∀ {x o}, R x x o → o = .eq) : o = .eq := by
  induction xs with
  | nil =>
    cases h
    rfl
  | cons x xs ih =>
    cases h with
    | ends => exact compare_eq_iff_eq.mpr rfl
    | same _ h => exact ih h
    | differ _ h => exact hR h

theorem swap (h : ListOrder E N R xs ys o) (hE : ∀ {x y}, E x y → E y x) (hN : ∀ {x y}, N x y → N y x)
    (hR : ∀ {x y o}, R x y o → R y x o.swap) : ListOrder E N R ys xs o.swap := by
  induction h with
  | @ends xs ys h =>
    rw [← Std.OrientedOrd.eq_swap]
    exact .ends h.symm
  | same hxy _ ih => exact .same (hE hxy) ih
  | differ hxy h => exact .differ (hN hxy) (hR h)

/-- Two lists have one order. -/
theorem unique (h : ListOrder E N R xs ys o) (h' : ListOrder E N R xs ys o') (hEN : ∀ {x y}, E x y → ¬ N x y)
    (hR : ∀ {x y o o'}, R x y o → R x y o' → o = o') : o = o' := by
  induction h with
  | ends h =>
    cases h' with
    | ends => rfl
    | same => rcases h with h | h <;> cases h
    | differ => rcases h with h | h <;> cases h
  | same hxy _ ih =>
    cases h' with
    | ends h => rcases h with h | h <;> cases h
    | same _ h' => exact ih h'
    | differ hxy' _ => exact absurd hxy' (hEN hxy)
  | differ hxy h =>
    cases h' with
    | ends h => rcases h with h | h <;> cases h
    | same hxy' _ => exact absurd hxy (hEN hxy')
    | differ _ h' => exact hR h h'

/-- **The orders of lists compose** if those of their items do. -/
theorem composes (hxy : ListOrder E N R xs ys o₁) (hyz : ListOrder E N R ys zs o₂) (hxz : ListOrder E N R xs zs o₃)
    (hE : ∀ {x y}, E x y → E y x) (hR : ∀ {x y o}, R x y o → R y x o.swap) (hne : ∀ {x y}, N x y → ¬ R x y .eq)
    (hcong : ∀ {x y z o o'}, E x y → R x z o → R y z o' → o = o')
    (htrans : ∀ {x y z o}, E x y → E y z → N x z → ¬ R x z o)
    (hcomp : ∀ {x y z o₁ o₂ o₃}, R x y o₁ → R y z o₂ → R x z o₃ → Composes o₁ o₂ o₃) : Composes o₁ o₂ o₃ := by
  have hneq {x y : α} {o : Ordering} (hxy : N x y) (h : R x y o) : o ≠ .eq := fun ho => hne hxy (ho ▸ h)
  induction hxy generalizing zs o₂ o₃ with
  | @ends xs ys h =>
    rcases h with rfl | rfl
    · obtain rfl : o₃ = compare 0 zs.length := by cases hxz; rfl
      cases hyz with
      | ends => exact composes_of_trans compare 0 ys.length zs.length
      | same => exact ⟨nofun, fun _ => rfl, fun _ _ => rfl⟩
      | differ => exact ⟨nofun, fun _ => rfl, fun _ _ => rfl⟩
    · obtain rfl : o₂ = compare 0 zs.length := by cases hyz; rfl
      cases hxz with
      | ends => exact composes_of_trans compare xs.length 0 zs.length
      | same => exact ⟨nofun, nofun, nofun⟩
      | differ => exact ⟨nofun, nofun, nofun⟩
  | same hxy h ih =>
    cases hyz with
    | ends hz =>
      obtain rfl : zs = [] := hz.resolve_left nofun
      obtain rfl : o₃ = .gt := by cases hxz; rfl
      exact ⟨fun _ => rfl, nofun, nofun⟩
    | same hyz' hyz =>
      cases hxz with
      | ends hz => rcases hz with hz | hz <;> cases hz
      | same _ hxz => exact ih hyz hxz
      | differ hxz' hxz => exact absurd hxz (htrans hxy hyz' hxz')
    | differ hyz' hyz =>
      cases hxz with
      | ends hz => rcases hz with hz | hz <;> cases hz
      | same hxz' _ => exact absurd hyz (htrans (hE hxy) hxz' hyz')
      | differ _ hxz =>
        obtain rfl := hcong hxy hxz hyz
        exact ⟨fun _ => rfl, fun h₂ => absurd h₂ (hneq hyz' hyz), fun _ h₂ => h₂⟩
  | differ hxy' hxy =>
    have h₁ := hneq hxy' hxy
    cases hyz with
    | ends hz =>
      obtain rfl : zs = [] := hz.resolve_left nofun
      exact ⟨fun h => absurd h h₁, nofun, nofun⟩
    | same hyz' hyz =>
      cases hxz with
      | ends hz => rcases hz with hz | hz <;> cases hz
      | same hxz' _ => exact absurd hxy (htrans hxz' (hE hyz') hxy')
      | differ _ hxz =>
        have hswap := hcong hyz' (hR hxy) (hR hxz)
        obtain rfl := Ordering.swap_inj.mp hswap
        exact ⟨fun h => absurd h h₁, fun _ => rfl, fun h _ => h⟩
    | differ hyz' hyz =>
      cases hxz with
      | ends hz => rcases hz with hz | hz <;> cases hz
      | same hxz' _ =>
        -- The first and the third item are the same: the two orders are opposite, and neither is that of equals.
        have hswap := hcong hxz' hxy (hR hyz)
        refine ⟨fun h => absurd h h₁, fun h => absurd h (hneq hyz' hyz), ?_⟩
        rintro rfl rfl
        cases hswap
      | differ _ hxz => exact hcomp hxy hyz hxz

end ListOrder

/-! ## The ways to be ordered -/

/-- **Unequal values** of a world. -/
def World.Unequal (w : World) (a b : Value) : Prop := w.equal? a b = some false

/-- **The ways to be ordered** for values other than doubles; `L` orders lists of items. -/
inductive World.OrderStep (w : World) (L : List Value → List Value → Ordering → Prop) :
    Value → Value → Ordering → Prop
  /-- Texts, by their first different characters. -/
  | text (i j : Nat) (s t : List Char) :
      OrderStep w L (.str i s) (.str j t) (compareLists (fun c d => compare c.toNat d.toNat) s t)
  /-- Bytes, by the first different ones. -/
  | bytes (s t : List UInt8) :
      OrderStep w L (.bytes s) (.bytes t) (compareLists (fun c d => compare c.toNat d.toNat) s t)
  /-- Truth values and integers, as integers. -/
  | number {a b : Value} {m n : Int64} (ha : a.asInt? = some m) (hb : b.asInt? = some n) :
      OrderStep w L a b (compare m.toInt n.toInt)
  /-- Lists, by their items. -/
  | list {r s : Ref} {o : Ordering} (h : L (w.list r) (w.list s) o) : OrderStep w L (.list r) (.list s) o
  /-- Tuples, by their items. -/
  | tuple {i j : Nat} {xs ys : List Value} {o : Ordering} (h : L xs ys o) :
      OrderStep w L (.tuple i xs) (.tuple j ys) o

/-- **Ordered values,** nested at most so deep: `E` tells which items of lists are the same, `N` which are not. -/
def World.Ranks (w : World) (E N : Value → Value → Prop) : Nat → Value → Value → Ordering → Prop
  | 0 => fun _ _ _ => False
  | n + 1 => w.OrderStep (ListOrder E N (w.Ranks E N n))

theorem Value.isSortable_of_asInt? {a : Value} {n : Int64} (h : a.asInt? = some n) : a.isSortable = true := by
  cases a with
  | bool b => rfl
  | int n => rfl
  | _ => cases h

namespace World

variable {w : World} {E N : Value → Value → Prop} {L L' : List Value → List Value → Ordering → Prop} {m n : Nat}
  {E' N' : Value → Value → Prop} {a b c : Value} {o o' : Ordering}

theorem OrderStep.imp (h : w.OrderStep L a b o) (hL : ∀ {xs ys o}, L xs ys o → L' xs ys o) :
    w.OrderStep L' a b o := by
  cases h with
  | text i j s t => exact .text i j s t
  | bytes s t => exact .bytes s t
  | number ha hb => exact .number ha hb
  | list h => exact .list (hL h)
  | tuple h => exact .tuple (hL h)

theorem OrderStep.isSortable_left (h : w.OrderStep L a b o) : a.isSortable = true := by
  cases h with
  | number ha _ => exact Value.isSortable_of_asInt? ha
  | _ => rfl

/-- A value is ordered before itself as equal only. -/
theorem OrderStep.eq_of_self (h : w.OrderStep L a a o) (hL : ∀ {xs o}, L xs xs o → o = .eq) : o = .eq := by
  cases h with
  | text i j s t => exact (compareLists_eq ..).trans Std.ReflCmp.compare_self
  | bytes s t => exact (compareLists_eq ..).trans Std.ReflCmp.compare_self
  | number ha hb =>
    cases ha.symm.trans hb
    exact compare_eq_iff_eq.mpr rfl
  | list h => exact hL h
  | tuple h => exact hL h

/-- Numbers are ordered with numbers only. -/
theorem OrderStep.of_number {x : Int64} (h : w.OrderStep L a b o) (ha : a.asInt? = some x) :
    ∃ y, b.asInt? = some y ∧ o = compare x.toInt y.toInt := by
  cases h with
  | number ha' hb =>
    cases ha.symm.trans ha'
    exact ⟨_, hb, rfl⟩
  | _ => cases ha

theorem OrderStep.unique (h : w.OrderStep L a b o) (h' : w.OrderStep L a b o')
    (hL : ∀ {xs ys o o'}, L xs ys o → L xs ys o' → o = o') : o = o' := by
  cases h with
  | number ha hb =>
    obtain ⟨y, hy, rfl⟩ := h'.of_number ha
    cases hb.symm.trans hy
    rfl
  | text i j s t =>
    cases h' with
    | text => rfl
    | number ha _ => cases ha
  | bytes s t =>
    cases h' with
    | bytes => rfl
    | number ha _ => cases ha
  | list h =>
    cases h' with
    | list h' => exact hL h h'
    | number ha _ => cases ha
  | tuple h =>
    cases h' with
    | tuple h' => exact hL h h'
    | number ha _ => cases ha

/-- **The orders of values compose** if those of their items do. -/
theorem OrderStep.composes {o₁ o₂ o₃ : Ordering} (hab : w.OrderStep L a b o₁) (hbc : w.OrderStep L b c o₂)
    (hac : w.OrderStep L a c o₃)
    (hL : ∀ {xs ys zs o₁ o₂ o₃}, L xs ys o₁ → L ys zs o₂ → L xs zs o₃ → Composes o₁ o₂ o₃) :
    Composes o₁ o₂ o₃ := by
  cases hab with
  | @number _ _ x y ha hb =>
    obtain ⟨z, hz, rfl⟩ := hbc.of_number hb
    obtain ⟨z', hz', rfl⟩ := hac.of_number ha
    cases hz.symm.trans hz'
    exact composes_of_trans compare x.toInt y.toInt z.toInt
  | text i j s t =>
    cases hbc with
    | number hb _ => cases hb
    | text _ k _ u =>
      cases hac with
      | number ha _ => cases ha
      | text =>
        simp only [compareLists_eq]
        exact composes_of_trans _ s t u
  | bytes s t =>
    cases hbc with
    | number hb _ => cases hb
    | bytes _ u =>
      cases hac with
      | number ha _ => cases ha
      | bytes =>
        simp only [compareLists_eq]
        exact composes_of_trans _ s t u
  | list hxy =>
    cases hbc with
    | number hb _ => cases hb
    | list hyz =>
      cases hac with
      | number ha _ => cases ha
      | list hxz => exact hL hxy hyz hxz
  | tuple hxy =>
    cases hbc with
    | number hb _ => cases hb
    | tuple hyz =>
      cases hac with
      | number ha _ => cases ha
      | tuple hxz => exact hL hxy hyz hxz

theorem OrderStep.swap (h : w.OrderStep L a b o) (hL : ∀ {xs ys o}, L xs ys o → L ys xs o.swap) :
    w.OrderStep L b a o.swap := by
  cases h with
  | text i j s t =>
    rw [compareLists_eq, ← Std.OrientedCmp.eq_swap, ← compareLists_eq]
    exact .text j i t s
  | bytes s t =>
    rw [compareLists_eq, ← Std.OrientedCmp.eq_swap, ← compareLists_eq]
    exact .bytes t s
  | number ha hb =>
    rw [← Std.OrientedOrd.eq_swap]
    exact .number hb ha
  | list h => exact .list (hL h)
  | tuple h => exact .tuple (hL h)

namespace Ranks

/-- An order stands with more levels. -/
theorem mono (h : w.Ranks E N m a b o) (hmn : m ≤ n) : w.Ranks E N n a b o := by
  induction m generalizing n a b o with
  | zero => exact h.elim
  | succ m ih =>
    obtain ⟨n, rfl⟩ := Nat.exists_eq_add_of_le' hmn
    exact OrderStep.imp h fun h => h.imp id id fun h => ih h (Nat.le_add_left m n)

theorem imp (h : w.Ranks E N n a b o) (hE : ∀ {x y}, E x y → E' x y) (hN : ∀ {x y}, N x y → N' x y) :
    w.Ranks E' N' n a b o := by
  induction n generalizing a b o with
  | zero => exact h.elim
  | succ n ih => exact OrderStep.imp h fun h => h.imp hE hN ih

theorem isSortable_left (h : w.Ranks E N n a b o) : a.isSortable = true := by
  cases n with
  | zero => exact h.elim
  | succ n => exact OrderStep.isSortable_left h

theorem eq_of_self (h : w.Ranks E N n a a o) : o = .eq := by
  induction n generalizing a o with
  | zero => exact h.elim
  | succ n ih => exact OrderStep.eq_of_self h fun h => h.eq_of_self ih

/-- Two values have one order. -/
theorem unique (h : w.Ranks E N n a b o) (h' : w.Ranks E N n a b o') (hEN : ∀ {x y}, E x y → ¬ N x y) :
    o = o' := by
  induction n generalizing a b o o' with
  | zero => exact h.elim
  | succ n ih => exact OrderStep.unique h h' fun h h' => h.unique h' hEN ih

theorem swap (h : w.Ranks E N n a b o) (hE : ∀ {x y}, E x y → E y x) (hN : ∀ {x y}, N x y → N y x) :
    w.Ranks E N n b a o.swap := by
  induction n generalizing a b o with
  | zero => exact h.elim
  | succ n ih => exact OrderStep.swap h fun h => h.swap hE hN ih

end Ranks

end World

/-! ## Ordering -/

/-- No double lies in a value. -/
def World.FloatFree (w : World) (v : Value) : Prop :=
  ∀ u, Relation.ReflTransGen (Value.Piece w) v u → u.isDouble = false

namespace World.FloatFree

variable {w : World} {u v : Value}

theorem isDouble (h : w.FloatFree v) : v.isDouble = false := h v .refl

theorem of_pieces (h : v.isDouble = false) (hpieces : ∀ u, Value.Piece w v u → w.FloatFree u) : w.FloatFree v := by
  intro u hu
  rcases hu.cases_head with rfl | ⟨x, hx, hu⟩
  · exact h
  · exact hpieces x hx u hu

theorem piece (h : w.FloatFree v) (hu : Value.Piece w v u) : w.FloatFree u := fun x hx => h x (.head hu hx)

theorem items {r : Ref} (h : w.FloatFree (.list r)) : ∀ x ∈ w.list r, w.FloatFree x :=
  fun _ hx => h.piece (.item hx)

theorem members {i : Nat} {xs : List Value} (h : w.FloatFree (.tuple i xs)) : ∀ x ∈ xs, w.FloatFree x :=
  fun _ hx => h.piece (.member hx)

end World.FloatFree

section

variable {symbol : String} {w w' : World} {a b : Value} {o : Ordering}

/-- Numbers that are no doubles are ordered as integers. -/
theorem compareNumbers_eq_some (h : compareNumbers a b = some o) (ha : a.isDouble = false)
    (hb : b.isDouble = false) : ∃ m n, a.asInt? = some m ∧ b.asInt? = some n ∧ o = compare m.toInt n.toInt := by
  unfold compareNumbers at h
  split at h
  · rename_i m n hm hn
    exact ⟨m, n, hm, hn, (Option.some.inj h).symm⟩
  · rename_i hnone
    split at h
    · rename_i x y hx hy
      obtain ⟨m, hm⟩ := Option.isSome_iff_exists.mp (Value.asInt?_isSome_of_asFloat? hx ha)
      obtain ⟨n, hn⟩ := Option.isSome_iff_exists.mp (Value.asInt?_isSome_of_asFloat? hy hb)
      exact absurd hn (hnone m n hm)
    · cases h

/-- **Ordering lists** finds the first unequal items. -/
theorem compareItems_iff {n : Nat} {R : Value → Value → Ordering → Prop} {xs ys : List Value}
    (h : ∀ x ∈ xs, ∀ y ∈ ys, ∀ o, compareValues symbol n x y w = .ok (o, w') ↔ w' = w ∧ R x y o) :
    compareValues.items symbol n xs ys w = .ok (o, w') ↔ w' = w ∧ ListOrder w.Equal w.Unequal R xs ys o := by
  induction xs generalizing ys with
  | nil =>
    unfold compareValues.items
    constructor
    · rintro ⟨⟩
      exact ⟨rfl, .ends (.inl rfl)⟩
    · rintro ⟨rfl, h⟩
      cases h
      rfl
  | cons x xs ih =>
    cases ys with
    | nil =>
      unfold compareValues.items
      constructor
      · rintro ⟨⟩
        exact ⟨rfl, .ends (.inr rfl)⟩
      · rintro ⟨rfl, h⟩
        cases h
        rfl
    | cons y ys =>
      have hfirst := h x List.mem_cons_self y List.mem_cons_self o
      have hrest := @ih ys fun x hx y hy => h x (List.mem_cons_of_mem _ hx) y (List.mem_cons_of_mem _ hy)
      unfold compareValues.items
      rw [equal_bind_eq_ok]
      constructor
      · rintro ⟨c, hc, h⟩
        cases c with
        | false =>
          obtain ⟨hw, h⟩ := hfirst.mp h
          exact ⟨hw, .differ hc h⟩
        | true =>
          obtain ⟨hw, h⟩ := hrest.mp h
          exact ⟨hw, .same hc h⟩
      · rintro ⟨hw, h⟩
        cases h with
        | ends h => rcases h with h | h <;> cases h
        | same hc h => exact ⟨true, hc, hrest.mpr ⟨hw, h⟩⟩
        | differ hc h => exact ⟨false, hc, hfirst.mpr ⟨hw, h⟩⟩

/-- Values that are ordered as numbers are integers, where there are no doubles. -/
theorem ranks_of_numbers {n : Nat} (ha : a.isDouble = false) (hb : b.isDouble = false)
    (h : (match compareNumbers a b with
      | some o => (pure o : Op Ordering)
      | none => Op.fail (.notOrdered symbol a.typeName b.typeName)) w = .ok (o, w')) :
    w' = w ∧ w.Ranks w.Equal w.Unequal (n + 1) a b o := by
  cases ho : compareNumbers a b with
  | none =>
    rw [ho] at h
    cases h
  | some o' =>
    rw [ho] at h
    cases h
    obtain ⟨x, y, hx, hy, rfl⟩ := compareNumbers_eq_some ho ha hb
    exact ⟨rfl, .number hx hy⟩

/-- Integers are ordered as numbers. -/
theorem compareValues_of_asInt? {x y : Int64} (hx : a.asInt? = some x) (hy : b.asInt? = some y) (symbol : String)
    (n : Nat) (w : World) : compareValues symbol (n + 1) a b w = .ok (compare x.toInt y.toInt, w) := by
  unfold compareValues
  cases a with
  | bool p =>
    cases hx
    cases b with
    | bool q => cases hy; rfl
    | int q => cases hy; rfl
    | _ => cases hy
  | int p =>
    cases hx
    cases b with
    | bool q => cases hy; rfl
    | int q => cases hy; rfl
    | _ => cases hy
  | _ => cases hx

/-- **Ordering values** with so many levels left. -/
theorem compareValues_iff {n : Nat} (ha : w.FloatFree a) (hb : w.FloatFree b) :
    compareValues symbol n a b w = .ok (o, w') ↔ w' = w ∧ w.Ranks w.Equal w.Unequal n a b o := by
  induction n generalizing a b o with
  | zero =>
    unfold compareValues
    exact ⟨nofun, fun h => h.2.elim⟩
  | succ n ih =>
    have hitems {xs ys : List Value} (hxs : ∀ x ∈ xs, w.FloatFree x) (hys : ∀ y ∈ ys, w.FloatFree y) :
        compareValues.items symbol n xs ys w = .ok (o, w') ↔
          w' = w ∧ ListOrder w.Equal w.Unequal (w.Ranks w.Equal w.Unequal n) xs ys o :=
      compareItems_iff fun x hx y hy _ => ih (hxs x hx) (hys y hy)
    constructor
    · intro h
      have hnumbers := @ranks_of_numbers symbol w w' a b o n ha.isDouble hb.isDouble
      unfold compareValues at h
      cases a with
      | str i s =>
        cases b with
        | str j t =>
          cases h
          exact ⟨rfl, .text i j s t⟩
        | _ => exact hnumbers h
      | bytes s =>
        cases b with
        | bytes t =>
          cases h
          exact ⟨rfl, .bytes s t⟩
        | _ => exact hnumbers h
      | list r =>
        cases b with
        | list s => exact ((hitems ha.items hb.items).mp h).imp id .list
        | _ => exact hnumbers h
      | tuple i xs =>
        cases b with
        | tuple j ys => exact ((hitems ha.members hb.members).mp h).imp id .tuple
        | _ => exact hnumbers h
      | _ => exact hnumbers h
    · rintro ⟨rfl, h⟩
      cases h with
      | number hx hy => exact compareValues_of_asInt? hx hy symbol n w'
      | text i j s t => unfold compareValues; rfl
      | bytes s t => unfold compareValues; rfl
      | list h =>
        unfold compareValues
        exact (hitems ha.items hb.items).mpr ⟨rfl, h⟩
      | tuple h =>
        unfold compareValues
        exact (hitems ha.members hb.members).mpr ⟨rfl, h⟩

/-- **Ordered values** of a world. -/
def World.Ordered (w : World) (a b : Value) (o : Ordering) : Prop := ∃ n, w.Ranks w.Equal w.Unequal n a b o

theorem answer?_eq_ok {α : Type} {x : Op α} {r : α × World} : x.answer? w = some (.ok r) ↔ x w = .ok r := by
  unfold Op.answer?
  split
  · rename_i h
    rw [h]
    exact ⟨nofun, nofun⟩
  · exact Option.some_inj

/-- **Ordering two values succeeds** with an order iff they have it, whatever the symbol, and the world stays as it
is. -/
theorem order_iff (ha : w.FloatFree a) (hb : w.FloatFree b) :
    order symbol a b w = .ok (o, w') ↔ w' = w ∧ w.Ordered a b o := by
  rw [← answer?_eq_ok, order_answer?]
  constructor
  · rintro ⟨n, h⟩
    obtain ⟨hw, h⟩ := (compareValues_iff ha hb).mp (answer?_eq_ok.mp h)
    exact ⟨hw, n, h⟩
  · rintro ⟨hw, n, h⟩
    exact ⟨n, answer?_eq_ok.mpr ((compareValues_iff ha hb).mpr ⟨hw, h⟩)⟩

end

/-! ## Equality and order agree -/

namespace World

variable {w : World} {n : Nat} {a b c : Value} {o o' : Ordering}

theorem Unequal.not_equal (h : w.Unequal a b) : ¬ w.Equal a b := fun he => nomatch h.symm.trans he

namespace Ranks

/-- **Values are ordered as equal iff they are equal.** -/
theorem eq_iff (h : w.Ranks w.Equal w.Unequal n a b o) : o = .eq ↔ w.Equal a b := by
  induction n generalizing a b o with
  | zero => exact h.elim
  | succ n ih =>
    have hne {x y : Value} (hxy : w.Unequal x y) : ¬ w.Ranks w.Equal w.Unequal n x y .eq :=
      fun h => hxy.not_equal ((ih h).mp rfl)
    cases h with
    | text i j s t =>
      rw [compareLists_eq, Std.LawfulEqCmp.compare_eq_iff_eq, Equal, equalValue_str, Option.some_inj, beq_iff_eq]
    | bytes s t =>
      rw [compareLists_eq, Std.LawfulEqCmp.compare_eq_iff_eq, Equal, equalValue_bytes, Option.some_inj, beq_iff_eq]
    | number ha hb =>
      rw [compare_eq_iff_eq, Int64.toInt_inj, Equal, equalValue_number ha hb, Option.some_inj, beq_iff_eq]
    | list h =>
      rw [equal_list_iff]
      constructor
      · rintro rfl
        exact .inr (h.forall₂_of_eq hne)
      · rintro (rfl | hE)
        · exact h.eq_of_self eq_of_self
        · exact h.eq_of_forall₂ hE fun hxy _ => hxy.not_equal
    | tuple h =>
      rw [equal_tuple_iff]
      constructor
      · rintro rfl
        exact h.forall₂_of_eq hne
      · exact fun hE => h.eq_of_forall₂ hE fun hxy _ => hxy.not_equal

/-- Of ordered values, the first one equals the second one if the second one equals the first one. -/
theorem equal_symm (h : w.Ranks w.Equal w.Unequal n a b o) (hba : w.Equal b a) : w.Equal a b := by
  induction n generalizing a b o with
  | zero => exact h.elim
  | succ n ih =>
    have hitems {xs ys : List Value} {o : Ordering}
        (h : ListOrder w.Equal w.Unequal (w.Ranks w.Equal w.Unequal n) xs ys o) (hE : List.Forall₂ w.Equal ys xs) :
        List.Forall₂ w.Equal xs ys := by
      induction h with
      | @ends xs ys h =>
        have hlength := hE.length_eq
        rcases h with rfl | rfl
        · rw [List.eq_nil_of_length_eq_zero hlength]
          exact .nil
        · rw [List.eq_nil_of_length_eq_zero hlength.symm]
          exact .nil
      | same hxy _ ih =>
        cases hE with
        | cons _ hE => exact .cons hxy (ih hE)
      | differ hxy h =>
        cases hE with
        | cons hyx _ => exact absurd (ih h hyx) hxy.not_equal
    cases h with
    | text i j s t =>
      rw [Equal, equalValue_str, Option.some_inj, beq_iff_eq] at hba ⊢
      exact hba.symm
    | bytes s t =>
      rw [Equal, equalValue_bytes, Option.some_inj, beq_iff_eq] at hba ⊢
      exact hba.symm
    | number ha hb =>
      rw [Equal, equalValue_number hb ha, Option.some_inj, beq_iff_eq] at hba
      rw [Equal, equalValue_number ha hb, Option.some_inj, beq_iff_eq]
      exact hba.symm
    | list h => exact equal_list_iff.mpr ((equal_list_iff.mp hba).imp Eq.symm (hitems h))
    | tuple h => exact equal_tuple_iff.mpr (hitems h (equal_tuple_iff.mp hba))

end Ranks

/-! ## Values that are ordered both ways -/

/-- **Matched values:** each equals the other one, and no doubles lie in them. -/
structure Matched (w : World) (a b : Value) : Prop where
  /-- The first one equals the second one. -/
  forward : w.Equal a b
  /-- The second one equals the first one. -/
  backward : w.Equal b a
  /-- No doubles lie in the first one. -/
  left : w.FloatFree a
  /-- No doubles lie in the second one. -/
  right : w.FloatFree b

/-- **Mismatched values:** neither equals the other one. -/
def Mismatched (w : World) (a b : Value) : Prop := w.Unequal a b ∧ w.Unequal b a

theorem Matched.symm (h : w.Matched a b) : w.Matched b a := ⟨h.backward, h.forward, h.right, h.left⟩

/-- **Compared values** of a world: their order is found both ways, the second way as the opposite one. -/
def Compared (w : World) (a b : Value) (o : Ordering) : Prop := ∃ n, w.Ranks w.Matched w.Mismatched n a b o

theorem Compared.symm (h : w.Compared a b o) : w.Compared b a o.swap := by
  obtain ⟨n, h⟩ := h
  exact ⟨n, h.swap Matched.symm And.symm⟩

/-- The order that is found both ways is found one way. -/
theorem Compared.ordered (h : w.Compared a b o) : w.Ordered a b o := by
  obtain ⟨n, h⟩ := h
  exact ⟨n, h.imp Matched.forward And.left⟩

theorem Compared.eq_iff (h : w.Compared a b o) : o = .eq ↔ w.Equal a b := by
  obtain ⟨n, h⟩ := h.ordered
  exact h.eq_iff

theorem both_items {xs ys : List Value}
    (h : ListOrder w.Equal w.Unequal (w.Ranks w.Equal w.Unequal n) xs ys o)
    (h' : ListOrder w.Equal w.Unequal (w.Ranks w.Equal w.Unequal n) ys xs o')
    (hxs : ∀ x ∈ xs, w.FloatFree x) (hys : ∀ y ∈ ys, w.FloatFree y)
    (hboth : ∀ x ∈ xs, ∀ y ∈ ys, ∀ o o', w.Ranks w.Equal w.Unequal n x y o → w.Ranks w.Equal w.Unequal n y x o' →
      w.Ranks w.Matched w.Mismatched n x y o) :
    ListOrder w.Matched w.Mismatched (w.Ranks w.Matched w.Mismatched n) xs ys o := by
  induction h with
  | ends h => exact .ends h
  | @same x y xs ys o hxy _ ih =>
    obtain ⟨hx, hxs⟩ := List.forall_mem_cons.mp hxs
    obtain ⟨hy, hys⟩ := List.forall_mem_cons.mp hys
    cases h' with
    | ends h => rcases h with h | h <;> cases h
    | same hyx h' =>
      refine .same ⟨hxy, hyx, hx, hy⟩ (ih h' hxs hys fun x hx y hy => ?_)
      exact hboth x (List.mem_cons_of_mem _ hx) y (List.mem_cons_of_mem _ hy)
    | differ hyx h' => exact absurd (h'.equal_symm hxy) hyx.not_equal
  | @differ x y xs ys o hxy h =>
    cases h' with
    | ends h => rcases h with h | h <;> cases h
    | same hyx _ => exact absurd (h.equal_symm hyx) hxy.not_equal
    | differ hyx h' => exact .differ ⟨hxy, hyx⟩ (hboth x List.mem_cons_self y List.mem_cons_self _ _ h h')

theorem Ranks.both (h : w.Ranks w.Equal w.Unequal n a b o) (h' : w.Ranks w.Equal w.Unequal n b a o')
    (ha : w.FloatFree a) (hb : w.FloatFree b) : w.Ranks w.Matched w.Mismatched n a b o := by
  induction n generalizing a b o o' with
  | zero => exact h.elim
  | succ n ih =>
    cases h with
    | text i j s t => exact .text i j s t
    | bytes s t => exact .bytes s t
    | number hx hy => exact .number hx hy
    | list h =>
      cases h' with
      | list h' =>
        exact .list (both_items h h' ha.items hb.items fun x hx y hy o o' h h' =>
          ih h h' (ha.items x hx) (hb.items y hy))
      | number hx _ => cases hx
    | tuple h =>
      cases h' with
      | tuple h' =>
        exact .tuple (both_items h h' ha.members hb.members fun x hx y hy o o' h h' =>
          ih h h' (ha.members x hx) (hb.members y hy))
      | number hx _ => cases hx

/-- **Values that are ordered both ways** are so in opposite ways, where no doubles lie in them. -/
theorem Ordered.compared (h : w.Ordered a b o) (h' : w.Ordered b a o') (ha : w.FloatFree a) (hb : w.FloatFree b) :
    w.Compared a b o := by
  obtain ⟨m, h⟩ := h
  obtain ⟨n, h'⟩ := h'
  exact ⟨max m n, (h.mono (Nat.le_max_left m n)).both (h'.mono (Nat.le_max_right m n)) ha hb⟩

/-! ## Orders compose -/

/-- A value that can be ordered is ordered as equal before one that it is matched with, unless the two are one. -/
theorem Matched.ranks (h : w.Matched a b) (ha : a.isSortable = true) :
    a = b ∨ w.Ranks w.Matched w.Mismatched (n + 1) a b .eq := by
  have hitems {xs ys : List Value} (hxy : List.Forall₂ w.Equal xs ys) (hyx : List.Forall₂ w.Equal ys xs)
      (hxs : ∀ x ∈ xs, w.FloatFree x) (hys : ∀ y ∈ ys, w.FloatFree y) :
      ListOrder w.Matched w.Mismatched (w.Ranks w.Matched w.Mismatched n) xs ys .eq := by
    have hleft := (List.forall₂_and_left _ _).mpr ⟨hxs, hxy⟩
    have hright := List.Forall₂.flip ((List.forall₂_and_left _ _).mpr ⟨hys, hyx⟩)
    exact .of_forall₂ (hleft.mp (fun _ _ h h' => ⟨h.2, h'.2, h.1, h'.1⟩) hright)
  have hback := h.backward
  have hleft := h.left
  have hright := h.right
  cases h.forward.step hleft.isDouble hright.isDouble with
  | text i j s =>
    have hself : compareLists (fun c d => compare c.toNat d.toNat) s s = .eq :=
      (compareLists_eq ..).trans Std.ReflCmp.compare_self
    exact .inr (hself ▸ .text i j s s)
  | bytes s => exact .inl rfl
  | same r => exact .inl rfl
  | @list r s hxy =>
    rcases equal_list_iff.mp hback with rfl | hyx
    · exact .inl rfl
    · exact .inr (.list (hitems hxy hyx hleft.items hright.items))
  | tuple hxy => exact .inr (.tuple (hitems hxy (equal_tuple_iff.mp hback) hleft.members hright.members))
  | @number _ _ m hx hy =>
    have hself : compare m.toInt m.toInt = .eq := compare_eq_iff_eq.mpr rfl
    exact .inr (hself ▸ .number hx hy)
  | other hno => exact absurd ha (by rw [hno]; exact Bool.false_ne_true)

theorem Mismatched.not_matched (h : w.Mismatched a b) : ¬ w.Matched a b := fun hm => h.1.not_equal hm.forward

theorem Mismatched.not_ranks (h : w.Mismatched a b) : ¬ w.Ranks w.Matched w.Mismatched n a b .eq := fun hr =>
  h.1.not_equal ((Compared.eq_iff ⟨n, hr⟩).mp rfl)

/-- **The orders of values compose.** -/
theorem Ranks.composes {o₁ o₂ o₃ : Ordering} (hab : w.Ranks w.Matched w.Mismatched n a b o₁)
    (hbc : w.Ranks w.Matched w.Mismatched n b c o₂) (hac : w.Ranks w.Matched w.Mismatched n a c o₃) :
    Composes o₁ o₂ o₃ := by
  induction n generalizing a b c o₁ o₂ o₃ with
  | zero => exact hab.elim
  | succ n ih =>
    -- Items that are ordered have one level at least, which is enough for items that are matched.
    have hcong {x y z : Value} {o o' : Ordering} (hxy : w.Matched x y)
        (hxz : w.Ranks w.Matched w.Mismatched n x z o) (hyz : w.Ranks w.Matched w.Mismatched n y z o') :
        o = o' := by
      cases n with
      | zero => exact hxz.elim
      | succ n =>
        rcases hxy.ranks (n := n) hxz.isSortable_left with rfl | hxy
        · exact hxz.unique hyz fun hm hmis => hmis.not_matched hm
        · exact (ih hxy hyz hxz).left rfl
    have htrans {x y z : Value} {o : Ordering} (hxy : w.Matched x y) (hyz : w.Matched y z)
        (hmis : w.Mismatched x z) : ¬ w.Ranks w.Matched w.Mismatched n x z o := by
      intro hxz
      cases n with
      | zero => exact hxz.elim
      | succ n =>
        rcases hxy.ranks (n := n) hxz.isSortable_left with rfl | hxy'
        · exact hmis.not_matched hyz
        · have hy : y.isSortable = true := (hxy'.swap Matched.symm And.symm).isSortable_left
          rcases hyz.ranks (n := n) hy with rfl | hyz'
          · exact hmis.not_matched hxy
          · obtain rfl := (ih hxy' hyz' hxz).left rfl
            exact hmis.not_ranks hxz
    refine OrderStep.composes hab hbc hac fun hxy hyz hxz => ?_
    exact hxy.composes hyz hxz Matched.symm (fun h => h.swap Matched.symm And.symm) Mismatched.not_ranks hcong
      htrans ih

/-- **How a value is ordered before a third one** follows from how both are before a second one. -/
theorem Compared.composes {o₁ o₂ o₃ : Ordering} (hab : w.Compared a b o₁) (hbc : w.Compared b c o₂)
    (hac : w.Compared a c o₃) : Composes o₁ o₂ o₃ := by
  obtain ⟨k, hab⟩ := hab
  obtain ⟨m, hbc⟩ := hbc
  obtain ⟨n, hac⟩ := hac
  exact (hab.mono (n := max k (max m n)) (by omega)).composes (hbc.mono (by omega)) (hac.mono (by omega))

end World

end Transcript.Lang
