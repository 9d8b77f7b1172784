import Transcript.Lang.Call
import Transcript.Proofs.Lang.DatumValue
import Transcript.Proofs.Lang.Division
import Transcript.Proofs.Lang.Equality

/-!
# One sequence

Texts, bytes, lists, tuples and ranges are sequences: what iteration gives, how many items there are, which item
an index means, and which ones lie between the ends of a slice, are found separately for each of them, and all say
the same. The two parts that an index cuts a sequence into have the items of the whole; they equal the whole if
each item equals itself, which a double that is no number does not.

Results:
* `toInt_rangeItem`: the items of a range.
* `sequence_laws`: what the operations on a sequence come to.
* `parts_not_whole`: a list that its parts do not equal.
-/

namespace Transcript.Lang

/-! ## The items of a range -/

section

variable {start stop step : Int64}

/-- An item before the end of a range lies between its ends. -/
theorem BeforeEnd.bounds {k : Nat} (h : BeforeEnd start stop step k) (hstep : step ≠ 0) :
    -2 ^ 63 ≤ start.toInt + k * step.toInt ∧ start.toInt + k * step.toInt < 2 ^ 63 := by
  have hk : (0 : Int) ≤ k := Int.natCast_nonneg k
  have hzero := toInt_eq_zero.not.mpr hstep
  have hlo := start.le_toInt
  have hhi := start.toInt_lt
  have hlo' := stop.le_toInt
  have hhi' := stop.toInt_lt
  unfold BeforeEnd at h
  split_ifs at h with hpos
  · have := Int.mul_nonneg hk (zero_lt_iff.mp hpos).le
    omega
  · have hneg : step.toInt ≤ 0 := not_lt.mp (zero_lt_iff.not.mp hpos)
    have := Int.mul_nonpos_of_nonneg_of_nonpos hk hneg
    omega

/-- **An item of a range** is the start and so many steps. -/
theorem toInt_rangeItem {k : Nat} (h : BeforeEnd start stop step k) (hstep : step ≠ 0) :
    (start + Int64.ofNat k * step).toInt = start.toInt + k * step.toInt := by
  obtain ⟨hlo, hhi⟩ := h.bounds hstep
  have hwrapped : (start + Int64.ofNat k * step).toInt = (start.toInt + k * step.toInt).bmod (2 ^ 64) := by
    rw [Int64.toInt_add, Int64.toInt_mul, Int64.toInt_ofNat']
    simp
  rw [hwrapped]
  exact Int.bmod_eq_of_le (by omega) (by omega)

/-- The length of a range is right if distance and step, less one, fit. -/
theorem toInt_rangeLength_of_fits (hstep : step ≠ 0)
    (hfits : 0 < rangeDistance start stop step → rangeDistance start stop step + |step.toInt| ≤ 2 ^ 63) {n : Nat}
    (hn : IsLength start stop step n) : (rangeLength start stop step).toInt = n := by
  refine (rangeLength_eq_iff hstep hn).mpr fun hslips => ?_
  have hle := hfits hslips.1
  have hlt := hslips.2.1
  omega

end

/-! ## Sequences -/

/-- **Items that are the same:** values that are one, or texts with the same characters, as each text that is made
is a new one. -/
inductive Value.SameItem : Value → Value → Prop
  | refl (v : Value) : SameItem v v
  | text (i j : Nat) (s : List Char) : SameItem (.str i s) (.str j s)

namespace World

/-- **A sequence** of a world: a text, bytes, a list, a tuple, or a range whose distance and step, less one, fit
into 64 bits. -/
inductive IsSequence (w : World) : Value → Prop
  | str (i : Nat) (s : List Char) : IsSequence w (.str i s)
  | bytes (b : List UInt8) : IsSequence w (.bytes b)
  | list {r : Ref} (hr : r < w.lists.size) : IsSequence w (.list r)
  | tuple (i : Nat) (xs : List Value) : IsSequence w (.tuple i xs)
  | range {start stop step : Int64} (hstep : step ≠ 0)
      (hfits : 0 < rangeDistance start stop step → rangeDistance start stop step + |step.toInt| ≤ 2 ^ 63) :
      IsSequence w (.range start stop step)

/-- Iteration gives these items, and nothing changes but the identities that are in use. -/
def Iterates (w : World) (v : Value) (items : List Value) : Prop :=
  ∃ found k, iterate v w = .ok (found, { w with identities := k }) ∧ List.Forall₂ Value.SameItem found items

/-- The items of a sequence, where texts have no identity yet. -/
def items (w : World) : Value → List Value
  | .str _ s => s.map fun c => .str 0 [c]
  | .bytes b => b.map fun x => .int (Int64.ofNat x.toNat)
  | .list r => w.list r
  | .tuple _ xs => xs
  | .range start stop step => (rangeItems start stop step).map .int
  | _ => []

variable {w : World} {v : Value}

theorem mapM_newText (s : List Char) (w : World) :
    ∃ found k, s.mapM (fun c => Op.newText [c]) w = .ok (found, { w with identities := k }) ∧
      List.Forall₂ Value.SameItem found (s.map fun c => .str 0 [c]) := by
  induction s generalizing w with
  | nil => exact ⟨[], w.identities, rfl, .nil⟩
  | cons c s ih =>
    have hfirst : Op.newText [c] w = .ok (.str w.identities [c], { w with identities := w.identities + 1 }) := rfl
    obtain ⟨found, k, hrest, hsame⟩ := ih { w with identities := w.identities + 1 }
    refine ⟨.str w.identities [c] :: found, k, ?_, .cons (.text _ 0 [c]) hsame⟩
    rw [List.mapM_cons, op_bind hfirst, op_bind hrest]
    rfl

theorem forall₂_sameItem (xs : List Value) : List.Forall₂ Value.SameItem xs xs :=
  List.forall₂_same.mpr fun x _ => .refl x

theorem IsSequence.iterates (h : w.IsSequence v) : w.Iterates v (w.items v) := by
  cases h with
  | str i s => exact mapM_newText s w
  | _ => exact ⟨_, w.identities, rfl, forall₂_sameItem _⟩

/-- An item of a range is the start and so many steps. -/
theorem getElem?_items_range {start stop step : Int64} {j : Nat} {x : Value}
    (hx : (w.items (.range start stop step))[j]? = some x) : x = .int (start + Int64.ofNat j * step) := by
  rw [items, rangeItems, List.map_map, List.getElem?_map, Option.map_eq_some_iff] at hx
  obtain ⟨k, hk, rfl⟩ := hx
  obtain ⟨-, rfl⟩ := List.getElem?_eq_some_iff.mp hk
  rw [List.getElem_range]
  rfl

/-- As many items of a range come out as lie before its end. -/
theorem length_rangeItems {start stop step : Int64} (hstep : step ≠ 0)
    (hfits : 0 < rangeDistance start stop step → rangeDistance start stop step + |step.toInt| ≤ 2 ^ 63) {n : Nat}
    (hn : IsLength start stop step n) : (rangeItems start stop step).length = n := by
  rw [rangeItems, List.length_map, List.length_range, toInt_rangeLength_of_fits hstep hfits hn]
  rfl

theorem IsSequence.size (h : w.IsSequence v) : size v w = .ok (.int (Int64.ofNat (w.items v).length), w) := by
  cases h with
  | str i s => rw [items, List.length_map]; rfl
  | bytes b => rw [items, List.length_map]; rfl
  | list hr => rfl
  | tuple i xs => rfl
  | @range start stop step hstep hfits =>
    obtain ⟨n, hn⟩ := exists_isLength start stop hstep
    have hlength := toInt_rangeLength_of_fits hstep hfits hn
    have hword : Int64.ofNat n = rangeLength start stop step := by
      rw [← Int64.ofInt_eq_ofNat, ← hlength, Int64.ofInt_toInt]
    rw [items, List.length_map, length_rangeItems hstep hfits hn, hword]
    rfl

theorem IsSequence.truthy_iff (h : w.IsSequence v) : w.truthy v = true ↔ 0 < (w.items v).length := by
  have hnonempty {α : Type} (xs : List α) : (!xs.isEmpty) = true ↔ 0 < xs.length := by
    rw [Bool.not_eq_true', List.isEmpty_eq_false_iff, List.length_pos_iff]
  cases h with
  | str i s => rw [items, List.length_map]; exact hnonempty s
  | bytes b => rw [items, List.length_map]; exact hnonempty b
  | list hr => exact hnonempty _
  | tuple i xs => exact hnonempty xs
  | @range start stop step hstep hfits =>
    obtain ⟨n, hn⟩ := exists_isLength start stop hstep
    have hlength := toInt_rangeLength_of_fits hstep hfits hn
    rw [items, List.length_map, length_rangeItems hstep hfits hn, truthy, decide_eq_true_iff, zero_lt_iff, hlength]
    exact Int.natCast_pos

/-! ### Indices -/

/-- An index within a sequence means the item with its number, from the start or from the end. -/
theorem indexIn_inside {k : Value} {i : Int64} (hk : k.asInt? = some i) {n j : Nat} (hj : j < n)
    (hi : i.toInt = j ∨ i.toInt = j - n) (what : String) : indexIn k n what w = .ok (j, w) := by
  have hplace : placeOf? i n = some j := by
    have hneg : i < 0 ↔ i.toInt < 0 := lt_zero_iff
    unfold placeOf?
    rcases hi with hi | hi
    · rw [if_neg (hneg.not.mpr (by omega)), hi]
      simp [hj]
    · rw [if_pos (hneg.mpr (by omega)), hi]
      simp [hj]
  rw [indexIn, hk]
  dsimp only
  rw [hplace]
  rfl

/-- An index outside of a sequence means no item. -/
theorem indexIn_outside {k : Value} {i : Int64} (hk : k.asInt? = some i) {n : Nat}
    (hi : i.toInt < -n ∨ n ≤ i.toInt) (what : String) : indexIn k n what w = .error (.indexRange what) := by
  have hplace : placeOf? i n = none := by
    have hneg : i < 0 ↔ i.toInt < 0 := lt_zero_iff
    unfold placeOf?
    rcases hi with hi | hi
    · rw [if_pos (hneg.mpr (by omega))]
      exact if_neg (by simp; omega)
    · rw [if_neg (hneg.not.mpr (by omega))]
      exact if_neg (by simp; omega)
  rw [indexIn, hk]
  dsimp only
  rw [hplace]
  rfl

/-- **The item at an index** within a sequence. -/
theorem IsSequence.itemAt_inside (h : w.IsSequence v) {k : Value} {i : Int64} (hk : k.asInt? = some i) {j : Nat}
    {x : Value} (hx : (w.items v)[j]? = some x) (hi : i.toInt = j ∨ i.toInt = j - (w.items v).length) :
    ∃ found m, itemAt v k w = .ok (found, { w with identities := m }) ∧ Value.SameItem found x := by
  have hj : j < (w.items v).length := (List.getElem?_eq_some_iff.mp hx).1
  have hindex := indexIn_inside (w := w) hk hj hi
  have hget : (get : Op World) w = .ok (w, w) := rfl
  cases h with
  | str i s =>
    rw [items, List.length_map] at hindex
    rw [items, List.getElem?_map, Option.map_eq_some_iff] at hx
    obtain ⟨c, hc, rfl⟩ := hx
    refine ⟨.str w.identities [c], w.identities + 1, ?_, .text _ _ _⟩
    rw [itemAt, op_bind (hindex "string"), List.getD_eq_getElem?_getD, hc]
    rfl
  | bytes b =>
    rw [items, List.length_map] at hindex
    rw [items, List.getElem?_map, Option.map_eq_some_iff] at hx
    obtain ⟨c, hc, rfl⟩ := hx
    refine ⟨_, w.identities, ?_, .refl _⟩
    rw [itemAt, op_bind (hindex "index"), List.getD_eq_getElem?_getD, hc]
    rfl
  | @list r hr =>
    rw [items] at hindex hx
    refine ⟨x, w.identities, ?_, .refl x⟩
    rw [itemAt, op_bind hget, op_bind (hindex "list"), List.getD_eq_getElem?_getD, hx]
    rfl
  | tuple i xs =>
    rw [items] at hindex hx
    refine ⟨x, w.identities, ?_, .refl x⟩
    rw [itemAt, op_bind (hindex "tuple"), List.getD_eq_getElem?_getD, hx]
    rfl
  | @range start stop step hstep hfits =>
    obtain ⟨n, hn⟩ := exists_isLength start stop hstep
    have hlength := toInt_rangeLength_of_fits hstep hfits hn
    rw [items, List.length_map, length_rangeItems hstep hfits hn, ← hlength] at hindex
    obtain rfl := getElem?_items_range hx
    refine ⟨_, w.identities, ?_, .refl _⟩
    rw [itemAt, op_bind (hindex "range object")]
    rfl

theorem op_bind_error {α β : Type} {x : Op α} {g : α → Op β} {p : Problem} (h : x w = .error p) :
    (x >>= g) w = .error p := by
  change (x w >>= fun r => g r.1 r.2) = _
  rw [h]
  rfl

/-- **The index is out of range** outside of a sequence. -/
theorem IsSequence.itemAt_outside (h : w.IsSequence v) {k : Value} {i : Int64} (hk : k.asInt? = some i)
    (hi : i.toInt < -(w.items v).length ∨ (w.items v).length ≤ i.toInt) :
    ∃ p : Problem, itemAt v k w = .error p ∧ p.kind = .indexError := by
  have hindex := indexIn_outside (w := w) hk hi
  have hget : (get : Op World) w = .ok (w, w) := rfl
  cases h with
  | str i s =>
    rw [items, List.length_map] at hindex
    exact ⟨_, op_bind_error (hindex "string"), rfl⟩
  | bytes b =>
    rw [items, List.length_map] at hindex
    exact ⟨_, op_bind_error (hindex "index"), rfl⟩
  | list hr => exact ⟨_, (op_bind hget).trans (op_bind_error (hindex "list")), rfl⟩
  | tuple i xs => exact ⟨_, op_bind_error (hindex "tuple"), rfl⟩
  | @range start stop step hstep hfits =>
    obtain ⟨n, hn⟩ := exists_isLength start stop hstep
    have hlength := toInt_rangeLength_of_fits hstep hfits hn
    rw [items, List.length_map, length_rangeItems hstep hfits hn, ← hlength] at hindex
    exact ⟨_, op_bind_error (hindex "range object"), rfl⟩

/-! ### Slices -/

/-- An index that is counted from the start or from the end, cut to a sequence with `n` items. -/
def cut (n : Nat) (i : Int) : Nat := (max 0 (min (n : Int) (if i < 0 then i + n else i))).toNat

/-- **The end of a slice** of a sequence with `n` items: an absent one is at its default, and an index is cut to
the sequence. -/
inductive SliceEnd (n dflt : Nat) : Value → Nat → Prop
  | absent : SliceEnd n dflt .none dflt
  | index {k : Value} {i : Int64} (hk : k.asInt? = some i) : SliceEnd n dflt k (cut n i.toInt)

theorem SliceEnd.found {n dflt a : Nat} {k : Value} (h : SliceEnd n dflt k a) :
    sliceEnd k n dflt w = .ok (a, w) := by
  cases h with
  | absent => rfl
  | @index _ i hk =>
    have hclamp : clampIndex i n = cut n i.toInt := by
      have hneg : i < 0 ↔ i.toInt < 0 := lt_zero_iff
      unfold clampIndex cut
      by_cases hi : i.toInt < 0
      · rw [if_pos (hneg.mpr hi), if_pos hi]
        omega
      · rw [if_neg (hneg.not.mpr hi), if_neg hi]
        omega
    rw [← hclamp]
    cases k with
    | bool b => cases hk; rfl
    | int m => cases hk; rfl
    | _ => cases hk

variable {lower upper : Value} {a b : Nat}

theorem sliceOf_eq {α : Type} {xs : List α} (hlower : SliceEnd xs.length 0 lower a)
    (hupper : SliceEnd xs.length xs.length upper b) :
    sliceOf lower upper xs w = .ok ((xs.drop a).take (b - a), w) := by
  rw [sliceOf, op_bind hlower.found, op_bind hupper.found]
  rfl

/-! ### New values -/

theorem newText_eq (w : World) (s : List Char) : ∃ i w', Op.newText s w = .ok (.str i s, w') ∧ w.Grows w' :=
  ⟨_, _, rfl, .identity w⟩

theorem newTuple_eq (w : World) (xs : List Value) :
    ∃ i w', Op.newTuple xs w = .ok (.tuple i xs, w') ∧ w.Grows w' :=
  ⟨_, _, rfl, .identity w⟩

theorem newList_eq (w : World) (xs : List Value) :
    ∃ r w', Op.newList xs w = .ok (.list r, w') ∧ w.Grows w' ∧ w.lists.size ≤ r ∧ r < w'.lists.size ∧
      w'.list r = xs :=
  ⟨_, _, rfl, .pushList w xs, Nat.le_refl _, by simp, by simp [list]⟩

theorem slice_str {i : Nat} {s : List Char} (hlower : SliceEnd s.length 0 lower a)
    (hupper : SliceEnd s.length s.length upper b) :
    slice (.str i s) lower upper w = Op.newText ((s.drop a).take (b - a)) w := by
  rw [slice, op_bind (sliceOf_eq hlower hupper)]

theorem slice_list {r : Ref} (hlower : SliceEnd (w.list r).length 0 lower a)
    (hupper : SliceEnd (w.list r).length (w.list r).length upper b) :
    slice (.list r) lower upper w = Op.newList (((w.list r).drop a).take (b - a)) w := by
  have hget : (get : Op World) w = .ok (w, w) := rfl
  rw [slice, op_bind hget, op_bind (sliceOf_eq hlower hupper)]

theorem slice_tuple {i : Nat} {xs : List Value} (hlower : SliceEnd xs.length 0 lower a)
    (hupper : SliceEnd xs.length xs.length upper b) :
    slice (.tuple i xs) lower upper w = Op.newTuple ((xs.drop a).take (b - a)) w := by
  rw [slice, op_bind (sliceOf_eq hlower hupper)]

/-- **A sequence that can be cut:** a text, a list or a tuple. -/
inductive IsSliceable (w : World) : Value → Prop
  | str (i : Nat) (s : List Char) : IsSliceable w (.str i s)
  | list {r : Ref} (hr : r < w.lists.size) : IsSliceable w (.list r)
  | tuple (i : Nat) (xs : List Value) : IsSliceable w (.tuple i xs)

/-- **A slice** has the items between its ends. -/
theorem IsSliceable.slice (h : w.IsSliceable v) (hlower : SliceEnd (w.items v).length 0 lower a)
    (hupper : SliceEnd (w.items v).length (w.items v).length upper b) :
    ∃ u w', slice v lower upper w = .ok (u, w') ∧ u.typeName = v.typeName ∧
      w'.Iterates u (((w.items v).drop a).take (b - a)) := by
  cases h with
  | str i s =>
    rw [items, List.length_map] at hlower hupper
    rw [items, ← List.map_drop, ← List.map_take, slice_str hlower hupper]
    obtain ⟨j, w', hnew, -⟩ := w.newText_eq ((s.drop a).take (b - a))
    exact ⟨_, w', hnew, rfl, (IsSequence.str j _).iterates⟩
  | @list r hr =>
    rw [slice_list hlower hupper]
    obtain ⟨r', w', hnew, -, -, hr', hlist⟩ := w.newList_eq (((w.list r).drop a).take (b - a))
    exact ⟨_, w', hnew, rfl, hlist ▸ (IsSequence.list hr').iterates⟩
  | tuple i xs =>
    rw [items] at hlower hupper ⊢
    rw [slice_tuple hlower hupper]
    obtain ⟨j, w', hnew, -⟩ := w.newTuple_eq ((xs.drop a).take (b - a))
    exact ⟨_, w', hnew, rfl, (IsSequence.tuple j _).iterates⟩

/-- A list is cut at an index. -/
theorem parts_append {α : Type} (xs : List α) (a : Nat) :
    (xs.drop 0).take (a - 0) ++ (xs.drop a).take (xs.length - a) = xs := by
  rw [← List.length_drop, List.take_length, List.drop_zero, Nat.sub_zero, List.take_append_drop]

/-- **A sequence is put together again:** its parts before and behind an index make a sequence of its kind with
these items, which equals it iff each item equals itself. -/
def Rejoins (w : World) (v k : Value) (items : List Value) : Prop :=
  ∃ u₁ w₁ u₂ w₂ c w₃, Lang.slice v .none k w = .ok (u₁, w₁) ∧ Lang.slice v k .none w₁ = .ok (u₂, w₂) ∧
    binary .add u₁ u₂ w₂ = .ok (c, w₃) ∧ c.typeName = v.typeName ∧ w₃.Iterates c items ∧
    (equal c v w₃ = .ok (true, w₃) ↔ ∀ x ∈ items, equal x x w₃ = .ok (true, w₃))

theorem forall₂_equal_self {xs : List Value} :
    List.Forall₂ w.Equal xs xs ↔ ∀ x ∈ xs, equal x x w = .ok (true, w) := by
  rw [List.forall₂_same]
  exact forall₂_congr fun _ _ => equal_eq_ok_true.symm

variable {k : Value} {i : Int64}

theorem rejoins_str (hk : k.asInt? = some i) (w : World) (j : Nat) (s : List Char) :
    w.Rejoins (.str j s) k (w.items (.str j s)) := by
  let n := cut s.length i.toInt
  obtain ⟨_, w₁, hfirst, -⟩ := w.newText_eq ((s.drop 0).take (n - 0))
  obtain ⟨_, w₂, hsecond, -⟩ := w₁.newText_eq ((s.drop n).take (s.length - n))
  obtain ⟨m, w₃, hthird, -⟩ := w₂.newText_eq s
  refine ⟨_, w₁, _, w₂, .str m s, w₃, (slice_str .absent (.index hk)).trans hfirst,
    (slice_str (.index hk) .absent).trans hsecond, ?_, rfl, (IsSequence.str m s).iterates, ?_⟩
  · rw [← hthird]
    exact congrArg (Op.newText · w₂) (parts_append s n)
  · refine iff_of_true ?_ fun x hx => ?_
    · exact equal_eq_ok_true.mpr ((EqualStep.text m j s).equal rfl)
    · obtain ⟨c, -, rfl⟩ := List.mem_map.mp hx
      exact equal_eq_ok_true.mpr ((EqualStep.text 0 0 [c]).equal rfl)

theorem rejoins_tuple (hk : k.asInt? = some i) (w : World) (j : Nat) (xs : List Value) :
    w.Rejoins (.tuple j xs) k xs := by
  let n := cut xs.length i.toInt
  obtain ⟨_, w₁, hfirst, -⟩ := w.newTuple_eq ((xs.drop 0).take (n - 0))
  obtain ⟨_, w₂, hsecond, -⟩ := w₁.newTuple_eq ((xs.drop n).take (xs.length - n))
  obtain ⟨m, w₃, hthird, -⟩ := w₂.newTuple_eq xs
  refine ⟨_, w₁, _, w₂, .tuple m xs, w₃, (slice_tuple .absent (.index hk)).trans hfirst,
    (slice_tuple (.index hk) .absent).trans hsecond, ?_, rfl, (IsSequence.tuple m xs).iterates, ?_⟩
  · rw [← hthird]
    exact congrArg (Op.newTuple · w₂) (parts_append xs n)
  · exact equal_eq_ok_true.trans (equal_tuple_iff.trans forall₂_equal_self)

theorem rejoins_list (hk : k.asInt? = some i) {r : Ref} (hr : r < w.lists.size) :
    w.Rejoins (.list r) k (w.list r) := by
  let n := cut (w.list r).length i.toInt
  obtain ⟨r₁, w₁, hfirst, hgrows₁, -, hr₁, hlist₁⟩ := w.newList_eq (((w.list r).drop 0).take (n - 0))
  obtain ⟨hsize₁, hsame₁⟩ := hgrows₁.list r hr
  obtain ⟨r₂, w₂, hsecond, hgrows₂, -, hr₂, hlist₂⟩ :=
    w₁.newList_eq (((w₁.list r).drop n).take ((w.list r).length - n))
  obtain ⟨hsize₂, hsame₂⟩ := hgrows₂.list r hsize₁
  obtain ⟨r₃, w₃, hthird, hgrows₃, hle₃, hr₃, hlist₃⟩ := w₂.newList_eq (w.list r)
  obtain ⟨-, hsame₃⟩ := hgrows₃.list r hsize₂
  -- The second slice is taken after the first one is made, from the same items.
  have hlower : SliceEnd (w₁.list r).length 0 k n := by
    rw [hsame₁]
    exact .index hk
  have hupper : SliceEnd (w₁.list r).length (w₁.list r).length .none (w.list r).length := by
    rw [hsame₁]
    exact .absent
  have hwhole : w₃.Iterates (.list r₃) (w₃.list r₃) := (IsSequence.list hr₃).iterates
  rw [hlist₃] at hwhole
  refine ⟨.list r₁, w₁, .list r₂, w₂, .list r₃, w₃, (slice_list .absent (.index hk)).trans hfirst,
    (slice_list hlower hupper).trans hsecond, ?_, rfl, hwhole, ?_⟩
  · have hboth : w₂.list r₁ ++ w₂.list r₂ = w.list r := by
      rw [(hgrows₂.list r₁ hr₁).2, hlist₁, hlist₂, hsame₁]
      exact parts_append (w.list r) n
    rw [← hthird, ← hboth]
    rfl
  · have hne : r₃ ≠ r := (Nat.lt_of_lt_of_le hsize₂ hle₃).ne'
    have hsame : w₃.list r = w.list r := hsame₃.trans (hsame₂.trans hsame₁)
    rw [equal_eq_ok_true, equal_list_iff, hlist₃, hsame, or_iff_right hne]
    exact forall₂_equal_self

/-- **The parts of a sequence,** cut at an index, make the whole. -/
theorem IsSliceable.rejoins (h : w.IsSliceable v) (hk : k.asInt? = some i) : w.Rejoins v k (w.items v) := by
  cases h with
  | str j s => exact rejoins_str hk w j s
  | list hr => exact rejoins_list hk hr
  | tuple j xs => exact rejoins_tuple hk w j xs

/-! ## The laws of sequences -/

/-- The items of a range go on by its step, up to its end. -/
theorem items_range {start stop step : Int64} (hstep : step ≠ 0)
    (hfits : 0 < rangeDistance start stop step → rangeDistance start stop step + |step.toInt| ≤ 2 ^ 63) :
    IsLength start stop step (w.items (.range start stop step)).length ∧
      (w.items (.range start stop step)).length < 2 ^ 63 ∧
      ∀ (j : Nat) (x : Value), (w.items (.range start stop step))[j]? = some x →
        ∃ m : Int64, x = .int m ∧ m.toInt = start.toInt + j * step.toInt := by
  obtain ⟨n, hn⟩ := exists_isLength start stop hstep
  have hlength := toInt_rangeLength_of_fits hstep hfits hn
  have hbound := (rangeLength start stop step).toInt_lt
  have hitems : (w.items (.range start stop step)).length = n := by
    rw [items, List.length_map, length_rangeItems hstep hfits hn]
  rw [hitems]
  refine ⟨hn, by omega, fun j x hx => ?_⟩
  have hj : j < n := hitems ▸ (List.getElem?_eq_some_iff.mp hx).1
  exact ⟨_, getElem?_items_range hx, toInt_rangeItem ((hn j).mp hj) hstep⟩

/-- **One sequence:** what all operations say about the items of a value. -/
structure SequenceLaws (w : World) (v : Value) (items : List Value) : Prop where
  /-- Iteration gives the items. -/
  iterates : w.Iterates v items
  /-- The length is their number. -/
  length : ∀ name, callBuiltin .len ⟨name, [v], []⟩ w = .ok (.int (Int64.ofNat items.length), w)
  /-- The value counts as true iff there is an item. -/
  truthy : w.truthy v = true ↔ 0 < items.length
  /-- An index, counted from the start or from the end, gives the item with its number. -/
  inside : ∀ (k : Value) (i : Int64), k.asInt? = some i → ∀ (j : Nat) (x : Value), items[j]? = some x →
    i.toInt = j ∨ i.toInt = j - items.length →
      ∃ found m, itemAt v k w = .ok (found, { w with identities := m }) ∧ Value.SameItem found x
  /-- Any other index is out of range. -/
  outside : ∀ (k : Value) (i : Int64), k.asInt? = some i → i.toInt < -items.length ∨ items.length ≤ i.toInt →
    ∃ p : Problem, itemAt v k w = .error p ∧ p.kind = .indexError
  /-- The items of a range go on by its step, up to its end. -/
  progression : ∀ start stop step, v = .range start stop step → IsLength start stop step items.length ∧
    items.length < 2 ^ 63 ∧ ∀ (j : Nat) (x : Value), items[j]? = some x →
      ∃ m : Int64, x = .int m ∧ m.toInt = start.toInt + j * step.toInt
  /-- A slice has the items between its ends, none if they are not in order. -/
  slice : w.IsSliceable v → ∀ (lower upper : Value) (a b : Nat), SliceEnd items.length 0 lower a →
    SliceEnd items.length items.length upper b → ∃ u w', Lang.slice v lower upper w = .ok (u, w') ∧
      u.typeName = v.typeName ∧ w'.Iterates u ((items.drop a).take (b - a))
  /-- The parts before and behind an index, put together, have the items of the whole, and equal it iff each item
  equals itself. -/
  parts : w.IsSliceable v → ∀ (k : Value) (i : Int64), k.asInt? = some i → w.Rejoins v k items

/-- **Sequences are sequences:** all operations on one agree on its items. -/
theorem sequence_laws (w : World) (v : Value) (h : w.IsSequence v) : ∃ items, w.SequenceLaws v items := by
  refine ⟨w.items v, h.iterates, ?_, h.truthy_iff, ?_, ?_, ?_, ?_, ?_⟩
  · intro name
    have hcheck : Arguments.check ⟨name, [v], []⟩ 1 1 [] w = .ok ((), w) := rfl
    rw [callBuiltin, op_bind hcheck]
    exact h.size
  · exact fun _ _ hk _ _ hx hi => h.itemAt_inside hk hx hi
  · exact fun _ _ hk hi => h.itemAt_outside hk hi
  · rintro start stop step rfl
    cases h with
    | range hstep hfits => exact items_range hstep hfits
  · exact fun hs _ _ _ _ hlower hupper => hs.slice hlower hupper
  · exact fun hs _ _ hk => hs.rejoins hk

/-- A range that goes down. -/
theorem sequence_laws_range : World.empty.IsSequence (.range 10 0 (-3)) ∧
    ∃ items, World.empty.SequenceLaws (.range 10 0 (-3)) items := by
  have h : World.empty.IsSequence (.range 10 0 (-3)) := .range (by decide) (by decide)
  exact ⟨h, sequence_laws World.empty (.range 10 0 (-3)) h⟩

/-- **A list that its parts do not equal:** its item is no number, and does not equal itself. -/
theorem parts_not_whole :
    let w : World := { World.empty with lists := #[[.float (0.0 / 0.0)]] }
    w.IsSliceable (.list 0) ∧ ∃ u₁ w₁ u₂ w₂ c w₃, Lang.slice (.list 0) .none (.int 0) w = .ok (u₁, w₁) ∧
      Lang.slice (.list 0) (.int 0) .none w₁ = .ok (u₂, w₂) ∧ binary .add u₁ u₂ w₂ = .ok (c, w₃) ∧
      equal c (.list 0) w₃ = .ok (false, w₃) := by
  intro w
  refine ⟨.list (by decide), _, _, _, _, _, _, rfl, rfl, rfl, ?_⟩
  have hstart : clampIndex 0 1 = 0 := rfl
  have hnan : ((0.0 / 0.0 : Float) == 0.0 / 0.0) = false := by decide
  refine equal_eq_ok.mpr ⟨equalValue_eq_some.mpr ⟨2, ?_⟩, rfl⟩
  rw [Lang.equal?]
  simp [equal?.equalItems, list, w, hstart, allPairs?, Lang.equal?, equalNumbers, Value.asInt?, Value.asFloat?,
    hnan]

end World

end Transcript.Lang
