import Transcript.Proofs.Test.Placement
import Mathlib.Data.Nat.Digits.Defs
import Mathlib.Data.String.Basic

/-!
# The order of test cases without a group

A test case that no directive puts into a group is named by its place in the document, and test cases are sorted
by their names as texts. So those without a group are in the order of the document as long as the numbers of
their places have the same width. Otherwise the first digits of the longer number count, and where these
are the shorter number, the longer one comes first.

Numerals that are compared as texts are compared digit by digit. Those with the same number of digits are in the
order of their numbers. A shorter one is compared with as many digits of a longer one as it has itself; where
these are the same, what comes after the numerals decides.

Results:
* `toDigits_lt`: numerals of the same width.
* `exists_toDigits_eq`: the first digits of a numeral.
* `closed_lt`, `closed_gt`: numerals behind which there is a character that comes after all digits.
* `name_lt`, `name_gt`: the order of names made of places.
* `IsPlacing.lt_iff_of_isUnnamed`: the order of regions with such names.
* `unnamed_order`: the order of the test cases of a text that are in no group.
* `eleventh_precedes_second`: it is not the order of the document.
-/

namespace Transcript.Text

/-! ## Numerals as texts -/

/-- The number of digits of a number. -/
def width (n : Nat) : Nat := (Nat.toDigits 10 n).length

/-- **The number that the first digits of a numeral write,** so many as another number has. -/
def leading (n other : Nat) : Nat := n / 10 ^ (width n - width other)

theorem width_pos (n : Nat) : 0 < width n := Nat.length_toDigits_pos

theorem width_le_iff {n k : Nat} (hk : 0 < k) : width n ≤ k ↔ n < 10 ^ k :=
  Nat.length_toDigits_le_iff (by decide) hk

theorem width_mono {m n : Nat} (h : m ≤ n) : width m ≤ width n :=
  (width_le_iff (width_pos n)).mpr (Nat.lt_of_le_of_lt h ((width_le_iff (width_pos n)).mp (Nat.le_refl _)))

theorem toDigits_of_lt {n : Nat} (h : n < 10) : Nat.toDigits 10 n = [n.digitChar] := Nat.toDigits_of_lt_base h

theorem toDigits_of_ge {n : Nat} (h : 10 ≤ n) :
    Nat.toDigits 10 n = Nat.toDigits 10 (n / 10) ++ [(n % 10).digitChar] := Nat.toDigits_of_base_le (by decide) h

theorem width_of_lt {n : Nat} (h : n < 10) : width n = 1 := congrArg List.length (toDigits_of_lt h)

theorem width_of_ge {n : Nat} (h : 10 ≤ n) : width n = width (n / 10) + 1 := by
  rw [width, toDigits_of_ge h, List.length_append]
  rfl

theorem digitChar_lt {a b : Nat} (hb : b < 10) (h : a < b) : a.digitChar < b.digitChar := by
  have hall : ∀ b < 10, ∀ a < b, a.digitChar < b.digitChar := by decide
  exact hall b hb a h

/-- **Numerals of the same width** are in the order of their numbers, whatever comes after them. -/
theorem toDigits_lt {m n : Nat} (h : m < n) (hwidth : width m = width n) (x y : List Char) :
    Nat.toDigits 10 m ++ x < Nat.toDigits 10 n ++ y := by
  induction n using Nat.strongRecOn generalizing m x y with
  | ind n ih =>
    by_cases hn : n < 10
    · rw [toDigits_of_lt hn, toDigits_of_lt (Nat.lt_trans h hn)]
      exact List.cons_lt_cons_iff.mpr (.inl (digitChar_lt hn h))
    · have hn : 10 ≤ n := Nat.le_of_not_lt hn
      have hm : 10 ≤ m := by
        by_contra hm
        have hone := width_of_lt (Nat.lt_of_not_le hm)
        have hmore := width_of_ge hn
        have := width_pos (n / 10)
        omega
      rw [toDigits_of_ge hn, toDigits_of_ge hm, List.append_assoc, List.append_assoc]
      by_cases hfirst : m / 10 < n / 10
      · refine ih (n / 10) (by omega) hfirst ?_ _ _
        rw [width_of_ge hm, width_of_ge hn] at hwidth
        exact Nat.succ.inj hwidth
      · have hsame : m / 10 = n / 10 := by omega
        rw [hsame]
        refine List.append_left_lt (List.cons_lt_cons_iff.mpr (.inl ?_))
        exact digitChar_lt (Nat.mod_lt n (by decide)) (by omega)

/-- **The first digits of a numeral** are a numeral. -/
theorem exists_toDigits_eq {n k : Nat} (h : 10 ^ k ≤ n) :
    ∃ rest, rest.length = k ∧ Nat.toDigits 10 n = Nat.toDigits 10 (n / 10 ^ k) ++ rest := by
  induction k generalizing n with
  | zero => exact ⟨[], rfl, by simp⟩
  | succ k ih =>
    have hn : 10 ≤ n := Nat.le_trans (Nat.le_self_pow (Nat.succ_ne_zero k) 10) h
    have hk : 10 ^ k ≤ n / 10 := (Nat.le_div_iff_mul_le (by decide)).mpr h
    obtain ⟨rest, hlength, heq⟩ := ih hk
    refine ⟨rest ++ [(n % 10).digitChar], by simp [hlength], ?_⟩
    rw [toDigits_of_ge hn, heq, List.append_assoc, Nat.div_div_eq_div_mul, Nat.pow_succ, Nat.mul_comm]

section

variable {m n : Nat} (h : m < n)
include h

theorem pow_le_of_lt : 10 ^ (width n - width m) ≤ n := by
  by_cases hk : width n - width m = 0
  · rw [hk]
    exact Nat.one_le_of_lt h
  · by_contra hlt
    have hle := (width_le_iff (Nat.pos_of_ne_zero hk)).mpr (Nat.lt_of_not_le hlt)
    have hm := width_pos m
    have hn := width_pos n
    omega

/-- A numeral begins with one of the width of a smaller one. -/
theorem exists_leading : width m = width (leading n m) ∧
    ∃ rest, Nat.toDigits 10 n = Nat.toDigits 10 (leading n m) ++ rest := by
  obtain ⟨rest, hlength, heq⟩ := exists_toDigits_eq (pow_le_of_lt h)
  refine ⟨?_, rest, heq⟩
  have hwidth : width n = width (leading n m) + rest.length := by
    rw [width, heq, List.length_append]
    rfl
  have hmono := width_mono (Nat.le_of_lt h)
  omega

/-- A numeral that is below the first digits of a greater one comes first. -/
theorem closed_lt (hlead : m < leading n m) (c : Char) :
    Nat.toDigits 10 m ++ [c] < Nat.toDigits 10 n ++ [c] := by
  obtain ⟨hwidth, rest, heq⟩ := exists_leading h
  rw [heq, List.append_assoc]
  exact toDigits_lt hlead hwidth _ _

/-- **A numeral that is not below the first digits of a greater one** comes behind it, if what follows both of them
comes behind all digits. -/
theorem closed_gt (hlead : leading n m ≤ m) {c : Char} (hc : ∀ d : Char, d.isDigit = true → d < c) :
    Nat.toDigits 10 n ++ [c] < Nat.toDigits 10 m ++ [c] := by
  obtain ⟨hwidth, rest, heq⟩ := exists_leading h
  rw [heq, List.append_assoc]
  rcases Nat.lt_or_eq_of_le hlead with hlt | hsame
  · exact toDigits_lt hlt hwidth.symm _ _
  · rw [hsame]
    refine List.append_left_lt ?_
    cases rest with
    | nil =>
      rw [hsame, List.append_nil] at heq
      have hmn : n = m := by
        rw [← Nat.ofDigitChars_ten_toDigits (n := n), heq, Nat.ofDigitChars_ten_toDigits]
      exact absurd hmn (Nat.ne_of_gt h)
    | cons d rest =>
      have hd : d ∈ Nat.toDigits 10 n := by simp [heq]
      exact List.cons_lt_cons_iff.mpr (.inl (hc d (Nat.isDigit_of_mem_toDigits (by decide) (by decide) hd)))

end

end Transcript.Text

namespace Transcript.Test

open Doc Lang

/-! ## Names made of places -/

/-- **Whether a region is in no group of its own.** -/
def Region.isUnnamed (r : Region) : Bool := r.groups.head?.all (· == "default")

theorem Region.IsOf.name_of_isUnnamed {filename : String} {index : Nat} {n : Node} {r : Region}
    (h : r.IsOf filename index n) (hr : r.isUnnamed = true) : r.name = s!"{filename}[{index}]" := by
  rw [h.name_eq]
  unfold Region.isUnnamed at hr
  rw [h.groups_eq] at hr
  unfold regionName
  cases hgroup : n.attributes.groups.head? with
  | none => rfl
  | some group =>
    rw [hgroup, Option.all_some, beq_iff_eq] at hr
    exact if_pos hr

theorem toList_name (filename : String) (index : Nat) :
    (s!"{filename}[{index}]").toList = filename.toList ++ '[' :: (Nat.toDigits 10 index ++ [']']) := by
  have hopen : (toString "[").toList = ['['] := rfl
  have hclose : (toString "]").toList = [']'] := rfl
  have hname : (toString filename).toList = filename.toList := rfl
  simp [hopen, hclose, hname]

theorem name_lt_of_closed {filename : String} {i j : Nat}
    (h : Nat.toDigits 10 i ++ [']'] < Nat.toDigits 10 j ++ [']']) :
    s!"{filename}[{i}]" < s!"{filename}[{j}]" := by
  rw [String.lt_iff_toList_lt, toList_name, toList_name]
  exact List.append_left_lt (List.cons_lt_cons_iff.mpr (.inr ⟨rfl, h⟩))

/-- The bracket comes behind all digits. -/
theorem isDigit_lt_bracket (d : Char) (h : d.isDigit = true) : d < ']' := by
  have hle : d.val ≤ '9'.val := (by simpa [Char.isDigit] using h : _ ∧ _).2
  exact UInt32.lt_of_le_of_lt hle (by decide)

section

variable {filename : String} {i j : Nat} (h : i < j)
include h

/-- A place that is below the first digits of a later one comes first. -/
theorem name_lt (hlead : i < Text.leading j i) : s!"{filename}[{i}]" < s!"{filename}[{j}]" :=
  name_lt_of_closed (Text.closed_lt h hlead ']')

/-- **A place that is not below the first digits of a later one** comes behind it. -/
theorem name_gt (hlead : ¬ i < Text.leading j i) : s!"{filename}[{j}]" < s!"{filename}[{i}]" :=
  name_lt_of_closed (Text.closed_gt h (Nat.le_of_not_lt hlead) isDigit_lt_bracket)

end

/-! ## The order of regions -/

/-- Regions are in the order of their names. -/
theorem IsPlacing.lt_of_name_lt {filename : String} {nodes : List Node} {placed : List (Region × Nat)}
    (h : IsPlacing filename nodes placed) {p q : Nat} {a b : Region × Nat} (ha : placed[p]? = some a)
    (hb : placed[q]? = some b) (hname : a.1.name < b.1.name) : p < q := by
  obtain ⟨hp, rfl⟩ := List.getElem?_eq_some_iff.mp ha
  obtain ⟨hq, rfl⟩ := List.getElem?_eq_some_iff.mp hb
  by_contra hle
  rcases Nat.lt_or_eq_of_le (Nat.le_of_not_lt hle) with hlt | rfl
  · rcases List.pairwise_iff_getElem.mp h.sorted q p hq hp hlt with hgt | ⟨heq, -⟩
    · exact String.lt_asymm hname hgt
    · exact String.lt_irrefl _ (heq ▸ hname)
  · exact String.lt_irrefl _ hname

/-- **The order of regions without a group:** the one with the smaller number comes first if the number is below
the first digits of the other one. -/
theorem IsPlacing.lt_iff_of_isUnnamed {filename : String} {nodes : List Node} {placed : List (Region × Nat)}
    (h : IsPlacing filename nodes placed) {p q i j : Nat} {r s : Region} (hr : placed[p]? = some (r, i))
    (hs : placed[q]? = some (s, j)) (hru : r.isUnnamed = true) (hsu : s.isUnnamed = true) (hij : i < j) :
    p < q ↔ i < Text.leading j i := by
  obtain ⟨n, -, hn⟩ := h.isOf r i (List.mem_of_getElem? hr)
  obtain ⟨m, -, hm⟩ := h.isOf s j (List.mem_of_getElem? hs)
  have hrname := hn.name_of_isUnnamed hru
  have hsname := hm.name_of_isUnnamed hsu
  constructor
  · intro hpq
    by_contra hlead
    have hqp : q < p := h.lt_of_name_lt hs hr (by rw [hrname, hsname]; exact name_gt hij hlead)
    exact Nat.lt_asymm hpq hqp
  · intro hlead
    exact h.lt_of_name_lt hr hs (by rw [hrname, hsname]; exact name_lt hij hlead)

/-- Places are numbers of regions. -/
theorem IsPlacing.lt_length {filename : String} {nodes : List Node} {placed : List (Region × Nat)}
    (h : IsPlacing filename nodes placed) {r : Region} {i : Nat} (hr : (r, i) ∈ placed) : i < nodes.length :=
  List.mem_range.mp (h.perm.mem_iff.mp (List.mem_map_of_mem hr))

/-- Each place has a region. -/
theorem IsPlacing.exists_region {filename : String} {nodes : List Node} {placed : List (Region × Nat)}
    (h : IsPlacing filename nodes placed) {i : Nat} (hi : i < nodes.length) :
    ∃ (p : Nat) (r : Region), placed[p]? = some (r, i) := by
  obtain ⟨⟨r, j⟩, hr, hj⟩ := List.mem_map.mp (h.perm.mem_iff.mpr (List.mem_range.mpr hi))
  obtain ⟨p, hp⟩ := List.mem_iff_getElem?.mp hr
  exact ⟨p, r, hj ▸ hp⟩

/-! ## The order of test cases -/

/-- **The nodes of a text that hold a session,** in the order of the document. -/
def regionNodes (text : List Char) (name : String) : List Node :=
  let d := Document.ofText (Format.ofName name.toList) text name (Directives.setup .empty)
  (regionIds d).map d.node

/-- **The order of the test cases of a text** that are in no group. Of two of them, the one that comes first in the
document comes first if the number of its place is below the first digits of the other number, so many as it
has itself. With up to ten regions it always does. -/
theorem unnamed_order {text : List Char} {name : String} {globals extra : Option (Bindings Value)}
    {w w' : World} {cases : List Case}
    (h : findCases text (some name) globals extra w = some (.ok cases, w')) :
    ∃ placed, placed.map Prod.fst = cases.map Case.region ∧ IsPlacing name (regionNodes text name) placed ∧
      ∀ (p q i j : Nat) (r s : Region), placed[p]? = some (r, i) → placed[q]? = some (s, j) →
        r.isUnnamed = true → s.isUnnamed = true → i < j →
        (p < q ↔ i < Text.leading j i) ∧ ((regionNodes text name).length ≤ 10 → p < q) := by
  obtain ⟨placed, hplaced, hplacing⟩ := regionsOf_placing (findCases_eq h).symm
  rw [filter_traverse] at hplacing
  refine ⟨placed, hplaced, hplacing, fun p q i j r s hr hs hru hsu hij => ?_⟩
  have horder := hplacing.lt_iff_of_isUnnamed hr hs hru hsu hij
  refine ⟨horder, fun hsmall => horder.mpr ?_⟩
  have hj : j < 10 := Nat.lt_of_lt_of_le (hplacing.lt_length (List.mem_of_getElem? hs)) hsmall
  have hwidth : Text.width j - Text.width i = 0 := by
    rw [Text.width_of_lt hj, Text.width_of_lt (Nat.lt_trans hij hj)]
  unfold Text.leading
  rwa [hwidth, Nat.pow_zero, Nat.div_one]

/-- Eleven tests. -/
def elevenBlocks : List Char := (List.replicate 11 ".. doctest::\n\n   >>> 1\n   1\n\n".toList).flatten

/-- Their regions are found. -/
theorem exists_cases_elevenBlocks :
    ∃ cases w', findCases elevenBlocks (some "t.rst") none none .empty = some (.ok cases, w') := by
  have hfound : (regions elevenBlocks (some "t.rst") .empty).toOption.isSome = true := by decide +kernel
  obtain ⟨rs, hrs⟩ := Option.isSome_iff_exists.mp hfound
  exact findCases_of_regions (Except.toOption_eq_some.mp hrs) none none .empty

theorem unnamed_order_elevenBlocks :
    ∃ cases w', findCases elevenBlocks (some "t.rst") none none .empty = some (.ok cases, w') ∧
      ∃ placed, placed.map Prod.fst = cases.map Case.region ∧
        IsPlacing "t.rst" (regionNodes elevenBlocks "t.rst") placed ∧
        ∀ (p q i j : Nat) (r s : Region), placed[p]? = some (r, i) → placed[q]? = some (s, j) →
          r.isUnnamed = true → s.isUnnamed = true → i < j →
          (p < q ↔ i < Text.leading j i) ∧ ((regionNodes elevenBlocks "t.rst").length ≤ 10 → p < q) := by
  obtain ⟨cases, w', h⟩ := exists_cases_elevenBlocks
  exact ⟨cases, w', h, unnamed_order h⟩

/-- **The eleventh test comes before the second one,** which is above it. -/
theorem eleventh_precedes_second :
    ∃ cases w', findCases elevenBlocks (some "t.rst") none none .empty = some (.ok cases, w') ∧
      ∃ placed, placed.map Prod.fst = cases.map Case.region ∧
        IsPlacing "t.rst" (regionNodes elevenBlocks "t.rst") placed ∧
        ∃ (p q : Nat) (r s : Region), placed[p]? = some (r, 1) ∧ placed[q]? = some (s, 10) ∧
          r.isUnnamed = true ∧ s.isUnnamed = true ∧ r.line < s.line ∧ q < p := by
  obtain ⟨cases, w', h⟩ := exists_cases_elevenBlocks
  obtain ⟨placed, hplaced, hplacing⟩ := regionsOf_placing (findCases_eq h).symm
  rw [filter_traverse] at hplacing
  change IsPlacing "t.rst" (regionNodes elevenBlocks "t.rst") placed at hplacing
  have hnodes : (regionNodes elevenBlocks "t.rst").map (fun n => (n.attributes.groups, n.line)) =
      (List.range 11).map fun i => (["default"], some (5 * i + 1)) := by decide +kernel
  have hlength : (regionNodes elevenBlocks "t.rst").length = 11 := by simpa using congrArg List.length hnodes
  have hregion {r : Region} {i : Nat} (hr : (r, i) ∈ placed) : r.isUnnamed = true ∧ r.line = 5 * i + 1 := by
    obtain ⟨n, hi, hn⟩ := hplacing.isOf r i hr
    have hnode := congrArg (·[i]?) hnodes
    rw [List.getElem?_map, hi, List.getElem?_map, List.getElem?_range (hlength ▸ hplacing.lt_length hr)] at hnode
    obtain ⟨hgroups, hline⟩ := Prod.mk.inj (Option.some.inj hnode)
    refine ⟨?_, by rw [hn.line_eq, hline]; rfl⟩
    unfold Region.isUnnamed
    rw [hn.groups_eq, hgroups]
    rfl
  obtain ⟨p, r, hr⟩ := hplacing.exists_region (show 1 < _ by rw [hlength]; decide)
  obtain ⟨q, s, hs⟩ := hplacing.exists_region (show 10 < _ by rw [hlength]; decide)
  obtain ⟨hru, hrline⟩ := hregion (List.mem_of_getElem? hr)
  obtain ⟨hsu, hsline⟩ := hregion (List.mem_of_getElem? hs)
  refine ⟨cases, w', h, placed, hplaced, hplacing, p, q, r, s, hr, hs, hru, hsu, ?_, ?_⟩
  · rw [hrline, hsline]
    decide
  · have hnot : ¬ p < q := fun hpq =>
      absurd ((hplacing.lt_iff_of_isUnnamed hr hs hru hsu (by decide)).mp hpq) (by decide +kernel)
    have hne : p ≠ q := by
      rintro rfl
      rw [hr] at hs
      cases hs
    omega

end Transcript.Test
