import Transcript.Compare.Check
import Transcript.Proofs.Compare.BlankLine
import Transcript.Proofs.Text.Search
import Mathlib.Data.List.Flatten

/-!
# Gaps and blanks

An expectation with gaps stands for the texts that have its pieces in this order with any fillings
between them. The match looks for each piece as far to the left as possible; this loses nothing,
since what is left behind an earlier occurrence only makes the next filling longer.

Such an expectation matches word by word: what stands between its words stands in the output, too,
and each word matches a part of the output between. Reducing blanks to single spaces keeps such a match
as long as each word matches something. A word made of gaps alone may match nothing; then the blanks on
its two sides become one in the output, which cannot stand for both.

Results:
* `findPieces?_isSome_iff`: the search succeeds if and only if the pieces can be placed at all.
* `ellipsisMatch_exact`: an output matches if and only if it is the pieces with some fillings.
* `Fills`, `ellipsisMatch_iff_matches`: matching with gaps, as a relation.
* `matches_append_cons`: a match can be taken apart at a character that belongs to no gap.
* `exists_matches_words`: a match, word by word.
* `matches_normalizeBlanks`: a match that leaves no word out is kept if blanks are reduced.
-/

namespace Transcript.Compare

open Text

/-! ## Pieces with fillings -/

/-- Each of the pieces behind its filling. -/
def filled (fillings pieces : List (List Char)) : List Char :=
  (List.zipWith (· ++ ·) fillings pieces).flatten

@[simp] theorem filled_nil : filled [] [] = [] := rfl

@[simp] theorem filled_cons (x p : List Char) (xs ps : List (List Char)) :
    filled (x :: xs) (p :: ps) = x ++ (p ++ filled xs ps) := by
  simp [filled]

theorem filled_concat {fillings pieces : List (List Char)} (h : fillings.length = pieces.length)
    (x p : List Char) : filled (fillings ++ [x]) (pieces ++ [p]) = filled fillings pieces ++ (x ++ p) := by
  unfold filled
  rw [List.zipWith_append h, List.flatten_append]
  simp

/-- A text in which pieces can be placed one after the other. -/
def Fits (pieces : List (List Char)) (text : List Char) : Prop :=
  ∃ fillings tail, fillings.length = pieces.length ∧ text = filled fillings pieces ++ tail

/-- More text in front leaves room for the pieces. -/
theorem Fits.append_left {pieces : List (List Char)} {text : List Char} (h : Fits pieces text)
    (more : List Char) : Fits pieces (more ++ text) := by
  obtain ⟨fillings, tail, hlength, rfl⟩ := h
  cases fillings with
  | nil =>
    obtain rfl := List.length_eq_zero_iff.mp hlength.symm
    exact ⟨[], more ++ tail, rfl, rfl⟩
  | cons x xs =>
    obtain ⟨p, ps, rfl⟩ := List.exists_cons_of_length_eq_add_one hlength.symm
    exact ⟨(more ++ x) :: xs, tail, hlength, by simp⟩

/-- A piece can be placed with the later ones behind it. -/
theorem fits_cons {p : List Char} {ps : List (List Char)} {text : List Char} :
    Fits (p :: ps) text ↔ ∃ x rest, text = x ++ (p ++ rest) ∧ Fits ps rest := by
  constructor
  · rintro ⟨fillings, tail, hlength, rfl⟩
    obtain ⟨x, xs, rfl⟩ := List.exists_cons_of_length_eq_add_one hlength
    exact ⟨x, filled xs ps ++ tail, by simp, xs, tail, Nat.succ.inj hlength, rfl⟩
  · rintro ⟨x, rest, rfl, xs, tail, hlength, rfl⟩
    exact ⟨x :: xs, tail, congrArg Nat.succ hlength, by simp⟩

/-- **The search loses nothing:** it finds the pieces if and only if they can be placed at all. -/
theorem findPieces?_isSome_iff {pieces : List (List Char)} {text : List Char} :
    (findPieces? pieces text).isSome = true ↔ Fits pieces text := by
  induction pieces generalizing text with
  | nil => exact ⟨fun _ => ⟨[], text, rfl, rfl⟩, fun _ => rfl⟩
  | cons p ps ih =>
    have hstep : findPieces? (p :: ps) text =
        (splitAt? p text).bind fun found => findPieces? ps found.2 := by
      unfold findPieces?
      rw [List.foldlM_cons]
      cases splitAt? p text <;> rfl
    rw [hstep, fits_cons]
    constructor
    · intro h
      cases hsplit : splitAt? p text with
      | none =>
        rw [hsplit] at h
        cases h
      | some found =>
        rw [hsplit] at h
        exact ⟨found.1, found.2, (splitAt?_eq_some hsplit).trans (List.append_assoc _ _ _), ih.mp h⟩
    · rintro ⟨x, rest, rfl, hrest⟩
      -- The leftmost occurrence leaves `rest` with more text in front.
      obtain ⟨first, more, hsplit⟩ := splitAt?_of_append x p rest
      rw [hsplit]
      exact ih.mpr (hrest.append_left more)

/-! ## Matches -/

/-- The match of an expectation with gaps: its ends do not overlap, and between them the other pieces
can be placed. -/
theorem ellipsisMatch_of_gaps {want got first last : List Char} {middle : List (List Char)}
    (h : splitOn gap want = first :: (middle ++ [last])) :
    ellipsisMatch want got = true ↔
      ∃ window, got = first ++ (window ++ last) ∧ Fits middle window := by
  obtain ⟨second, rest, hrest⟩ := List.exists_cons_of_ne_nil (List.concat_ne_nil last middle)
  have hwindow (window : List Char) : (afterBegin? first got).bind (beforeEnd? last) = some window ↔
      got = first ++ (window ++ last) := by
    rw [Option.bind_eq_some_iff]
    simp only [afterBegin?_eq_some, beforeEnd?_eq_some]
    constructor
    · rintro ⟨_, rfl, rfl⟩
      rfl
    · rintro rfl
      exact ⟨_, rfl, rfl⟩
  have hlast : (second :: rest).getLast (List.cons_ne_nil second rest) = last := by
    simp only [← hrest, List.getLast_append_singleton]
  have hmiddle : (second :: rest).dropLast = middle := by rw [← hrest, List.dropLast_concat]
  have hmatch : ellipsisMatch want got =
      ((afterBegin? first got).bind (beforeEnd? last)).any fun window => (findPieces? middle window).isSome := by
    rw [← hlast, ← hmiddle]
    unfold ellipsisMatch
    rw [h, hrest]
    dsimp only
    cases (afterBegin? first got).bind (beforeEnd? ((second :: rest).getLast (List.cons_ne_nil second rest))) <;> rfl
  rw [hmatch, Option.any_eq_true]
  simp only [hwindow, findPieces?_isSome_iff]

/-- **An output matches an expectation with gaps** if and only if it is the pieces of the expectation
with some fillings between neighbours. -/
theorem ellipsisMatch_iff {want got first : List Char} {rest : List (List Char)}
    (h : splitOn gap want = first :: rest) :
    ellipsisMatch want got = true ↔
      ∃ fillings, fillings.length = rest.length ∧ got = first ++ filled fillings rest := by
  rcases List.eq_nil_or_concat' rest with rfl | ⟨middle, last, rfl⟩
  · have hwant : want = first := by
      have hcut : IsCut gap want (splitOn gap want) := splitOn_isCut (by decide) want
      rw [h] at hcut
      cases hcut with
      | whole => rfl
      | cut _ hcut => nomatch hcut
    rw [ellipsisMatch_of_no_gap want got first h, beq_iff_eq, hwant]
    constructor
    · rintro rfl
      exact ⟨[], rfl, (List.append_nil _).symm⟩
    · rintro ⟨fillings, hlength, rfl⟩
      obtain rfl := List.length_eq_zero_iff.mp hlength
      exact (List.append_nil _).symm
  · rw [ellipsisMatch_of_gaps h]
    constructor
    · rintro ⟨window, rfl, fillings, tail, hlength, rfl⟩
      refine ⟨fillings ++ [tail], by simp [hlength], ?_⟩
      rw [filled_concat hlength, List.append_assoc]
    · rintro ⟨fillings, hlength, rfl⟩
      obtain ⟨init, tail, rfl⟩ : ∃ init tail, fillings = init ++ [tail] := by
        rcases List.eq_nil_or_concat' fillings with rfl | hconcat
        · simp at hlength
        · exact hconcat
      have hinit : init.length = middle.length := by simpa using hlength
      refine ⟨filled init middle ++ tail, ?_, init, tail, hinit, rfl⟩
      rw [filled_concat hinit, List.append_assoc]

/-- **Matching with gaps is exact.** The pieces of an expectation are what its leftmost gaps leave; an
output matches if and only if it is these pieces with fillings between neighbours, and then its
beginning and its end, which are the outer pieces, do not overlap. -/
theorem ellipsisMatch_exact (want got : List Char) :
    ∃ first rest, (∀ ps, IsCut gap want ps ↔ ps = first :: rest) ∧
      (ellipsisMatch want got = true ↔
        ∃ fillings, fillings.length = rest.length ∧ got = first ++ filled fillings rest) ∧
      (ellipsisMatch want got = true →
        ∀ last ∈ rest.getLast?, ∃ window, got = first ++ (window ++ last)) := by
  obtain ⟨first, rest, h⟩ := List.exists_cons_of_ne_nil (splitOn_ne_nil gap want)
  refine ⟨first, rest, fun ps => h ▸ isCut_iff (by decide), ellipsisMatch_iff h, ?_⟩
  rintro hmatch last hlast
  obtain ⟨middle, rfl⟩ := List.getLast?_eq_some_iff.mp hlast
  obtain ⟨window, hgot, -⟩ := (ellipsisMatch_of_gaps h).mp hmatch
  exact ⟨window, hgot⟩

example : ellipsisMatch "aa...aa".toList "aaa".toList = false := by decide

/-! ## Pieces with fillings, one after the other -/

/-- **Pieces with fillings between neighbours.** -/
inductive Fills : List (List Char) → List Char → Prop
  | last (p : List Char) : Fills [p] p
  | cons (p x : List Char) {ps : List (List Char)} {g : List Char} (h : Fills ps g) :
      Fills (p :: ps) (p ++ (x ++ g))

theorem fills_singleton {p g : List Char} : Fills [p] g ↔ g = p := by
  constructor
  · intro h
    cases h with
    | last => rfl
    | cons _ _ h => nomatch h
  · rintro rfl
    exact .last g

theorem fills_cons {p g : List Char} {ps : List (List Char)} (hps : ps ≠ []) :
    Fills (p :: ps) g ↔ ∃ x rest, g = p ++ (x ++ rest) ∧ Fills ps rest := by
  constructor
  · intro h
    cases h with
    | last => exact absurd rfl hps
    | cons _ x h => exact ⟨x, _, rfl, h⟩
  · rintro ⟨x, rest, rfl, h⟩
    exact h.cons p x

/-- What the first piece begins with begins the text. -/
theorem fills_append {z p g : List Char} {ps : List (List Char)} :
    Fills ((z ++ p) :: ps) g ↔ ∃ rest, g = z ++ rest ∧ Fills (p :: ps) rest := by
  cases ps with
  | nil => simp [fills_singleton]
  | cons q ps =>
    rw [fills_cons (List.cons_ne_nil q ps)]
    constructor
    · rintro ⟨x, rest, rfl, h⟩
      exact ⟨p ++ (x ++ rest), List.append_assoc _ _ _, h.cons p x⟩
    · rintro ⟨rest, rfl, h⟩
      obtain ⟨x, more, rfl, hmore⟩ := (fills_cons (List.cons_ne_nil q ps)).mp h
      exact ⟨x, more, (List.append_assoc _ _ _).symm, hmore⟩

theorem Fills.isPrefix {p g : List Char} {ps : List (List Char)} (h : Fills (p :: ps) g) : p <+: g := by
  cases h with
  | last => exact List.prefix_rfl
  | cons _ x _ => exact List.prefix_append p _

theorem fills_iff {first got : List Char} {rest : List (List Char)} :
    Fills (first :: rest) got ↔ ∃ fillings, fillings.length = rest.length ∧ got = first ++ filled fillings rest := by
  induction rest generalizing first got with
  | nil => simp [fills_singleton]
  | cons p ps ih =>
    rw [fills_cons (List.cons_ne_nil p ps)]
    constructor
    · rintro ⟨x, rest, rfl, h⟩
      obtain ⟨fillings, hlength, rfl⟩ := ih.mp h
      exact ⟨x :: fillings, congrArg Nat.succ hlength, by simp⟩
    · rintro ⟨fillings, hlength, rfl⟩
      obtain ⟨x, xs, rfl⟩ := List.exists_cons_of_length_eq_add_one hlength
      exact ⟨x, p ++ filled xs ps, by simp, ih.mpr ⟨xs, Nat.succ.inj hlength, rfl⟩⟩

/-- **An output matches an expectation** if it is the pieces of the expectation with fillings. -/
def Matches (want got : List Char) : Prop := Fills (splitOn gap want) got

theorem ellipsisMatch_iff_matches {want got : List Char} : ellipsisMatch want got = true ↔ Matches want got := by
  obtain ⟨first, rest, h⟩ := List.exists_cons_of_ne_nil (splitOn_ne_nil gap want)
  rw [ellipsisMatch_iff h, Matches, h, fills_iff]

@[simp] theorem matches_nil {got : List Char} : Matches [] got ↔ got = [] := fills_singleton

/-! ## Matches around a character -/

theorem prefix_of_prefix_append_cons {m s b : List Char} {c : Char} (hc : c ∉ m) (h : m <+: s ++ c :: b) : m <+: s := by
  rcases List.prefix_or_prefix_of_prefix h (List.prefix_append s _) with h | ⟨m', rfl⟩
  · exact h
  · rw [List.prefix_append_right_inj] at h
    cases m' with
    | nil => rw [List.append_nil]
    | cons d m' =>
      obtain ⟨rfl, -⟩ := List.cons_prefix_cons.mp h
      simp at hc

/-- **A character of no marker** leaves the markers on its two sides as they are. -/
theorem splitOn_append_cons {marker a b l f : List Char} {as fs : List (List Char)} {c : Char} (hm : marker ≠ [])
    (hc : c ∉ marker) (ha : splitOn marker a = as ++ [l]) (hb : splitOn marker b = f :: fs) :
    splitOn marker (a ++ c :: b) = as ++ (l ++ c :: f) :: fs := by
  induction hn : a.length using Nat.strongRecOn generalizing a as l with
  | ind n ih =>
    cases a with
    | nil =>
      obtain ⟨rfl, rfl⟩ : as = [] ∧ l = [] := by
        cases as <;> simp_all [splitOn, splitOnAfter]
      have hnot : ¬ marker <+: c :: b := fun h =>
        hm (List.prefix_nil.mp (prefix_of_prefix_append_cons hc (s := []) h))
      obtain ⟨f', fs', hb', hcons⟩ := splitOn_cons hnot
      obtain ⟨rfl, rfl⟩ := List.cons.inj (hb'.symm.trans hb)
      exact hcons
    | cons d ds =>
      by_cases hp : marker <+: d :: ds
      · obtain ⟨t, ht⟩ := hp
        have hlt : t.length < n := by
          have := congrArg List.length ht
          have := List.length_pos_of_ne_nil hm
          simp only [List.length_append] at *
          omega
        rw [← ht, splitOn_append hm] at ha
        obtain ⟨as', rfl, has⟩ : ∃ as', as = [] :: as' ∧ splitOn marker t = as' ++ [l] := by
          cases as with
          | nil => exact absurd (List.cons.inj ha).2 (splitOn_ne_nil marker t)
          | cons x as' => exact ⟨as', by rw [(List.cons.inj ha).1], (List.cons.inj ha).2⟩
        rw [← ht, List.append_assoc, splitOn_append hm, ih _ hlt has rfl]
        rfl
      · have hlt : ds.length < n := hn ▸ Nat.lt_succ_self ds.length
        have hnot : ¬ marker <+: d :: (ds ++ c :: b) := fun h => hp (prefix_of_prefix_append_cons hc h)
        obtain ⟨f₁, fs₁, hds, hd⟩ := splitOn_cons hp
        obtain ⟨f₂, fs₂, hrest, hcons⟩ := splitOn_cons hnot
        rw [List.cons_append, hcons]
        rw [hd] at ha
        -- The first piece gets the character; it may be the last piece, too.
        rcases List.eq_nil_or_concat' fs₁ with rfl | ⟨xs, y, rfl⟩
        · obtain ⟨rfl, hl⟩ := List.append_inj' (show [] ++ [d :: f₁] = as ++ [l] from ha) (by simp)
          obtain rfl := List.singleton_inj.mp hl
          have hsplit : splitOn marker (ds ++ c :: b) = [] ++ (f₁ ++ c :: f) :: fs := ih _ hlt hds rfl
          obtain ⟨rfl, rfl⟩ := List.cons.inj (hrest.symm.trans hsplit)
          rfl
        · obtain ⟨rfl, hl⟩ := List.append_inj' (show ((d :: f₁) :: xs) ++ [y] = as ++ [l] from ha) (by simp)
          obtain rfl := List.singleton_inj.mp hl
          have hsplit : splitOn marker (ds ++ c :: b) = (f₁ :: xs) ++ (y ++ c :: f) :: fs := ih _ hlt hds rfl
          obtain ⟨rfl, rfl⟩ := List.cons.inj (hrest.symm.trans hsplit)
          rfl

theorem fills_append_cons {as fs : List (List Char)} {l f g : List Char} {c : Char} :
    Fills (as ++ (l ++ c :: f) :: fs) g ↔ ∃ a b, g = a ++ c :: b ∧ Fills (as ++ [l]) a ∧ Fills (f :: fs) b := by
  induction as generalizing g with
  | nil =>
    rw [List.nil_append, List.append_cons, fills_append]
    constructor
    · rintro ⟨b, rfl, h⟩
      exact ⟨l, b, (List.append_cons l c b).symm, .last l, h⟩
    · rintro ⟨a, b, rfl, ha, h⟩
      obtain rfl := fills_singleton.mp ha
      exact ⟨b, List.append_cons a c b, h⟩
  | cons p as ih =>
    rw [List.cons_append, fills_cons (by simp)]
    constructor
    · rintro ⟨x, rest, rfl, h⟩
      obtain ⟨a, b, rfl, ha, hb⟩ := ih.mp h
      exact ⟨p ++ (x ++ a), b, by simp, ha.cons p x, hb⟩
    · rintro ⟨a, b, rfl, ha, hb⟩
      rw [List.cons_append, fills_cons (by simp)] at ha
      obtain ⟨x, rest, rfl, hrest⟩ := ha
      exact ⟨x, rest ++ c :: b, by simp, ih.mpr ⟨rest, b, rfl, hrest, hb⟩⟩

/-- **A match can be taken apart** at a character that belongs to no gap. -/
theorem matches_append_cons {a b g : List Char} {c : Char} (hc : c ≠ '.') :
    Matches (a ++ c :: b) g ↔ ∃ x y, g = x ++ c :: y ∧ Matches a x ∧ Matches b y := by
  have hgap : c ∉ gap := by simp [gap, hc]
  rcases List.eq_nil_or_concat' (splitOn gap a) with ha | ⟨as, l, ha⟩
  · exact absurd ha (splitOn_ne_nil gap a)
  obtain ⟨f, fs, hb⟩ := List.exists_cons_of_ne_nil (splitOn_ne_nil gap b)
  unfold Matches
  rw [splitOn_append_cons (by decide) hgap ha hb, fills_append_cons, ha, hb]

/-! ## Words -/

theorem ne_dot_of_isBlank {c : Char} (h : isBlank c = true) : c ≠ '.' := by
  rintro rfl
  revert h
  decide

theorem words_of_none {a : List Char} (h : ∀ x ∈ a, isBlank x = false) : words a = if a = [] then [] else [a] := by
  unfold words fields
  rw [pieces_of_none h]
  cases a <;> rfl

/-- A blank ends a word. -/
theorem words_append_cons {c : Char} (hc : isBlank c = true) (a b : List Char) :
    words (a ++ c :: b) = words a ++ words b := by
  have hfirst {d : Char} (hd : isBlank d = true) {a : List Char} (h : ∀ x ∈ a, isBlank x = false) (b : List Char) :
      words (a ++ d :: b) = words a ++ words b := by
    rw [words_of_none h]
    unfold words fields
    rw [pieces_append_cons h hd]
    cases a <;> rfl
  induction hn : a.length using Nat.strongRecOn generalizing a with
  | ind n ih =>
    cases hfind : a.find? isBlank with
    | none => exact hfirst hc (by simpa using hfind) b
    | some d =>
      obtain ⟨hd, a₁, a₂, rfl, hnot⟩ := List.find?_eq_some_iff_append.mp hfind
      have hnone : ∀ x ∈ a₁, isBlank x = false := by simpa using hnot
      have hlt : a₂.length < n := by
        rw [← hn, List.length_append, List.length_cons]
        omega
      rw [List.append_assoc, List.cons_append, hfirst hd hnone, hfirst hd hnone, ih _ hlt a₂ rfl, List.append_assoc]

/-- **A match, word by word.** -/
theorem exists_matches_words {want got : List Char} (h : Matches want got) :
    ∃ parts, List.Forall₂ Matches (words want) parts ∧ words got = parts.flatMap words := by
  induction hn : want.length using Nat.strongRecOn generalizing want got with
  | ind n ih =>
    cases hfind : want.find? isBlank with
    | none =>
      rw [words_of_none (by simpa using hfind)]
      split_ifs with hnil
      · subst hnil
        rw [matches_nil] at h
        exact ⟨[], .nil, h ▸ rfl⟩
      · exact ⟨[got], .cons h .nil, by simp⟩
    | some d =>
      obtain ⟨hd, a, b, rfl, -⟩ := List.find?_eq_some_iff_append.mp hfind
      obtain ⟨x, y, rfl, hx, hy⟩ := (matches_append_cons (ne_dot_of_isBlank hd)).mp h
      obtain ⟨xs, hxs, hwx⟩ := ih a.length (by simp [← hn]) hx rfl
      obtain ⟨ys, hys, hwy⟩ := ih b.length (by simp [← hn]; omega) hy rfl
      refine ⟨xs ++ ys, ?_, ?_⟩
      · rw [words_append_cons hd]
        exact List.rel_append hxs hys
      · rw [words_append_cons hd, hwx, hwy, List.flatMap_append]

/-! ## Reducing blanks -/

theorem joinWith_cons_cons (sep x y : List Char) (zs : List (List Char)) :
    joinWith sep (x :: y :: zs) = x ++ sep ++ joinWith sep (y :: zs) := rfl

theorem joinWith_append {sep : List Char} {xs ys : List (List Char)} (hx : xs ≠ []) (hy : ys ≠ []) :
    joinWith sep (xs ++ ys) = joinWith sep xs ++ sep ++ joinWith sep ys := by
  induction xs with
  | nil => exact absurd rfl hx
  | cons x xs ih =>
    cases xs with
    | nil =>
      obtain ⟨y, ys, rfl⟩ := List.exists_cons_of_ne_nil hy
      rfl
    | cons x' xs =>
      rw [List.cons_append, List.cons_append, joinWith_cons_cons, ← List.cons_append, ih (List.cons_ne_nil x' xs),
        joinWith_cons_cons]
      simp only [List.append_assoc]

/-- Words that are joined part by part. -/
theorem joinWith_flatMap {sep : List Char} {f : List Char → List (List Char)} {parts : List (List Char)}
    (h : ∀ p ∈ parts, f p ≠ []) :
    joinWith sep (parts.flatMap f) = joinWith sep (parts.map fun p => joinWith sep (f p)) := by
  induction parts with
  | nil => rfl
  | cons p ps ih =>
    obtain ⟨hp, hps⟩ := List.forall_mem_cons.mp h
    cases ps with
    | nil => simp [joinWith]
    | cons q ps =>
      have hne : (q :: ps).flatMap f ≠ [] := by
        rw [List.flatMap_cons]
        exact List.append_ne_nil_of_left_ne_nil (List.forall_mem_cons.mp hps).1 _
      rw [List.flatMap_cons, joinWith_append hp hne, ih hps]
      rfl

theorem joinWith_cons_append (sep : List Char) (c : Char) (a : List Char) (ws : List (List Char)) :
    joinWith sep ((c :: a) :: ws) = c :: joinWith sep (a :: ws) := by
  cases ws <;> rfl

/-- A character goes to the first word of what follows, or is a word of its own. -/
theorem normalizeBlanks_cons {c : Char} (hc : isBlank c = false) (s : List Char) :
    ∃ z, normalizeBlanks (c :: s) = c :: (z ++ normalizeBlanks s) ∧
      ((∃ d ∈ s.head?, isBlank d = false) → z = []) := by
  have hword {a : List Char} (ha : ∀ x ∈ a, isBlank x = false) : words (c :: a) = [c :: a] := by
    rw [words_of_none (List.forall_mem_cons.mpr ⟨hc, ha⟩), if_neg (List.cons_ne_nil c a)]
  unfold normalizeBlanks
  cases hfind : s.find? isBlank with
  | none =>
    have hnone : ∀ x ∈ s, isBlank x = false := by simpa using hfind
    rw [hword hnone, words_of_none hnone]
    refine ⟨[], ?_, fun _ => rfl⟩
    split_ifs with hs
    · rw [hs]
      rfl
    · rfl
  | some e =>
    obtain ⟨he, a, b, rfl, hnot⟩ := List.find?_eq_some_iff_append.mp hfind
    have hnone : ∀ x ∈ a, isBlank x = false := by simpa using hnot
    rw [← List.cons_append, words_append_cons he, words_append_cons he, hword hnone, words_of_none hnone]
    split_ifs with ha
    · subst ha
      refine ⟨if words b = [] then [] else [' '], ?_, fun ⟨d, hd, hblank⟩ => ?_⟩
      · split_ifs with hb
        · rw [hb]
          rfl
        · exact joinWith_append (List.cons_ne_nil [c] []) hb
      · cases hd
        rw [he] at hblank
        cases hblank
    · exact ⟨[], joinWith_cons_append [' '] c a (words b), fun _ => rfl⟩

theorem normalizeBlanks_of_isBlank {c : Char} (hc : isBlank c = true) (s : List Char) :
    normalizeBlanks (c :: s) = normalizeBlanks s := by
  unfold normalizeBlanks
  exact congrArg _ (words_append_cons hc [] s)

/-- What stands in front of a text stays in front of it. -/
theorem normalizeBlanks_append (x s : List Char) : ∃ z, normalizeBlanks (x ++ s) = z ++ normalizeBlanks s := by
  induction x with
  | nil => exact ⟨[], rfl⟩
  | cons c x ih =>
    obtain ⟨z, hz⟩ := ih
    cases hc : isBlank c with
    | true => exact ⟨z, (normalizeBlanks_of_isBlank hc _).trans hz⟩
    | false =>
      obtain ⟨y, hy, -⟩ := normalizeBlanks_cons hc (x ++ s)
      exact ⟨c :: (y ++ z), by rw [List.cons_append, hy, hz, List.cons_append, List.append_assoc]⟩

/-- A text without blanks is kept in front of what follows. -/
theorem normalizeBlanks_word_append {p : List Char} (hp : ∀ c ∈ p, isBlank c = false) (s : List Char) :
    ∃ z, normalizeBlanks (p ++ s) = p ++ (z ++ normalizeBlanks s) := by
  induction p with
  | nil => exact ⟨[], rfl⟩
  | cons c p ih =>
    obtain ⟨hc, hp⟩ := List.forall_mem_cons.mp hp
    obtain ⟨z, hz⟩ := ih hp
    obtain ⟨y, hy, hnone⟩ := normalizeBlanks_cons hc (p ++ s)
    cases p with
    | nil => exact ⟨y, hy⟩
    | cons d p =>
      rw [hnone ⟨d, rfl, hp d List.mem_cons_self⟩] at hy
      exact ⟨z, by rw [List.cons_append, hy, hz]; rfl⟩

theorem normalizeBlanks_of_none {p : List Char} (hp : ∀ c ∈ p, isBlank c = false) : normalizeBlanks p = p := by
  unfold normalizeBlanks
  rw [words_of_none hp]
  split_ifs with h
  · rw [h]
    rfl
  · rfl

/-- Pieces without blanks fill a text with reduced blanks, too. -/
theorem Fills.normalizeBlanks {ps : List (List Char)} {g : List Char} (h : Fills ps g)
    (hps : ∀ p ∈ ps, ∀ c ∈ p, isBlank c = false) : Fills ps (normalizeBlanks g) := by
  induction h with
  | last p =>
    rw [normalizeBlanks_of_none (hps p List.mem_cons_self)]
    exact .last p
  | @cons p x ps g _ ih =>
    obtain ⟨hp, hps⟩ := List.forall_mem_cons.mp hps
    obtain ⟨z, hz⟩ := normalizeBlanks_word_append hp (x ++ g)
    obtain ⟨y, hy⟩ := normalizeBlanks_append x g
    rw [hz, hy, ← List.append_assoc z]
    exact (ih hps).cons p (z ++ y)

/-- A part of an output that stands for a word still does if blanks are reduced. -/
theorem matches_word_normalizeBlanks {v p : List Char} (hv : ∀ c ∈ v, isBlank c = false) (h : Matches v p) :
    Matches v (normalizeBlanks p) := by
  have hcut : IsCut gap v (splitOn gap v) := splitOn_isCut (by decide) v
  exact Fills.normalizeBlanks h fun q hq c hc => hv c ((hcut.isInfix q hq).subset hc)

/-- A word is a part of its text without blanks, behind a blank if it does not begin the text. -/
theorem mem_words {s v : List Char} (h : v ∈ words s) :
    v ≠ [] ∧ (∀ c ∈ v, isBlank c = false) ∧ ∃ a b, s = a ++ (v ++ b) ∧ ∀ d ∈ a.getLast?, isBlank d = true := by
  induction hn : s.length using Nat.strongRecOn generalizing s with
  | ind n ih =>
    cases hfind : s.find? isBlank with
    | none =>
      have hnone : ∀ x ∈ s, isBlank x = false := by simpa using hfind
      rw [words_of_none hnone] at h
      split_ifs at h with hs
      · cases h
      · obtain rfl := List.mem_singleton.mp h
        exact ⟨hs, hnone, [], [], (List.append_nil v).symm, by simp⟩
    | some d =>
      obtain ⟨hd, x, y, rfl, -⟩ := List.find?_eq_some_iff_append.mp hfind
      rw [words_append_cons hd] at h
      rcases List.mem_append.mp h with h | h
      · obtain ⟨hne, hblank, a, b, rfl, ha⟩ := ih x.length (by simp [← hn]) h rfl
        exact ⟨hne, hblank, a, b ++ d :: y, by simp, ha⟩
      · obtain ⟨hne, hblank, a, b, rfl, ha⟩ := ih y.length (by simp [← hn]; omega) h rfl
        refine ⟨hne, hblank, x ++ d :: a, b, by simp, fun e he => ?_⟩
        cases a with
        | nil =>
          rw [List.getLast?_concat] at he
          exact Option.some.inj he ▸ hd
        | cons c a =>
          rw [List.getLast?_append, List.getLast?_cons_cons, List.getLast?_eq_some_getLast (List.cons_ne_nil c a),
            Option.some_or] at he
          exact ha e (List.getLast?_eq_some_getLast (List.cons_ne_nil c a) ▸ he)

theorem matches_joinWith {vs parts : List (List Char)} (h : List.Forall₂ Matches vs parts) :
    Matches (joinWith [' '] vs) (joinWith [' '] parts) := by
  induction h with
  | nil => exact matches_nil.mpr rfl
  | @cons v p vs ps hv hvs ih =>
    cases hvs with
    | nil => exact hv
    | cons =>
      rw [joinWith_cons_cons, joinWith_cons_cons, List.append_assoc, List.append_assoc]
      exact (matches_append_cons (by decide)).mpr ⟨p, _, rfl, hv, ih⟩

/-! ### Words that stand for something -/

/-- **A match that leaves no word out:** the blanks of the expectation stand in the output, and between them
a text that is not blank for each word. -/
inductive MatchesWords : List Char → List Char → Prop
  | last {v p : List Char} (hv : ∀ c ∈ v, isBlank c = false) (h : Matches v p) (hp : v ≠ [] → words p ≠ []) :
      MatchesWords v p
  | cons {v p want got : List Char} {c : Char} (hv : ∀ c ∈ v, isBlank c = false) (h : Matches v p)
      (hp : v ≠ [] → words p ≠ []) (hc : isBlank c = true) (hrest : MatchesWords want got) :
      MatchesWords (v ++ c :: want) (p ++ c :: got)

theorem MatchesWords.exists_parts {want got : List Char} (h : MatchesWords want got) :
    ∃ parts, List.Forall₂ Matches (words want) parts ∧ words got = parts.flatMap words ∧
      ∀ p ∈ parts, words p ≠ [] := by
  have hword {v p : List Char} (hv : ∀ c ∈ v, isBlank c = false) (h : Matches v p) (hp : v ≠ [] → words p ≠ []) :
      ∃ parts, List.Forall₂ Matches (words v) parts ∧ words p = parts.flatMap words ∧ ∀ p ∈ parts, words p ≠ [] := by
    rw [words_of_none hv]
    split_ifs with hnil
    · subst hnil
      obtain rfl := matches_nil.mp h
      exact ⟨[], .nil, rfl, by simp⟩
    · exact ⟨[p], .cons h .nil, by simp, by simpa using hp hnil⟩
  induction h with
  | last hv h hp => exact hword hv h hp
  | cons hv h hp hc _ ih =>
    obtain ⟨xs, hxs, hwx, hnx⟩ := hword hv h hp
    obtain ⟨ys, hys, hwy, hny⟩ := ih
    refine ⟨xs ++ ys, ?_, ?_, List.forall_mem_append.mpr ⟨hnx, hny⟩⟩
    · rw [words_append_cons hc]
      exact List.rel_append hxs hys
    · rw [words_append_cons hc, hwx, hwy, List.flatMap_append]

/-- A match of a single word, or one that leaves no word out. -/
def KeepsWords (want got : List Char) : Prop :=
  Matches want got ∧ (words want).length ≤ 1 ∨ MatchesWords want got

/-- **A match is kept if blanks are reduced,** unless it leaves out one of several words. -/
theorem matches_normalizeBlanks {want got : List Char} (h : KeepsWords want got) :
    Matches (normalizeBlanks want) (normalizeBlanks got) := by
  have hblank : ∀ v ∈ words want, ∀ c ∈ v, isBlank c = false := fun v hv => (mem_words hv).2.1
  rcases h with ⟨h, hone⟩ | h
  · obtain ⟨parts, hparts, hgot⟩ := exists_matches_words h
    unfold normalizeBlanks
    rw [hgot]
    generalize words want = vs at hblank hone hparts
    cases hparts with
    | nil => exact matches_nil.mpr rfl
    | @cons v p vs ps hv hvs =>
      obtain rfl : vs = [] := List.length_eq_zero_iff.mp (Nat.le_zero.mp (Nat.le_of_succ_le_succ hone))
      cases hvs
      rw [List.flatMap_singleton]
      exact matches_word_normalizeBlanks (hblank v List.mem_cons_self) hv
  · obtain ⟨parts, hparts, hgot, hne⟩ := h.exists_parts
    have hmatch : List.Forall₂ Matches (words want) (parts.map normalizeBlanks) :=
      List.forall₂_map_right_iff.mpr
        (((List.forall₂_and_left _ _).mpr ⟨hblank, hparts⟩).imp fun _ _ hv => matches_word_normalizeBlanks hv.1 hv.2)
    rw [normalizeBlanks, normalizeBlanks, hgot, joinWith_flatMap hne]
    exact matches_joinWith hmatch

/-! ### The words of evened texts -/

theorem words_joinWith {c : Char} (hc : isBlank c = true) (ws : List (List Char)) :
    words (joinWith [c] ws) = ws.flatMap words := by
  induction ws with
  | nil => rfl
  | cons v vs ih =>
    cases vs with
    | nil => simp [joinWith]
    | cons w ws =>
      rw [joinWith_cons_cons, List.append_assoc, List.singleton_append, words_append_cons hc, ih]
      rfl

theorem words_normalizeBlanks (s : List Char) : words (normalizeBlanks s) = words s := by
  unfold normalizeBlanks
  rw [words_joinWith (by decide)]
  have hword : ∀ v ∈ words s, words v = [v] := fun v hv => by
    rw [words_of_none (mem_words hv).2.1, if_neg (mem_words hv).1]
  rw [List.flatMap_congr hword, List.flatMap_singleton']

/-- Unmarking takes words out, and nothing else. -/
theorem words_unmarkBlankLines (want : List Char) : (words (unmarkBlankLines want)).Sublist (words want) := by
  conv_rhs => rw [← joinLines_segments want]
  rw [unmarkBlankLines_eq, joinLines, joinLines, words_joinWith (by decide), words_joinWith (by decide),
    List.flatMap_map]
  refine List.Sublist.flatMap_right _ fun m _ => ?_
  rw [emptied]
  split_ifs
  · exact List.nil_sublist _
  · exact List.Sublist.refl _

end Transcript.Compare
