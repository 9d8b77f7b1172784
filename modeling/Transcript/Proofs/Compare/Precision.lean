import Transcript.Proofs.Compare.Seam
import Mathlib.Data.List.TakeWhile

/-!
# Numbers beside literals

The numbers of an output are written as in the expectation where they agree. Numbers hold no prefix
letters and no quotes, so taking out prefixes first does not change what the numbers of a text are. But a
number may end with a digit or with a point, and only behind a point a prefix may stand: respelling a
number directly in front of a prefixed literal makes a prefix of its letter, or takes it for a part of
the word.

Results:
* `parts_of_numeral`, `parts_of_none`, `spelled_parts`: the parts of a text, one after the other.
* `numeralAt?_strip`, `numerals_strip`: a stripped text has the same numbers.
* `NumbersApart`: no number stands directly in front of a prefixed literal.
* `matchPrecision_strip`: then numbers are respelled before or after prefixes are taken out.
-/

namespace Transcript.Compare

open Text

/-! ## Numbers at the beginning of a text -/

/-- A character that may stand in a number. -/
def isNumeric (c : Char) : Bool :=
  isDecimal c || c == '.' || c == '+' || c == '-' || c == 'e' || c == 'E'

theorem spanSign_append (s : List Char) :
    (spanSign s).1 ++ (spanSign s).2 = s ∧ ∀ c ∈ (spanSign s).1, isNumeric c = true := by
  unfold spanSign
  split
  · exact ⟨rfl, by simp [isNumeric]⟩
  · exact ⟨rfl, by simp [isNumeric]⟩
  · exact ⟨rfl, by simp⟩

theorem spanDecimals_eq (s : List Char) : spanDecimals s = (s.takeWhile isDecimal, s.dropWhile isDecimal) :=
  List.span_eq_takeWhile_dropWhile isDecimal s

theorem spanDecimals_append (s : List Char) :
    (spanDecimals s).1 ++ (spanDecimals s).2 = s ∧ ∀ c ∈ (spanDecimals s).1, isNumeric c = true := by
  rw [spanDecimals_eq]
  refine ⟨List.takeWhile_append_dropWhile, fun c hc => ?_⟩
  have hdecimal : isDecimal c = true := List.mem_takeWhile_imp hc
  simp [isNumeric, hdecimal]

theorem spanExponent?_append {s text exponent rest : List Char} (h : spanExponent? s = some (text, exponent, rest)) :
    text ++ rest = s ∧ ∀ c ∈ text, isNumeric c = true := by
  unfold spanExponent? at h
  split at h
  · rename_i e s
    obtain ⟨hs₁, hn₁⟩ := spanSign_append s
    obtain ⟨hs₂, hn₂⟩ := spanDecimals_append (spanSign s).2
    dsimp only at h
    split_ifs at h with he
    cases h
    refine ⟨?_, List.forall_mem_cons.mpr ⟨?_, List.forall_mem_append.mpr ⟨hn₁, hn₂⟩⟩⟩
    · rw [List.cons_append, List.append_assoc, hs₂, hs₁]
    · simp only [Bool.or_eq_true, decide_eq_true_eq] at he
      rcases he with rfl | rfl <;> decide
  · cases h

/-- **A number at the beginning of a text** is a part of it that is not empty. -/
theorem numeralAt?_append {s rest : List Char} {n : Numeral} (h : numeralAt? s = some (n, rest)) :
    n.text ++ rest = s ∧ n.text ≠ [] ∧ ∀ c ∈ n.text, isNumeric c = true := by
  obtain ⟨hs₁, hn₁⟩ := spanSign_append s
  obtain ⟨hs₂, hn₂⟩ := spanDecimals_append (spanSign s).2
  unfold numeralAt? at h
  dsimp only at h
  split at h
  · rename_i t ht
    obtain ⟨hs₃, hn₃⟩ := spanDecimals_append t
    have hdot : ∀ c ∈ '.' :: (spanDecimals t).1, isNumeric c = true := List.forall_mem_cons.mpr ⟨by decide, hn₃⟩
    have hmantissa : ∀ c ∈ (spanSign s).1 ++ (spanDecimals (spanSign s).2).1 ++ '.' :: (spanDecimals t).1,
        isNumeric c = true := List.forall_mem_append.mpr ⟨List.forall_mem_append.mpr ⟨hn₁, hn₂⟩, hdot⟩
    have hwhole : (spanSign s).1 ++ (spanDecimals (spanSign s).2).1 ++ '.' :: (spanDecimals t).1 ++
        (spanDecimals t).2 = s := by
      rw [List.append_assoc, List.cons_append, hs₃, List.append_assoc, ← ht, hs₂, hs₁]
    split_ifs at h
    split at h
    · rename_i text exponent rest' hexponent
      obtain ⟨hs₄, hn₄⟩ := spanExponent?_append hexponent
      cases h
      refine ⟨?_, by simp, List.forall_mem_append.mpr ⟨hmantissa, hn₄⟩⟩
      rw [List.append_assoc, hs₄, hwhole]
    · cases h
      exact ⟨hwhole, by simp, hmantissa⟩
  · split_ifs at h with hempty
    obtain ⟨⟨text, exponent, rest'⟩, hexponent, heq⟩ := Option.map_eq_some_iff.mp h
    obtain ⟨hs₃, hn₃⟩ := spanExponent?_append hexponent
    cases heq
    refine ⟨?_, ?_, List.forall_mem_append.mpr ⟨List.forall_mem_append.mpr ⟨hn₁, hn₂⟩, hn₃⟩⟩
    · rw [List.append_assoc, hs₃, List.append_assoc, hs₂, hs₁]
    · intro hnil
      exact hempty (List.isEmpty_iff.mpr (List.append_eq_nil_iff.mp (List.append_eq_nil_iff.mp hnil).1).2)

theorem numeralAt?_of_not_numeric {c : Char} (hc : isNumeric c = false) (cs : List Char) :
    numeralAt? (c :: cs) = none := by
  rw [Option.eq_none_iff_forall_not_mem]
  rintro ⟨n, rest⟩ h
  obtain ⟨happend, hne, hnumeric⟩ := numeralAt?_append h
  obtain ⟨d, ds, hd⟩ := List.exists_cons_of_ne_nil hne
  rw [hd] at happend hnumeric
  obtain ⟨rfl, -⟩ := List.cons.inj happend
  exact nomatch hc.symm.trans (hnumeric d List.mem_cons_self)

/-! ## Parts -/

/-- A part as it stands in the text. -/
def Part.text : Part → List Char
  | .other c => [c]
  | .numeral n => n.text

/-- The text of parts. -/
def spelled (ps : List Part) : List Char := ps.flatMap Part.text

theorem partsAfter_length (a b : List Char) : partsAfter a.length (a ++ b) = parts b := by
  induction a with
  | nil => rfl
  | cons c cs ih => exact ih

theorem parts_of_numeral {s rest : List Char} {n : Numeral} (h : numeralAt? s = some (n, rest)) :
    parts s = .numeral n :: parts rest := by
  obtain ⟨rfl, hne, -⟩ := numeralAt?_append h
  obtain ⟨c, cs, hc⟩ := List.exists_cons_of_ne_nil hne
  rw [hc, List.cons_append] at h ⊢
  rw [parts, partsAfter, h]
  dsimp only
  rw [hc, List.length_cons, Nat.add_sub_cancel, partsAfter_length]

theorem parts_of_none {c : Char} {cs : List Char} (h : numeralAt? (c :: cs) = none) :
    parts (c :: cs) = .other c :: parts cs := by
  rw [parts, partsAfter, h]
  rfl

/-- A text by its parts: it is empty, or it begins with a number or with another character. -/
theorem parts_induction {P : List Char → Prop} (nil : P [])
    (numeral : ∀ s n rest, numeralAt? s = some (n, rest) → P rest → P s)
    (other : ∀ c cs, numeralAt? (c :: cs) = none → (∀ t, t.length ≤ cs.length → P t) → P (c :: cs)) (s : List Char) :
    P s := by
  induction hn : s.length using Nat.strongRecOn generalizing s with
  | ind n ih =>
    cases hs : numeralAt? s with
    | some found =>
      obtain ⟨happend, hne, -⟩ := numeralAt?_append hs
      refine numeral s found.1 found.2 hs (ih _ ?_ _ rfl)
      have := List.length_pos_of_ne_nil hne
      rw [← hn, ← happend, List.length_append]
      omega
    | none =>
      cases s with
      | nil => exact nil
      | cons c cs => exact other c cs hs fun t ht => ih t.length (by rw [← hn, List.length_cons]; omega) t rfl

theorem spelled_parts (s : List Char) : spelled (parts s) = s := by
  induction s using parts_induction with
  | nil => rfl
  | numeral s n rest h ih =>
    rw [parts_of_numeral h, spelled, List.flatMap_cons]
    exact (congrArg (n.text ++ ·) ih).trans (numeralAt?_append h).1
  | other c cs h ih =>
    rw [parts_of_none h, spelled, List.flatMap_cons]
    exact congrArg (c :: ·) (ih cs (Nat.le_refl _))

/-! ## Stripped numbers -/

theorem not_numeric_of_letter {c : Char} (h : IsPrefixLetter c) : isNumeric c = false := by
  rcases h with (rfl | rfl) | (rfl | rfl) <;> decide

theorem IsOpening.not_numeric {o : List Char} (h : IsOpening o) : ∀ c ∈ o, isNumeric c = false := by
  have hquote {q : Char} (hq : isQuote q = true) : isNumeric q = false := by
    simp only [isQuote, Bool.or_eq_true, beq_iff_eq] at hq
    rcases hq with rfl | rfl <;> decide
  have hraw {r : Char} (hr : isRaw r = true) : isNumeric r = false := by
    simp only [isRaw, Bool.or_eq_true, beq_iff_eq] at hr
    rcases hr with rfl | rfl <;> decide
  cases h with
  | plain hq => simpa using hquote hq
  | raw hr hq => simpa using ⟨hraw hr, hquote hq⟩

section

variable {l : Letters} (hl : ∀ c, l.Has c → IsPrefixLetter c)
include hl

theorem not_has_of_numeric {c : Char} (hc : isNumeric c = true) : ¬ l.Has c := fun h =>
  nomatch hc.symm.trans (not_numeric_of_letter (hl c h))

/-- A character is kept, or it is a letter and what begins the rest belongs to no number. -/
theorem strip_cons_cases (p : Place) (c : Char) (cs : List Char) :
    strip l p (c :: cs) = c :: strip l (p.after c) cs ∨
      isNumeric c = false ∧ ∃ x t, strip l p (c :: cs) = x :: t ∧ isNumeric x = false := by
  rw [strip]
  split_ifs with hprefix
  · obtain ⟨-, hc, o, rest, ho, rfl⟩ := hprefix
    refine .inr ⟨not_numeric_of_letter (hl c hc), ?_⟩
    rw [strip_opened ho]
    have hnumeric := ho.not_numeric
    cases ho with
    | plain hq => exact ⟨_, _, rfl, hnumeric _ List.mem_cons_self⟩
    | raw hr hq => exact ⟨_, _, rfl, hnumeric _ List.mem_cons_self⟩
  · exact .inl rfl

/-- Characters of numbers at the beginning are kept, and the rest is stripped behind them. -/
theorem span_strip {f : Char → Bool} (hf : ∀ c, f c = true → isNumeric c = true) {p : Place} (hp : p ≠ .opened)
    (s : List Char) :
    ∃ q : Place, q ≠ .opened ∧ (strip l p s).takeWhile f = s.takeWhile f ∧
      (strip l p s).dropWhile f = strip l q (s.dropWhile f) := by
  induction s generalizing p with
  | nil => exact ⟨p, hp, by simp⟩
  | cons c cs ih =>
    have hother {x : Char} (hx : isNumeric x = false) : f x = false :=
      Bool.eq_false_iff.mpr fun h => nomatch hx.symm.trans (hf x h)
    rcases strip_cons_cases hl p c cs with hkeep | ⟨hc, x, t, hstrip, hx⟩
    · by_cases hc : f c = true
      · obtain ⟨q, hq, htake, hdrop⟩ := ih (Place.after_ne_opened hp c)
        refine ⟨q, hq, ?_, ?_⟩
        · rw [hkeep, List.takeWhile_cons_of_pos hc, List.takeWhile_cons_of_pos hc, htake]
        · rw [hkeep, List.dropWhile_cons_of_pos hc, List.dropWhile_cons_of_pos hc, hdrop]
      · refine ⟨p, hp, ?_, ?_⟩
        · rw [hkeep, List.takeWhile_cons_of_neg hc, List.takeWhile_cons_of_neg hc]
        · rw [List.dropWhile_cons_of_neg hc, hkeep, List.dropWhile_cons_of_neg hc]
    · have hc' : ¬ f c = true := by simp [hother hc]
      have hx' : ¬ f x = true := by simp [hother hx]
      refine ⟨p, hp, ?_, ?_⟩
      · rw [hstrip, List.takeWhile_cons_of_neg hx', List.takeWhile_cons_of_neg hc']
      · rw [List.dropWhile_cons_of_neg hc', hstrip, List.dropWhile_cons_of_neg hx']

theorem spanDecimals_strip {p : Place} (hp : p ≠ .opened) (s : List Char) :
    ∃ q : Place, q ≠ .opened ∧ spanDecimals (strip l p s) = ((spanDecimals s).1, strip l q (spanDecimals s).2) := by
  obtain ⟨q, hq, htake, hdrop⟩ := span_strip hl (f := isDecimal) (fun c hc => by simp [isNumeric, hc]) hp s
  exact ⟨q, hq, by rw [spanDecimals_eq, spanDecimals_eq, htake, hdrop]⟩

theorem spanSign_strip {p : Place} (hp : p ≠ .opened) (s : List Char) :
    ∃ q : Place, q ≠ .opened ∧ spanSign (strip l p s) = ((spanSign s).1, strip l q (spanSign s).2) := by
  have hother {c : Char} (hc : ¬ (c = '+' ∨ c = '-')) (cs : List Char) : spanSign (c :: cs) = ([], c :: cs) := by
    unfold spanSign
    split <;> simp_all
  cases s with
  | nil => exact ⟨p, hp, by simp [spanSign]⟩
  | cons c cs =>
    by_cases hc : c = '+' ∨ c = '-'
    · have hnumeric : isNumeric c = true := by rcases hc with rfl | rfl <;> decide
      refine ⟨p.after c, Place.after_ne_opened hp c, ?_⟩
      rw [strip_keep_of_not_has (not_has_of_numeric hl hnumeric)]
      rcases hc with rfl | rfl <;> rfl
    · refine ⟨p, hp, ?_⟩
      rw [hother hc]
      rcases strip_cons_cases hl p c cs with hkeep | ⟨-, x, t, hstrip, hx⟩
      · rw [hkeep, hother hc]
      · rw [hstrip, hother]
        rintro (rfl | rfl) <;> cases hx

theorem spanExponent?_strip {p : Place} (hp : p ≠ .opened) (s : List Char) :
    ∃ q : Place, q ≠ .opened ∧
      spanExponent? (strip l p s) = (spanExponent? s).map fun (text, exponent, rest) => (text, exponent, strip l q rest) := by
  have hother {e : Char} (he : ¬ (e = 'E' ∨ e = 'e')) (cs : List Char) : spanExponent? (e :: cs) = none := by
    simp only [spanExponent?, Bool.or_eq_true, decide_eq_true_eq, if_neg he]
  cases s with
  | nil => exact ⟨p, hp, by simp [spanExponent?]⟩
  | cons e cs =>
    by_cases he : e = 'E' ∨ e = 'e'
    · have hnumeric : isNumeric e = true := by rcases he with rfl | rfl <;> decide
      obtain ⟨q₁, hq₁, hsign⟩ := spanSign_strip hl (Place.after_ne_opened hp e) cs
      obtain ⟨q₂, hq₂, hdigits⟩ := spanDecimals_strip hl hq₁ (spanSign cs).2
      refine ⟨q₂, hq₂, ?_⟩
      rw [strip_keep_of_not_has (not_has_of_numeric hl hnumeric)]
      simp only [spanExponent?, Bool.or_eq_true, decide_eq_true_eq, if_pos he, hsign, hdigits]
      split_ifs <;> rfl
    · refine ⟨p, hp, ?_⟩
      rw [hother he]
      rcases strip_cons_cases hl p e cs with hkeep | ⟨-, x, t, hstrip, hx⟩
      · rw [hkeep, hother he]
        rfl
      · rw [hstrip, hother]
        · rfl
        · rintro (rfl | rfl) <;> cases hx

/-- **The number at the beginning of a stripped text** is that of the text. -/
theorem numeralAt?_strip {p : Place} (hp : p ≠ .opened) (s : List Char) :
    ∃ q : Place, q ≠ .opened ∧ numeralAt? (strip l p s) = (numeralAt? s).map fun (n, rest) => (n, strip l q rest) := by
  obtain ⟨q₁, hq₁, hsign⟩ := spanSign_strip hl hp s
  obtain ⟨q₂, hq₂, hwhole⟩ := spanDecimals_strip hl hq₁ (spanSign s).2
  unfold numeralAt?
  dsimp only
  rw [hsign, hwhole]
  dsimp only
  generalize (spanDecimals (spanSign s).2).1 = whole
  generalize (spanDecimals (spanSign s).2).2 = s₂
  by_cases hdot : ∃ t, s₂ = '.' :: t
  · obtain ⟨t, rfl⟩ := hdot
    obtain ⟨q₃, hq₃, hfraction⟩ := spanDecimals_strip hl (by decide : Place.free ≠ .opened) t
    obtain ⟨q₄, hq₄, hexponent⟩ := spanExponent?_strip hl hq₃ (spanDecimals t).2
    have hpoint : strip l q₂ ('.' :: t) = '.' :: strip l .free t := by
      rw [strip_keep_of_not_has (not_has_of_isBreak isBreak_dot), after_break isBreak_dot]
    rw [hpoint]
    simp only [hfraction, hexponent]
    cases spanExponent? (spanDecimals t).2 with
    | none => exact ⟨q₃, hq₃, by split_ifs <;> rfl⟩
    | some found => exact ⟨q₄, hq₄, by split_ifs <;> rfl⟩
  · obtain ⟨q₃, hq₃, hexponent⟩ := spanExponent?_strip hl hq₂ s₂
    -- without a point behind the digits, both texts are read by their exponents
    have hplain : ∀ t, s₂ = '.' :: t → False := fun t ht => hdot ⟨t, ht⟩
    have hstripped : ∀ t, strip l q₂ s₂ = '.' :: t → False := fun t ht =>
      let ⟨u, hu, _⟩ := strip_eq_cons_break isBreak_dot ht
      hdot ⟨u, hu⟩
    refine ⟨q₃, hq₃, ?_⟩
    simp only [hexponent]
    split_ifs
    · rfl
    · rw [Option.map_map, Option.map_map]
      rfl

end

/-! ## Respelled numbers -/

theorem parts_opening {o : List Char} (ho : ∀ c ∈ o, isNumeric c = false) (s : List Char) :
    parts (o ++ s) = o.map .other ++ parts s := by
  induction o with
  | nil => rfl
  | cons c cs ih =>
    obtain ⟨hc, hcs⟩ := List.forall_mem_cons.mp ho
    rw [List.cons_append, parts_of_none (numeralAt?_of_not_numeric hc _), ih hcs]
    rfl

theorem respell_opening (o : List Char) (ps : List Part) (ws : List Numeral) :
    respell (o.map .other ++ ps) ws = o ++ respell ps ws := by
  induction o with
  | nil => rfl
  | cons c cs ih => exact congrArg (c :: ·) ih

theorem numerals_of_numeral {s rest : List Char} {n : Numeral} (h : numeralAt? s = some (n, rest)) :
    numerals s = n :: numerals rest := by
  rw [numerals, parts_of_numeral h]
  rfl

theorem numerals_of_none {c : Char} {cs : List Char} (h : numeralAt? (c :: cs) = none) :
    numerals (c :: cs) = numerals cs := by
  rw [numerals, parts_of_none h]
  rfl

theorem numerals_opening {o : List Char} (ho : ∀ c ∈ o, isNumeric c = false) (s : List Char) :
    numerals (o ++ s) = numerals s := by
  induction o with
  | nil => rfl
  | cons c cs ih =>
    obtain ⟨hc, hcs⟩ := List.forall_mem_cons.mp ho
    rw [List.cons_append, numerals_of_none (numeralAt?_of_not_numeric hc _), ih hcs]

/-- A number as a text writes one: it is not empty, and all of it may stand in a number. -/
def Numeral.Written (n : Numeral) : Prop := n.text ≠ [] ∧ ∀ c ∈ n.text, isNumeric c = true

theorem written_of_numeralAt? {s rest : List Char} {n : Numeral} (h : numeralAt? s = some (n, rest)) : n.Written :=
  (numeralAt?_append h).2

theorem written_of_mem_numerals (s : List Char) : ∀ n ∈ numerals s, n.Written := by
  induction s using parts_induction with
  | nil => exact fun n hn => nomatch hn
  | numeral s n rest h ih =>
    rw [numerals_of_numeral h]
    exact List.forall_mem_cons.mpr ⟨written_of_numeralAt? h, ih⟩
  | other c cs h ih =>
    rw [numerals_of_none h]
    exact ih cs (Nat.le_refl _)

/-- A number is respelled as a number. -/
theorem exists_respell_numeral {n : Numeral} (hn : n.Written) {ws : List Numeral}
    (hws : ∀ w ∈ ws, w.Written) :
    ∃ (m : Numeral) (ws' : List Numeral), m.Written ∧ (∀ w ∈ ws', w.Written) ∧
      ∀ ps, respell (.numeral n :: ps) ws = m.text ++ respell ps ws' := by
  cases ws with
  | nil => exact ⟨n, [], hn, hws, fun _ => rfl⟩
  | cons w ws =>
    obtain ⟨hw, hws⟩ := List.forall_mem_cons.mp hws
    by_cases hagrees : w.agrees n = true
    · exact ⟨w, ws, hw, hws, fun ps => by rw [respell, if_pos hagrees]⟩
    · exact ⟨n, ws, hn, hws, fun ps => by rw [respell, if_neg hagrees]⟩

/-- What belongs to no number stands in the text, too. -/
theorem exists_append_of_respell {o y s : List Char} {ws : List Numeral} (ho : ∀ c ∈ o, isNumeric c = false)
    (hws : ∀ w ∈ ws, w.Written) (h : respell (parts s) ws = o ++ y) : ∃ t, s = o ++ t := by
  induction o generalizing s with
  | nil => exact ⟨s, rfl⟩
  | cons c o ih =>
    obtain ⟨hc, ho'⟩ := List.forall_mem_cons.mp ho
    cases hs : numeralAt? s with
    | some found =>
      rw [parts_of_numeral hs] at h
      obtain ⟨m, ws', ⟨hne, hnumeric⟩, -, hrespell⟩ := exists_respell_numeral (written_of_numeralAt? hs) hws
      rw [hrespell] at h
      obtain ⟨d, ds, hd⟩ := List.exists_cons_of_ne_nil hne
      rw [hd] at h hnumeric
      obtain ⟨rfl, -⟩ := List.cons.inj h
      exact nomatch hc.symm.trans (hnumeric d List.mem_cons_self)
    | none =>
      cases s with
      | nil => cases h
      | cons d ds =>
        rw [parts_of_none hs] at h
        obtain ⟨rfl, hrest⟩ := List.cons.inj h
        obtain ⟨t, rfl⟩ := ih ho' hrest
        exact ⟨t, rfl⟩

theorem opens_of_respell {s : List Char} {ws : List Numeral} (hws : ∀ w ∈ ws, w.Written)
    (h : Opens (respell (parts s) ws)) : Opens s := by
  obtain ⟨o, y, ho, heq⟩ := h
  obtain ⟨t, rfl⟩ := exists_append_of_respell ho.not_numeric hws heq
  exact ⟨o, t, ho, rfl⟩

/-! ## Numbers apart from literals -/

/-- **No number stands directly in front of a literal** with one of the letters. -/
def NumbersApart (l : Letters) (s : List Char) : Prop :=
  ∀ n ps, .numeral n :: ps <:+ parts s → ¬ l.Prefixes (spelled ps)

theorem numbersApart_of_numeral {k : Letters} {s rest : List Char} {n : Numeral}
    (h : numeralAt? s = some (n, rest)) : NumbersApart k s ↔ ¬ k.Prefixes rest ∧ NumbersApart k rest := by
  unfold NumbersApart
  rw [parts_of_numeral h]
  constructor
  · intro hs
    have hrest := hs n (parts rest) List.suffix_rfl
    rw [spelled_parts] at hrest
    exact ⟨hrest, fun m ps hps => hs m ps (hps.trans (List.suffix_cons _ _))⟩
  · rintro ⟨hrest, hs⟩ m ps hps
    rcases List.suffix_cons_iff.mp hps with heq | hps
    · obtain ⟨-, rfl⟩ := List.cons.inj heq
      rwa [spelled_parts]
    · exact hs m ps hps

theorem numbersApart_of_none {k : Letters} {c : Char} {cs : List Char} (h : numeralAt? (c :: cs) = none) :
    NumbersApart k (c :: cs) ↔ NumbersApart k cs := by
  unfold NumbersApart
  rw [parts_of_none h]
  refine ⟨fun hs m ps hps => hs m ps (hps.trans (List.suffix_cons _ _)), fun hs m ps hps => ?_⟩
  rcases List.suffix_cons_iff.mp hps with heq | hps
  · cases heq
  · exact hs m ps hps

theorem numbersApart_opening {k : Letters} {o : List Char} (ho : ∀ c ∈ o, isNumeric c = false) (s : List Char) :
    NumbersApart k (o ++ s) ↔ NumbersApart k s := by
  induction o with
  | nil => exact Iff.rfl
  | cons c cs ih =>
    obtain ⟨hc, hcs⟩ := List.forall_mem_cons.mp ho
    exact (numbersApart_of_none (numeralAt?_of_not_numeric hc _)).trans (ih hcs)

section

variable {l : Letters} (hl : ∀ c, l.Has c → IsPrefixLetter c)
include hl

/-- A number is kept. -/
theorem strip_numeral {v : List Char} (hv : ∀ c ∈ v, isNumeric c = true) {p : Place} (hp : p ≠ .opened)
    (s : List Char) : ∃ q : Place, q ≠ .opened ∧ strip l p (v ++ s) = v ++ strip l q s := by
  induction v generalizing p with
  | nil => exact ⟨p, hp, rfl⟩
  | cons c cs ih =>
    obtain ⟨hc, hcs⟩ := List.forall_mem_cons.mp hv
    obtain ⟨q, hq, heq⟩ := ih hcs (Place.after_ne_opened hp c)
    refine ⟨q, hq, ?_⟩
    rw [List.cons_append, strip_keep_of_not_has (not_has_of_numeric hl hc), heq, List.cons_append]

/-- A text that begins with no number begins with none if it is stripped. -/
theorem numeralAt?_strip_of_none {p : Place} (hp : p ≠ .opened) {s : List Char} (h : numeralAt? s = none) :
    numeralAt? (strip l p s) = none := by
  obtain ⟨q, -, heq⟩ := numeralAt?_strip hl hp s
  rw [heq, h, Option.map_none]

/-- **A stripped text has the same numbers.** -/
theorem numerals_strip {p : Place} (hp : p ≠ .opened) (s : List Char) : numerals (strip l p s) = numerals s := by
  induction s using parts_induction generalizing p with
  | nil => rw [strip_nil]
  | numeral s n rest h ih =>
    obtain ⟨q, hq, heq⟩ := numeralAt?_strip hl hp s
    rw [h] at heq
    rw [numerals_of_numeral h, numerals_of_numeral heq, ih hq]
  | other c cs h ih =>
    rw [numerals_of_none h]
    by_cases hprefix : p = .free ∧ l.Prefixes (c :: cs)
    · obtain ⟨rfl, hc, o, t, ho, rfl⟩ := hprefix
      rw [strip_prefixed hc ho, numerals_opening ho.not_numeric, numerals_opening ho.not_numeric]
      exact ih t (by simp) (by decide)
    · have hnone := numeralAt?_strip_of_none hl hp h
      rw [strip_keep hprefix] at hnone ⊢
      rw [numerals_of_none hnone]
      exact ih cs (Nat.le_refl _) (Place.after_ne_opened hp c)

/-- **Taking out prefixes brings no number beside a literal.** -/
theorem NumbersApart.strip {k : Letters} (hk : ∀ c, k.Has c → IsPrefixLetter c) {p : Place} (hp : p ≠ .opened)
    {s : List Char} (hs : NumbersApart k s) : NumbersApart k (strip l p s) := by
  induction s using parts_induction generalizing p with
  | nil => rwa [strip_nil]
  | numeral s n rest h ih =>
    obtain ⟨q, hq, heq⟩ := numeralAt?_strip hl hp s
    rw [h] at heq
    obtain ⟨hrest, hs⟩ := (numbersApart_of_numeral h).mp hs
    refine (numbersApart_of_numeral heq).mpr ⟨?_, ih hq hs⟩
    intro hprefix
    obtain ⟨c, o, t, hc, ho, ht⟩ := k.prefixes_iff.mp hprefix
    obtain ⟨u, hu⟩ := strip_eq_prefixed (hk c hc) ho hq ht
    exact hrest (k.prefixes_iff.mpr ⟨c, o, u, hc, ho, hu⟩)
  | other c cs h ih =>
    replace hs := (numbersApart_of_none h).mp hs
    by_cases hprefix : p = .free ∧ l.Prefixes (c :: cs)
    · obtain ⟨rfl, hc, o, t, ho, rfl⟩ := hprefix
      rw [strip_prefixed hc ho, numbersApart_opening ho.not_numeric]
      exact ih t (by simp) (by decide) ((numbersApart_opening ho.not_numeric t).mp hs)
    · have hnone := numeralAt?_strip_of_none hl hp h
      rw [strip_keep hprefix] at hnone ⊢
      exact (numbersApart_of_none hnone).mpr (ih cs (Nat.le_refl _) (Place.after_ne_opened hp c) hs)

/-- A respelled text is stripped as the text itself. Behind a respelled number, a prefix may stand where
none stood before; no prefix follows there. -/
theorem strip_respell {p q : Place} (hp : p ≠ .opened) (hq : q ≠ .opened) {s : List Char} (hs : NumbersApart l s)
    (hplace : p = q ∨ ¬ l.Prefixes s) {ws : List Numeral} (hws : ∀ w ∈ ws, w.Written) :
    Compare.strip l p (respell (parts s) ws) = respell (parts (Compare.strip l q s)) ws := by
  induction s using parts_induction generalizing p q ws with
  | nil => rw [strip_nil]; exact strip_nil
  | numeral s n rest h ih =>
    obtain ⟨q', hq', heq⟩ := numeralAt?_strip hl hq s
    rw [h] at heq
    obtain ⟨m, ws', hm, hws', hrespell⟩ := exists_respell_numeral (written_of_numeralAt? h) hws
    obtain ⟨hrest, hs⟩ := (numbersApart_of_numeral h).mp hs
    obtain ⟨p', hp', hstrip⟩ := strip_numeral hl hm.2 hp (respell (parts rest) ws')
    rw [parts_of_numeral h, parts_of_numeral heq, hrespell, hrespell, hstrip, ih hp' hq' hs (.inr hrest) hws']
  | other c cs h ih =>
    replace hs := (numbersApart_of_none h).mp hs
    by_cases hprefix : q = .free ∧ l.Prefixes (c :: cs)
    · obtain rfl : p = q := hplace.resolve_right (not_not_intro hprefix.2)
      obtain ⟨rfl, hc, o, t, ho, rfl⟩ := hprefix
      rw [parts_of_none h, strip_prefixed hc ho, parts_opening ho.not_numeric, parts_opening ho.not_numeric,
        respell_opening, respell, respell_opening, strip_prefixed hc ho]
      rw [ih t (by simp) (by decide) (by decide) ((numbersApart_opening ho.not_numeric t).mp hs) (.inl rfl) hws]
    · have hkeep : ¬ (p = .free ∧ l.Prefixes (c :: respell (parts cs) ws)) := by
        rintro ⟨hfree, hc, hopens⟩
        have hthere : l.Prefixes (c :: cs) := ⟨hc, opens_of_respell hws hopens⟩
        rcases hplace with rfl | hnot
        · exact hprefix ⟨hfree, hthere⟩
        · exact hnot hthere
      have hnone := numeralAt?_strip_of_none hl hq h
      rw [strip_keep hprefix] at hnone
      rw [parts_of_none h, respell, strip_keep hkeep, strip_keep hprefix, parts_of_none hnone, respell,
        Place.after_eq hp hq c, ih cs (Nat.le_refl _) (Place.after_ne_opened hq c) (Place.after_ne_opened hq c) hs
          (.inl rfl) hws]

/-- **Numbers are respelled before or after prefixes are taken out.** -/
theorem matchPrecision_strip (want : List Char) {got : List Char} (hgot : NumbersApart l got) :
    matchPrecision (Compare.strip l .free want) (Compare.strip l .free got) =
      Compare.strip l .free (matchPrecision want got) := by
  have hfree : Place.free ≠ .opened := by decide
  unfold matchPrecision
  dsimp only
  rw [numerals_strip hl hfree, numerals_strip hl hfree]
  split_ifs with hcount
  · exact (strip_respell hl hfree hfree hgot (.inl rfl) (written_of_mem_numerals want)).symm
  · rfl

end

end Transcript.Compare
