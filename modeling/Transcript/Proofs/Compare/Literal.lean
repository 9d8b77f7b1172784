import Transcript.Proofs.Compare.BlankLine

/-!
# Literals without their prefixes

Taking out the prefix letters of literals is a reading from left to right that remembers one thing of
what it has read: whether a prefix may stand here. So it goes through whatever separates words, line by
line and word by word, and taking out the letters of two kinds of literals can be done in either order.

Results:
* `strip`, `dropPrefixes_eq`: the reading, and that it is what a comparison does.
* `strip_append_break`: behind a character that separates words, a text is stripped on its own.
* `pieces_strip`, `words_strip`: the pieces and the words of a stripped text.
* `strip_comm`: the order of two kinds of prefixes does not matter.
-/

namespace Transcript.Compare

open Text

/-! ## Openings of literals -/

/-- The quotes of literals. -/
def isQuote (c : Char) : Bool := c == '\'' || c == '"'

/-- The mark of a raw literal. -/
def isRaw (c : Char) : Bool := c == 'r' || c == 'R'

/-- What a literal opens with behind its prefix letter: its quote, after the mark of a raw literal. -/
inductive IsOpening : List Char → Prop
  | plain {q : Char} (hq : isQuote q = true) : IsOpening [q]
  | raw {r q : Char} (hr : isRaw r = true) (hq : isQuote q = true) : IsOpening [r, q]

theorem literalOpening?_eq_some {s o rest : List Char} :
    literalOpening? s = some (o, rest) ↔ IsOpening o ∧ s = o ++ rest := by
  constructor
  · intro h
    unfold literalOpening? at h
    split at h
    · rename_i q rest'
      split_ifs at h with hq
      cases h
      exact ⟨.raw rfl (by simpa [isQuote] using hq), rfl⟩
    · rename_i q rest'
      split_ifs at h with hq
      cases h
      exact ⟨.raw rfl (by simpa [isQuote] using hq), rfl⟩
    · rename_i q rest' _ _
      split_ifs at h with hq
      cases h
      exact ⟨.plain (by simpa [isQuote] using hq), rfl⟩
    · cases h
  · rintro ⟨ho, rfl⟩
    cases ho with
    | plain hq =>
      simp only [isQuote, Bool.or_eq_true, beq_iff_eq] at hq
      rcases hq with rfl | rfl <;> cases rest <;> rfl
    | raw hr hq =>
      simp only [isQuote, isRaw, Bool.or_eq_true, beq_iff_eq] at hr hq
      rcases hr with rfl | rfl <;> rcases hq with rfl | rfl <;> rfl

/-- A text begins with the opening of a literal. -/
def Opens (s : List Char) : Prop := ∃ o rest, IsOpening o ∧ s = o ++ rest

theorem opens_iff {s : List Char} : Opens s ↔ (literalOpening? s).isSome = true := by
  simp only [Opens, Option.isSome_iff_exists, Prod.exists, literalOpening?_eq_some]

instance : DecidablePred Opens := fun _ => decidable_of_iff _ opens_iff.symm

theorem Opens.append {a : List Char} (h : Opens a) (b : List Char) : Opens (a ++ b) := by
  obtain ⟨o, rest, ho, rfl⟩ := h
  exact ⟨o, rest ++ b, ho, List.append_assoc o rest b⟩

theorem not_opens_nil : ¬ Opens [] := by
  rw [opens_iff]
  simp [literalOpening?]

/-! ## Reading -/

/-- **The letters of a prefix:** the small one and the capital one. -/
structure Letters where
  /-- The small letter. -/
  small : Char
  /-- The capital letter. -/
  capital : Char
  small_word : isWord small = true
  capital_word : isWord capital = true
  small_not_raw : isRaw small = false
  capital_not_raw : isRaw capital = false

namespace Letters

/-- The letters of text literals. -/
def unicode : Letters := ⟨'u', 'U', by decide, by decide, rfl, rfl⟩

/-- The letters of bytes literals. -/
def bytes : Letters := ⟨'b', 'B', by decide, by decide, rfl, rfl⟩

/-- A character is one of the letters. -/
def Has (l : Letters) (c : Char) : Prop := c = l.small ∨ c = l.capital

instance (l : Letters) : DecidablePred l.Has := fun _ => inferInstanceAs (Decidable (_ ∨ _))

/-- A literal with one of the letters begins a text. -/
def Prefixes (l : Letters) : List Char → Prop
  | [] => False
  | c :: cs => l.Has c ∧ Opens cs

instance (l : Letters) : DecidablePred l.Prefixes := fun
  | [] => inferInstanceAs (Decidable False)
  | _ :: _ => inferInstanceAs (Decidable (_ ∧ _))

variable {l : Letters} {c : Char}

theorem Has.isWord (h : l.Has c) : isWord c = true := by
  rcases h with rfl | rfl
  · exact l.small_word
  · exact l.capital_word

theorem Has.isRaw (h : l.Has c) : isRaw c = false := by
  rcases h with rfl | rfl
  · exact l.small_not_raw
  · exact l.capital_not_raw

theorem prefixes_iff (l : Letters) {s : List Char} :
    l.Prefixes s ↔ ∃ c o t, l.Has c ∧ IsOpening o ∧ s = c :: (o ++ t) := by
  cases s with
  | nil => exact ⟨False.elim, fun ⟨_, _, _, _, _, h⟩ => nomatch h⟩
  | cons d ds =>
    constructor
    · rintro ⟨hd, o, t, ho, rfl⟩
      exact ⟨d, o, t, hd, ho, rfl⟩
    · rintro ⟨c, o, t, hc, ho, heq⟩
      obtain ⟨rfl, rfl⟩ := List.cons.inj heq
      exact ⟨hc, o, t, ho, rfl⟩

theorem Prefixes.append {a : List Char} (h : l.Prefixes a) (b : List Char) : l.Prefixes (a ++ b) := by
  cases a with
  | nil => exact h.elim
  | cons c cs => exact ⟨h.1, h.2.append b⟩

end Letters

/-- **Where a text goes on.** -/
inductive Place
  /-- At the beginning, or behind a character of no word: a prefix may stand here. -/
  | free
  /-- Behind a character of a word, or behind the opening of a literal whose prefix was taken out. -/
  | bound
  /-- Behind a prefix that was taken out: the opening of its literal comes first. -/
  | opened
  deriving DecidableEq

/-- The place behind a character. -/
def Place.after (p : Place) (c : Char) : Place :=
  if isWord c then if p = .opened then .opened else .bound
  else if p = .opened ∧ isQuote c then .bound else .free

/-- **A text without the prefix letters of its literals,** read from a place. -/
def strip (l : Letters) : Place → List Char → List Char
  | _, [] => []
  | p, c :: cs => if p = .free ∧ l.Prefixes (c :: cs) then strip l .opened cs else c :: strip l (p.after c) cs

theorem isWord_of_isQuote {q : Char} (h : isQuote q = true) : isWord q = false := by
  simp only [isQuote, Bool.or_eq_true, beq_iff_eq] at h
  rcases h with rfl | rfl <;> decide

theorem isWord_of_isRaw {r : Char} (h : isRaw r = true) : isWord r = true := by
  simp only [isRaw, Bool.or_eq_true, beq_iff_eq] at h
  rcases h with rfl | rfl <;> decide

theorem isQuote_of_isWord {c : Char} (h : isWord c = true) : isQuote c = false :=
  Bool.eq_false_iff.mpr fun hq => by
    rw [isWord_of_isQuote hq] at h
    cases h

theorem Place.after_word {p : Place} (hp : p ≠ .opened) {c : Char} (hc : isWord c = true) :
    p.after c = .bound := by
  rw [Place.after, if_pos hc, if_neg hp]

theorem Place.after_other {p : Place} (hp : p ≠ .opened) {c : Char} (hc : isWord c = false) :
    p.after c = .free := by
  rw [Place.after, if_neg (by simp [hc]), if_neg fun h => hp h.1]

theorem Place.after_ne_opened {p : Place} (hp : p ≠ .opened) (c : Char) : p.after c ≠ .opened := by
  unfold Place.after
  split_ifs <;> simp_all

theorem Place.after_eq {p q : Place} (hp : p ≠ .opened) (hq : q ≠ .opened) (c : Char) : p.after c = q.after c := by
  unfold Place.after
  simp [hp, hq]

section

variable {l : Letters} {p : Place} {c : Char} {o : List Char}

@[simp] theorem strip_nil : strip l p [] = [] := by
  cases p <;> rfl

theorem strip_keep {cs : List Char} (h : ¬ (p = .free ∧ l.Prefixes (c :: cs))) :
    strip l p (c :: cs) = c :: strip l (p.after c) cs := by
  rw [strip, if_neg h]

theorem strip_keep_of_not_has (h : ¬ l.Has c) (cs : List Char) :
    strip l p (c :: cs) = c :: strip l (p.after c) cs :=
  strip_keep fun hp => h hp.2.1

theorem strip_bound_cons (cs : List Char) :
    strip l .bound (c :: cs) = c :: strip l (Place.after .bound c) cs :=
  strip_keep fun h => nomatch h.1

theorem not_has_of_isQuote (h : isQuote c = true) : ¬ l.Has c := fun hc => by
  rw [isQuote_of_isWord hc.isWord] at h
  cases h

theorem not_has_of_isRaw (h : isRaw c = true) : ¬ l.Has c := fun hc => by
  rw [hc.isRaw] at h
  cases h

/-- An opening is kept behind a prefix. -/
theorem strip_opened (ho : IsOpening o) (rest : List Char) :
    strip l .opened (o ++ rest) = o ++ strip l .bound rest := by
  have hquote {q : Char} (hq : isQuote q = true) : Place.after .opened q = .bound := by
    rw [Place.after, if_neg (by simp [isWord_of_isQuote hq]), if_pos ⟨rfl, hq⟩]
  cases ho with
  | plain hq =>
    rw [List.cons_append, strip_keep_of_not_has (not_has_of_isQuote hq), hquote hq]
    rfl
  | @raw r q hr hq =>
    have hraw : Place.after .opened r = .opened := by
      rw [Place.after, if_pos (isWord_of_isRaw hr), if_pos rfl]
    rw [List.cons_append, strip_keep_of_not_has (not_has_of_isRaw hr), hraw, List.cons_append,
      strip_keep_of_not_has (not_has_of_isQuote hq), hquote hq]
    rfl

/-- **A prefix is taken out** in front of its opening. -/
theorem strip_prefixed (hc : l.Has c) (ho : IsOpening o) (rest : List Char) :
    strip l .free (c :: (o ++ rest)) = o ++ strip l .bound rest := by
  rw [strip, if_pos ⟨rfl, hc, o, rest, ho, rfl⟩, strip_opened ho]

/-- An opening without a prefix is read like any text. -/
theorem strip_opening (hp : p ≠ .opened) (ho : IsOpening o) (rest : List Char) :
    strip l p (o ++ rest) = o ++ strip l .free rest := by
  cases ho with
  | plain hq =>
    rw [List.cons_append, strip_keep_of_not_has (not_has_of_isQuote hq),
      Place.after_other hp (isWord_of_isQuote hq)]
    rfl
  | raw hr hq =>
    rw [List.cons_append, strip_keep_of_not_has (not_has_of_isRaw hr), Place.after_word hp (isWord_of_isRaw hr),
      List.cons_append, strip_keep_of_not_has (not_has_of_isQuote hq),
      Place.after_other (by decide) (isWord_of_isQuote hq)]
    rfl

/-- Where no prefix stands, it does not matter whether one might. -/
theorem strip_bound_eq {s : List Char} (h : ¬ l.Prefixes s) : strip l .bound s = strip l .free s := by
  cases s with
  | nil => rfl
  | cons c cs =>
    rw [strip_keep fun hp => h hp.2, strip_keep fun hp => h hp.2]
    rfl

end

/-! ## The text of a comparison -/

theorem prefixedOpening?_cons {l : Letters} {c : Char} {cs : List Char} :
    prefixedOpening? l.small l.capital (c :: cs) = if l.Has c then literalOpening? cs else none := by
  unfold prefixedOpening? Letters.Has
  split_ifs <;> simp_all

theorem prefixedOpening?_eq_none {l : Letters} {s : List Char} :
    prefixedOpening? l.small l.capital s = none ↔ ¬ l.Prefixes s := by
  cases s with
  | nil => exact iff_of_true rfl id
  | cons c cs =>
    rw [prefixedOpening?_cons, Letters.Prefixes, not_and, opens_iff, Bool.not_eq_true,
      Option.isSome_eq_false_iff, Option.isNone_iff_eq_none]
    split_ifs with hc
    · simp [hc]
    · simp [hc]

theorem prefixedOpening?_eq_some {l : Letters} {s o rest : List Char} :
    prefixedOpening? l.small l.capital s = some (o, rest) ↔
      ∃ c, l.Has c ∧ IsOpening o ∧ s = c :: (o ++ rest) := by
  cases s with
  | nil => simp [prefixedOpening?]
  | cons c cs =>
    rw [prefixedOpening?_cons]
    split_ifs with hc
    · rw [literalOpening?_eq_some]
      constructor
      · rintro ⟨ho, rfl⟩
        exact ⟨c, hc, ho, rfl⟩
      · rintro ⟨_, -, ho, heq⟩
        exact ⟨ho, (List.cons.inj heq).2⟩
    · constructor
      · intro h
        cases h
      · rintro ⟨_, hhas, -, heq⟩
        obtain ⟨rfl, -⟩ := List.cons.inj heq
        exact absurd hhas hc

/-- What is kept of a text is read behind it. -/
theorem dropPrefixesAfter_length (small capital : Char) (o rest : List Char) :
    dropPrefixesAfter small capital o.length (o ++ rest) = o ++ dropPrefixesAfter small capital 0 rest := by
  induction o with
  | nil => rfl
  | cons c cs ih => rw [List.length_cons, List.cons_append, dropPrefixesAfter, ih, List.cons_append]

theorem dropPrefixesAfter_eq (l : Letters) (s : List Char) :
    dropPrefixesAfter l.small l.capital 0 s = strip l .bound s := by
  induction hn : s.length using Nat.strongRecOn generalizing s with
  | ind n ih =>
    cases s with
    | nil => rfl
    | cons c cs =>
      have hlt : cs.length < n := hn ▸ Nat.lt_succ_self cs.length
      rw [strip_bound_cons, dropPrefixesAfter]
      by_cases hc : isWord c = true
      · rw [if_pos hc, Place.after_word (by decide) hc, ih _ hlt cs rfl]
      · rw [if_neg hc, Place.after_other (by decide) (Bool.eq_false_iff.mpr hc)]
        cases hopening : prefixedOpening? l.small l.capital cs with
        | none =>
          dsimp only
          rw [ih _ hlt cs rfl, strip_bound_eq (prefixedOpening?_eq_none.mp hopening)]
        | some found =>
          obtain ⟨o, rest⟩ := found
          obtain ⟨d, hd, ho, rfl⟩ := prefixedOpening?_eq_some.mp hopening
          have hrest : rest.length < n := by
            rw [List.length_cons, List.length_append] at hlt
            omega
          dsimp only
          rw [dropPrefixesAfter.dropLetter, dropPrefixesAfter_length, ih _ hrest rest rfl, strip_prefixed hd ho]

/-- **Dropping prefixes is stripping** a text from its beginning. -/
theorem dropPrefixes_eq (l : Letters) (s : List Char) :
    dropPrefixes l.small l.capital s = strip l .free s := by
  unfold dropPrefixes
  cases h : prefixedOpening? l.small l.capital s with
  | none => exact (dropPrefixesAfter_eq l s).trans (strip_bound_eq (prefixedOpening?_eq_none.mp h))
  | some found =>
    obtain ⟨o, rest⟩ := found
    obtain ⟨c, hc, ho, rfl⟩ := prefixedOpening?_eq_some.mp h
    rw [strip_prefixed hc ho, ← dropPrefixesAfter_eq]

/-! ## Between words -/

/-- A character that belongs to no word and is no quote. -/
def IsBreak (c : Char) : Prop := isWord c = false ∧ isQuote c = false

theorem isBreak_of_isBlank {c : Char} (h : isBlank c = true) : IsBreak c := by
  have hlow : ∀ n ∈ List.range' 9 5 ++ [32, 0x85, 0xA0, 0x1680], IsBreak (Char.ofNat n) := by
    unfold IsBreak
    decide +kernel
  have hspace : ∀ n ∈ List.range' 0x2000 11, IsBreak (Char.ofNat n) := by
    unfold IsBreak
    decide +kernel
  have hhigh : ∀ n ∈ [0x2028, 0x2029, 0x202F, 0x205F, 0x3000], IsBreak (Char.ofNat n) := by
    unfold IsBreak
    decide +kernel
  rw [← Char.ofNat_toNat c]
  refine List.forall_mem_append.mpr ⟨List.forall_mem_append.mpr ⟨hlow, hspace⟩, hhigh⟩ c.toNat ?_
  simp only [isBlank, Bool.or_eq_true, Bool.and_eq_true, decide_eq_true_eq, beq_iff_eq] at h
  simp only [List.mem_append, List.mem_range'_1, List.mem_cons, List.not_mem_nil, or_false]
  omega

section

variable {l : Letters} {p : Place} {c : Char}

theorem after_break (hc : IsBreak c) : p.after c = .free := by
  rw [Place.after, if_neg (by simp [hc.1]), if_neg (by simp [hc.2])]

theorem not_has_of_isBreak (hc : IsBreak c) : ¬ l.Has c := fun h =>
  nomatch h.isWord.symm.trans hc.1

theorem opens_append_break (hc : IsBreak c) (a b : List Char) : Opens (a ++ c :: b) ↔ Opens a := by
  have hquote {q : Char} (hq : isQuote q = true) : c ≠ q := by
    rintro rfl
    exact nomatch hq.symm.trans hc.2
  have hraw {r : Char} (hr : isRaw r = true) : c ≠ r := by
    rintro rfl
    exact nomatch (isWord_of_isRaw hr).symm.trans hc.1
  refine ⟨?_, fun h => h.append _⟩
  rintro ⟨o, rest, ho, heq⟩
  cases ho with
  | plain hq =>
    cases a with
    | nil => exact absurd (List.cons.inj heq).1 (hquote hq)
    | cons x a => exact ⟨[x], a, .plain ((List.cons.inj heq).1 ▸ hq), rfl⟩
  | raw hr hq =>
    cases a with
    | nil => exact absurd (List.cons.inj heq).1 (hraw hr)
    | cons x a =>
      obtain ⟨hx, hrest⟩ := List.cons.inj heq
      cases a with
      | nil => exact absurd (List.cons.inj hrest).1 (hquote hq)
      | cons y a => exact ⟨[x, y], a, .raw (hx ▸ hr) ((List.cons.inj hrest).1 ▸ hq), rfl⟩

/-- **Behind a character between words** a text is stripped on its own. -/
theorem strip_append_break (hc : IsBreak c) (a b : List Char) :
    strip l p (a ++ c :: b) = strip l p a ++ c :: strip l .free b := by
  induction a generalizing p with
  | nil => rw [List.nil_append, strip_keep_of_not_has (not_has_of_isBreak hc), after_break hc, strip_nil,
      List.nil_append]
  | cons d a ih =>
    have hsame : l.Prefixes (d :: (a ++ c :: b)) ↔ l.Prefixes (d :: a) :=
      and_congr_right fun _ => opens_append_break hc a b
    rw [List.cons_append, strip, strip, ih, ih]
    simp only [hsame]
    split_ifs <;> rfl

theorem strip_sublist (s : List Char) : (strip l p s).Sublist s := by
  induction s generalizing p with
  | nil => rw [strip_nil]
  | cons c cs ih =>
    rw [strip]
    split_ifs
    · exact ih.cons c
    · exact ih.cons_cons c

theorem Opens.exists_quote {s : List Char} (h : Opens s) : ∃ q ∈ s, isQuote q = true := by
  obtain ⟨o, rest, ho, rfl⟩ := h
  cases ho with
  | plain hq => exact ⟨_, by simp, hq⟩
  | raw _ hq => exact ⟨_, by simp, hq⟩

/-- A text without quotes has no prefixes. -/
theorem strip_of_no_quote {s : List Char} (h : ∀ c ∈ s, isQuote c = false) : strip l p s = s := by
  induction s generalizing p with
  | nil => exact strip_nil
  | cons c cs ih =>
    have hcs := (List.forall_mem_cons.mp h).2
    rw [strip_keep, ih hcs]
    rintro ⟨-, -, hopens⟩
    obtain ⟨q, hq, hquote⟩ := hopens.exists_quote
    exact nomatch hquote.symm.trans (hcs q hq)

/-- No quote is taken out. -/
theorem no_quote_of_strip {s : List Char} (h : ∀ c ∈ strip l p s, isQuote c = false) :
    ∀ c ∈ s, isQuote c = false := by
  induction s generalizing p with
  | nil => simp
  | cons c cs ih =>
    rw [strip] at h
    split_ifs at h with hp
    · exact List.forall_mem_cons.mpr ⟨isQuote_of_isWord hp.2.1.isWord, ih h⟩
    · obtain ⟨hc, hcs⟩ := List.forall_mem_cons.mp h
      exact List.forall_mem_cons.mpr ⟨hc, ih hcs⟩

theorem strip_eq_nil {s : List Char} : strip l p s = [] ↔ s = [] := by
  refine ⟨fun h => ?_, fun h => by rw [h, strip_nil]⟩
  have hquotes : ∀ c ∈ s, isQuote c = false := no_quote_of_strip (l := l) (p := p) (by simp [h])
  rwa [strip_of_no_quote hquotes] at h

/-- **The pieces of a stripped text** are the stripped pieces of the text. -/
theorem pieces_strip {f : Char → Bool} (hf : ∀ c, f c = true → IsBreak c) (s : List Char) :
    pieces f (strip l .free s) = (pieces f s).map (strip l .free) := by
  induction hn : s.length using Nat.strongRecOn generalizing s with
  | ind n ih =>
    cases hfind : s.find? f with
    | none =>
      have hnone : ∀ c ∈ s, f c = false := by simpa using hfind
      rw [pieces_of_none hnone, pieces_of_none fun c hc => hnone c ((strip_sublist s).subset hc)]
      rfl
    | some c =>
      obtain ⟨hc, a, b, rfl, ha⟩ := List.find?_eq_some_iff_append.mp hfind
      have hnone : ∀ c ∈ a, f c = false := by simpa using ha
      have hlt : b.length < n := by
        rw [← hn, List.length_append, List.length_cons]
        omega
      rw [strip_append_break (hf c hc), pieces_append_cons hnone hc,
        pieces_append_cons (fun c hc => hnone c ((strip_sublist a).subset hc)) hc, ih _ hlt b rfl]
      rfl

/-- **The words of a stripped text** are the stripped words of the text. -/
theorem words_strip (s : List Char) : words (strip l .free s) = (words s).map (strip l .free) := by
  unfold words fields
  rw [pieces_strip (fun c hc => isBreak_of_isBlank hc), List.filter_map]
  congr 1
  refine List.filter_congr fun w _ => ?_
  rw [Function.comp_apply, Bool.not_eq_eq_eq_not, Bool.not_not, Bool.eq_iff_iff, List.isEmpty_iff, List.isEmpty_iff,
    strip_eq_nil]

theorem joinWith_strip (hc : IsBreak c) (ws : List (List Char)) :
    joinWith [c] (ws.map (strip l .free)) = strip l .free (joinWith [c] ws) := by
  induction ws with
  | nil => rfl
  | cons w ws ih =>
    cases ws with
    | nil => rfl
    | cons v vs =>
      have hjoin (x y : List Char) (zs : List (List Char)) :
          joinWith [c] (x :: y :: zs) = x ++ c :: joinWith [c] (y :: zs) := List.append_assoc x [c] _
      rw [hjoin, strip_append_break hc, ← ih]
      exact hjoin _ _ _

/-! ## The steps of a comparison -/

theorem emptied_strip {P : List Char → Prop} [DecidablePred P]
    (hP : ∀ m, P m → ∀ c ∈ m, isQuote c = false) (m : List Char) :
    emptied P (strip l .free m) = strip l .free (emptied P m) := by
  by_cases hquote : ∀ c ∈ m, isQuote c = false
  · rw [strip_of_no_quote hquote]
    unfold emptied
    split_ifs
    · rfl
    · rw [strip_of_no_quote hquote]
  · have hm : ¬ P m := fun h => hquote (hP m h)
    have hs : ¬ P (strip l .free m) := fun h => hquote (no_quote_of_strip (hP _ h))
    rw [emptied, emptied, if_neg hm, if_neg hs]

theorem isBreak_feed : IsBreak '\n' := ⟨by decide, rfl⟩

/-- What empties lines without quotes does so before or after prefixes are taken out. -/
theorem joinLines_emptied_strip {P : List Char → Prop} [DecidablePred P]
    (hP : ∀ m, P m → ∀ c ∈ m, isQuote c = false) (s : List Char) :
    joinLines ((segments (strip l .free s)).map (emptied P)) =
      strip l .free (joinLines ((segments s).map (emptied P))) := by
  have hfeed : ∀ c, (c == '\n') = true → IsBreak c := fun c hc => beq_iff_eq.mp hc ▸ isBreak_feed
  unfold segments
  rw [pieces_strip hfeed, joinLines, joinLines, ← joinWith_strip isBreak_feed, List.map_map, List.map_map]
  congr 1
  exact List.map_congr_left fun m _ => emptied_strip hP m

theorem unmarkBlankLines_strip (s : List Char) :
    unmarkBlankLines (strip l .free s) = strip l .free (unmarkBlankLines s) := by
  have hmarked : ∀ m, IsMarked m → ∀ c ∈ m, isQuote c = false := by
    rintro m ⟨blanks, rfl, hblanks⟩ c hc
    have hmarker : (blankMarker ++ [' ', '\t', '\r', '\x0c', '\x0b']).all (fun c => !isQuote c) = true := by decide
    have hall : c ∈ blankMarker ++ [' ', '\t', '\r', '\x0c', '\x0b'] :=
      List.mem_append.mpr ((List.mem_append.mp hc).imp_right (hblanks c))
    exact (Bool.not_eq_true' (isQuote c)).mp (List.all_eq_true.mp hmarker c hall)
  rw [unmarkBlankLines_eq, unmarkBlankLines_eq, joinLines_emptied_strip hmarked]

theorem clearBlankLines_strip (s : List Char) :
    clearBlankLines (strip l .free s) = strip l .free (clearBlankLines s) := by
  have hblanks : ∀ m, IsBlanks m → ∀ c ∈ m, isQuote c = false := fun m hm c hc =>
    (isBreak_of_isBlank (hm.2 c hc).1).2
  rw [clearBlankLines_eq, clearBlankLines_eq, joinLines_emptied_strip hblanks]

theorem normalizeBlanks_strip (s : List Char) :
    normalizeBlanks (strip l .free s) = strip l .free (normalizeBlanks s) := by
  unfold normalizeBlanks
  rw [words_strip, joinWith_strip (isBreak_of_isBlank (by decide))]

/-! ## Two kinds of prefixes -/

/-- An opening behind a character of a word is not moved. -/
theorem strip_bound_eq_opening {s o y : List Char} (ho : IsOpening o) (h : strip l .bound s = o ++ y) :
    ∃ t, s = o ++ t ∧ y = strip l .free t := by
  have hplain {q : Char} (hq : isQuote q = true) {s : List Char} (h : strip l .bound s = q :: y) :
      ∃ t, s = q :: t ∧ y = strip l .free t := by
    cases s with
    | nil => cases h
    | cons c cs =>
      rw [strip_bound_cons] at h
      obtain ⟨rfl, rfl⟩ := List.cons.inj h
      exact ⟨cs, rfl, by rw [Place.after_other (by decide) (isWord_of_isQuote hq)]⟩
  cases ho with
  | plain hq => exact hplain hq h
  | raw hr hq =>
    cases s with
    | nil => cases h
    | cons c cs =>
      rw [strip_bound_cons] at h
      obtain ⟨rfl, hcs⟩ := List.cons.inj h
      rw [Place.after_word (by decide) (isWord_of_isRaw hr)] at hcs
      obtain ⟨t, rfl, ht⟩ := hplain hq hcs
      exact ⟨t, rfl, ht⟩

theorem opens_strip_bound {s : List Char} : Opens (strip l .bound s) ↔ Opens s := by
  constructor
  · rintro ⟨o, rest, ho, h⟩
    obtain ⟨t, rfl, -⟩ := strip_bound_eq_opening ho h
    exact ⟨o, t, ho, rfl⟩
  · rintro ⟨o, rest, ho, rfl⟩
    exact ⟨o, strip l .free rest, ho, strip_opening (by decide) ho rest⟩

end

/-- A literal with a prefix is read in the same way before or after other prefixes are taken out. -/
theorem strip_comm_prefixed {u b : Letters} {q : Place} (hq : q ≠ .opened) {c : Char} {o rest : List Char}
    (hc : u.Has c) (hnot : ¬ b.Has c) (ho : IsOpening o)
    (hrest : strip u .bound (strip b .free rest) = strip b .free (strip u .bound rest)) :
    strip u .free (strip b q (c :: (o ++ rest))) = strip b q (strip u .free (c :: (o ++ rest))) := by
  rw [strip_keep_of_not_has hnot, Place.after_word hq hc.isWord, strip_opening (by decide) ho,
    strip_prefixed hc ho, strip_prefixed hc ho, strip_opening hq ho, hrest]

/-- **Prefixes of two kinds** can be taken out in either order. -/
theorem strip_comm {u b : Letters} (hdisjoint : ∀ c, u.Has c → ¬ b.Has c) {p q : Place} (hp : p ≠ .opened)
    (hq : q ≠ .opened) (s : List Char) : strip u p (strip b q s) = strip b q (strip u p s) := by
  induction hn : s.length using Nat.strongRecOn generalizing s p q with
  | ind n ih =>
    cases s with
    | nil => simp
    | cons c cs =>
      have hshort {o rest : List Char} (h : cs = o ++ rest) : rest.length < n := by
        have := congrArg List.length h
        rw [List.length_append] at this
        rw [← hn, List.length_cons]
        omega
      by_cases hu : p = .free ∧ u.Prefixes (c :: cs)
      · obtain ⟨rfl, hc, o, rest, ho, hrest⟩ := hu
        have hlt := hshort hrest
        subst hrest
        exact strip_comm_prefixed hq hc (hdisjoint c hc) ho (ih _ hlt (by decide) (by decide) rest rfl)
      by_cases hb : q = .free ∧ b.Prefixes (c :: cs)
      · obtain ⟨rfl, hc, o, rest, ho, hrest⟩ := hb
        have hlt := hshort hrest
        subst hrest
        exact (strip_comm_prefixed hp hc (fun h => hdisjoint c h hc) ho
          (ih _ hlt (by decide) (by decide) rest rfl).symm).symm
      -- The character is kept in both orders, and the rest is read from the same place.
      have hplace : p.after c = q.after c := Place.after_eq hp hq c
      have hafter : p.after c ≠ .opened := Place.after_ne_opened hp c
      have hstill {l k : Letters} {r : Place} (hr : r ≠ .opened) (h : ¬ (r = .free ∧ l.Prefixes (c :: cs))) :
          ¬ (r = .free ∧ l.Prefixes (c :: strip k (r.after c) cs)) := by
        rintro ⟨hfree, hc, hopens⟩
        rw [Place.after_word hr hc.isWord] at hopens
        exact h ⟨hfree, hc, opens_strip_bound.mp hopens⟩
      have hlt : cs.length < n := hn ▸ Nat.lt_succ_self cs.length
      rw [strip_keep hb, strip_keep hu, ← hplace, strip_keep (hstill hp hu), hplace, strip_keep (hstill hq hb),
        ← hplace, ih _ hlt hafter hafter cs rfl]

end Transcript.Compare
