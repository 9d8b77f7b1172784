import Transcript.Proofs.Compare.Filling
import Transcript.Proofs.Compare.Literal

/-!
# Gaps beside literals

Whether a letter is the prefix of a literal depends on what stands beside it, and beside a gap an output
may have anything. So taking out prefixes can spoil a match with gaps, but only at a seam: where a gap
stands directly behind a word that is a prefix letter, which the output may turn into a prefix, or directly
in front of an opening with a prefixed literal behind it, where it depends on the text before the opening
whether this is a literal of its own.

Results:
* `IsSeam`, `NoSeam`: an expectation without such places.
* `strip_append_tail`, `exists_strip_append`, `exists_strip_free`: a text is stripped part by part.
* `matches_strip`: without seams, a match is kept if prefixes are taken out.
* `noSeam_iff_words`, `NoSeam.strip`: seams are found word by word, and stripping makes none.
-/

namespace Transcript.Compare

open Text

/-! ## Reading part by part -/

/-- A text can be read from a place: behind a prefix that was taken out it begins with an opening. -/
def Place.Suits (p : Place) (s : List Char) : Prop := p = .opened → Opens s

theorem Place.suits_of_ne {p : Place} (h : p ≠ .opened) (s : List Char) : p.Suits s := fun hp => absurd hp h

theorem Place.isWord_of_after_free {p : Place} {c : Char} (h : p.after c = .free) : isWord c = false := by
  refine Bool.eq_false_iff.mpr fun hc => ?_
  rw [Place.after, if_pos hc] at h
  split_ifs at h

theorem Place.Suits.after {p : Place} {c : Char} {cs : List Char} (h : p.Suits (c :: cs)) : (p.after c).Suits cs := by
  unfold Place.after
  split_ifs with hc hp
  · intro _
    obtain ⟨o, rest, ho, heq⟩ := h hp
    cases ho with
    | plain hq =>
      obtain ⟨rfl, -⟩ := List.cons.inj heq
      exact nomatch hc.symm.trans (isWord_of_isQuote hq)
    | raw hr hq => exact ⟨[_], rest, .plain hq, (List.cons.inj heq).2⟩
  all_goals exact Place.suits_of_ne (by decide) cs

/-- A text with the mark of a raw literal or without it. -/
def IsMark (s : List Char) : Prop := s = [] ∨ ∃ r, isRaw r = true ∧ s = [r]

theorem opens_append {p y : List Char} (h : Opens (p ++ y)) : Opens p ∨ IsMark p := by
  obtain ⟨o, rest, ho, heq⟩ := h
  cases p with
  | nil => exact .inr (.inl rfl)
  | cons c p =>
    cases ho with
    | plain hq => exact .inl ⟨[c], p, .plain ((List.cons.inj heq).1 ▸ hq), rfl⟩
    | raw hr hq =>
      obtain ⟨hc, hrest⟩ := List.cons.inj heq
      cases p with
      | nil => exact .inr (.inr ⟨c, hc ▸ hr, rfl⟩)
      | cons d p => exact .inl ⟨[c, d], p, .raw (hc ▸ hr) ((List.cons.inj hrest).1 ▸ hq), rfl⟩

section

variable {l : Letters} {p : Place}

/-- A text, read from a place, ends with a word that is a letter and may become a prefix. -/
def Letters.EndsText (l : Letters) (p : Place) (s : List Char) : Prop :=
  ∃ before c mark, l.Has c ∧ IsMark mark ∧ (before = [] → p = .free) ∧ (∀ d ∈ before.getLast?, isWord d = false) ∧
    s = before ++ c :: mark

/-- A text that begins with an opening, with its prefix or without, and a prefixed literal behind it. -/
def Letters.Doubles (l : Letters) (s : List Char) : Prop :=
  ∃ first o rest, (first = [] ∨ ∃ c, l.Has c ∧ first = [c]) ∧ IsOpening o ∧ l.Prefixes rest ∧ s = first ++ (o ++ rest)

theorem Letters.EndsText.of_free {s : List Char} (h : l.EndsText p s) : l.EndsText .free s := by
  obtain ⟨before, c, mark, hc, hmark, -, hlast, rfl⟩ := h
  exact ⟨before, c, mark, hc, hmark, fun _ => rfl, hlast, rfl⟩

/-- A text ends as its rest does. -/
theorem Letters.EndsText.cons {q : Place} {c : Char} {cs : List Char} (h : l.EndsText q cs)
    (hq : q = .free → isWord c = false) : l.EndsText p (c :: cs) := by
  obtain ⟨before, d, mark, hd, hmark, hfree, hlast, rfl⟩ := h
  refine ⟨c :: before, d, mark, hd, hmark, nofun, fun e he => ?_, rfl⟩
  cases before with
  | nil => exact Option.some.inj he ▸ hq (hfree rfl)
  | cons b bs => exact hlast e he

/-- **What comes behind a part** does not change it, if the part does not end with a letter. -/
theorem strip_append_tail {s : List Char} (hs : ¬ l.EndsText p s) {y : List Char} (hp : p.Suits (s ++ y)) :
    ∃ q : Place, q.Suits y ∧ strip l p (s ++ y) = strip l p s ++ strip l q y := by
  induction s generalizing p with
  | nil => exact ⟨p, hp, by rw [strip_nil]; rfl⟩
  | cons c cs ih =>
    have hsame : p = .free ∧ l.Prefixes (c :: (cs ++ y)) ↔ p = .free ∧ l.Prefixes (c :: cs) := by
      refine and_congr_right fun hfree => ⟨fun h => ?_, fun h => h.append y⟩
      rcases opens_append h.2 with hopens | hmark
      · exact ⟨h.1, hopens⟩
      · exact absurd ⟨[], c, cs, h.1, hmark, fun _ => hfree, by simp, rfl⟩ hs
    rw [List.cons_append, strip, strip]
    simp only [hsame]
    split_ifs with hprefix
    · exact ih (fun h => hs (h.cons fun hopened => absurd hopened (by decide))) fun _ => hprefix.2.2.append y
    · obtain ⟨q, hq, heq⟩ := ih (fun h => hs (h.cons Place.isWord_of_after_free)) hp.after
      exact ⟨q, hq, by rw [heq]; rfl⟩

/-- Any part can be read first, whatever it becomes. -/
theorem exists_strip_append (x : List Char) {y : List Char} (hp : p.Suits (x ++ y)) :
    ∃ (z : List Char) (q : Place), q.Suits y ∧ strip l p (x ++ y) = z ++ strip l q y := by
  induction x generalizing p with
  | nil => exact ⟨[], p, hp, rfl⟩
  | cons c cs ih =>
    rw [List.cons_append, strip]
    split_ifs with hprefix
    · exact ih fun _ => hprefix.2.2
    · obtain ⟨z, q, hq, heq⟩ := ih hp.after
      exact ⟨c :: z, q, hq, by rw [heq]; rfl⟩

/-- **What comes before a part** changes nothing but a prefix at its beginning. -/
theorem exists_strip_free {s : List Char} (hs : ¬ l.Doubles s) {y : List Char} (hp : p.Suits (s ++ y)) :
    ∃ z, strip l p s = z ++ strip l .free s := by
  cases p with
  | free => exact ⟨[], rfl⟩
  | bound =>
    by_cases hprefix : l.Prefixes s
    · cases s with
      | nil => exact hprefix.elim
      | cons c cs =>
        obtain ⟨hc, o, rest, ho, rfl⟩ := hprefix
        have hrest : ¬ l.Prefixes rest := fun h => hs ⟨[c], o, rest, .inr ⟨c, hc, rfl⟩, ho, h, rfl⟩
        refine ⟨[c], ?_⟩
        rw [strip_bound_cons, Place.after_word (by decide) hc.isWord, strip_opening (by decide) ho,
          strip_prefixed hc ho, strip_bound_eq hrest]
        rfl
    · exact ⟨[], strip_bound_eq hprefix⟩
  | opened =>
    refine ⟨[], ?_⟩
    rcases opens_append (hp rfl) with ⟨o, rest, ho, rfl⟩ | rfl | ⟨r, hr, rfl⟩
    · have hrest : ¬ l.Prefixes rest := fun h => hs ⟨[], o, rest, .inl rfl, ho, h, rfl⟩
      rw [strip_opened ho, strip_opening (by decide) ho, strip_bound_eq hrest, List.nil_append]
    · rfl
    · rw [strip_keep_of_not_has (not_has_of_isRaw hr), strip_keep_of_not_has (not_has_of_isRaw hr), strip_nil,
        strip_nil]
      rfl

/-! ## The pieces of a stripped expectation -/

theorem isBreak_dot : IsBreak '.' := ⟨by decide, rfl⟩

/-- A character between words stays where it is. -/
theorem strip_eq_cons_break {c : Char} (hc : IsBreak c) {s u : List Char} (h : strip l p s = c :: u) :
    ∃ t, s = c :: t ∧ u = strip l .free t := by
  cases s with
  | nil =>
    rw [strip_nil] at h
    cases h
  | cons d ds =>
    rw [strip] at h
    split_ifs at h with hprefix
    · obtain ⟨-, -, o, rest, ho, rfl⟩ := hprefix
      rw [strip_opened ho] at h
      have hopens : Opens ([] ++ c :: u) := ⟨o, strip l .bound rest, ho, h.symm⟩
      exact absurd ((opens_append_break hc [] u).mp hopens) not_opens_nil
    · obtain ⟨rfl, rfl⟩ := List.cons.inj h
      exact ⟨ds, rfl, by rw [after_break hc]⟩

theorem strip_gap (t : List Char) : strip l p (gap ++ t) = gap ++ strip l .free t := by
  have hdot {p : Place} (t : List Char) : strip l p ('.' :: t) = '.' :: strip l .free t := by
    have := strip_append_break (l := l) (p := p) isBreak_dot [] t
    rwa [strip_nil] at this
  change strip l p ('.' :: '.' :: '.' :: t) = _
  rw [hdot, hdot, hdot]
  rfl

/-- A gap in a stripped text is a gap of the text. -/
theorem strip_eq_gap {s y : List Char} (h : strip l p s = gap ++ y) : ∃ t, s = gap ++ t ∧ y = strip l .free t := by
  obtain ⟨t₁, rfl, h₁⟩ := strip_eq_cons_break isBreak_dot h
  obtain ⟨t₂, rfl, h₂⟩ := strip_eq_cons_break isBreak_dot h₁.symm
  obtain ⟨t₃, rfl, h₃⟩ := strip_eq_cons_break isBreak_dot h₂.symm
  exact ⟨t₃, rfl, h₃⟩

/-- **A stripped expectation has the same gaps,** with the stripped pieces between. -/
theorem splitOn_strip {s first : List Char} {rest : List (List Char)} (h : splitOn gap s = first :: rest) :
    splitOn gap (strip l p s) = strip l p first :: rest.map (strip l .free) := by
  induction hn : s.length using Nat.strongRecOn generalizing s first rest p with
  | ind n ih =>
    cases s with
    | nil =>
      obtain ⟨rfl, rfl⟩ := List.cons.inj h
      rw [strip_nil]
      rfl
    | cons c cs =>
      have hlt : cs.length < n := hn ▸ Nat.lt_succ_self cs.length
      by_cases hgap : gap <+: c :: cs
      · obtain ⟨t, ht⟩ := hgap
        have hshort : t.length < n := by
          rw [← hn, ← ht, List.length_append]
          exact Nat.lt_add_of_pos_left (by decide)
        obtain ⟨f, fs, hsplit⟩ := List.exists_cons_of_ne_nil (splitOn_ne_nil gap t)
        rw [← ht, splitOn_append (by decide), hsplit] at h
        obtain ⟨rfl, rfl⟩ := List.cons.inj h
        rw [← ht, strip_gap, splitOn_append (by decide), ih _ hshort hsplit rfl, strip_nil]
        rfl
      · obtain ⟨f, fs, hcs, hcons⟩ := splitOn_cons hgap
        obtain ⟨rfl, rfl⟩ := List.cons.inj (hcons.symm.trans h)
        have hsame : l.Prefixes (c :: cs) ↔ l.Prefixes (c :: f) := by
          have hcut : IsCut gap cs (f :: fs) := hcs ▸ splitOn_isCut (by decide) cs
          rcases hcut.eq_or_append with rfl | ⟨t, rfl⟩
          · exact Iff.rfl
          · exact and_congr_right fun _ => opens_append_break isBreak_dot f _
        by_cases hprefix : p = .free ∧ l.Prefixes (c :: cs)
        · rw [strip, strip, if_pos hprefix, if_pos (And.imp_right hsame.mp hprefix)]
          exact ih _ hlt hcs rfl
        · have hnot : ¬ gap <+: c :: strip l (p.after c) cs := by
            rintro ⟨y, hy⟩
            obtain ⟨t, ht, -⟩ := strip_eq_gap ((strip_keep hprefix).trans hy.symm)
            exact hgap ⟨t, ht.symm⟩
          obtain ⟨f', fs', hrest, hsplit⟩ := splitOn_cons hnot
          obtain ⟨rfl, rfl⟩ := List.cons.inj (hrest.symm.trans (ih _ hlt hcs rfl))
          rw [strip_keep hprefix, strip_keep fun hp => hprefix ⟨hp.1, hsame.mpr hp.2⟩, hsplit]

/-- **Pieces with fillings are stripped piece by piece.** -/
theorem Fills.strip {first got : List Char} {rest : List (List Char)} (h : Fills (first :: rest) got)
    (hends : ∀ q ∈ (first :: rest).dropLast, ¬ l.EndsText .free q) (hdoubles : ∀ q ∈ rest, ¬ l.Doubles q)
    (hp : p.Suits got) :
    Fills (strip l p first :: rest.map (Compare.strip l .free)) (Compare.strip l p got) := by
  induction rest generalizing first got p with
  | nil =>
    obtain rfl := fills_singleton.mp h
    exact .last _
  | cons q qs ih =>
    obtain ⟨x, more, rfl, hmore⟩ := (fills_cons (List.cons_ne_nil q qs)).mp h
    rw [List.dropLast_cons_cons] at hends
    obtain ⟨hfirst, hends⟩ := List.forall_mem_cons.mp hends
    obtain ⟨hq, hdoubles⟩ := List.forall_mem_cons.mp hdoubles
    obtain ⟨p₁, hp₁, heq₁⟩ := strip_append_tail (fun h => hfirst h.of_free) hp
    obtain ⟨z, p₂, hp₂, heq₂⟩ := exists_strip_append x hp₁
    -- The piece behind the gap is stripped as if it began the text, but for a letter at its beginning.
    obtain ⟨y, rfl⟩ := hmore.isPrefix
    obtain ⟨w, hw⟩ := exists_strip_free hq hp₂
    have hrest := ih hmore hends hdoubles hp₂
    rw [hw] at hrest
    obtain ⟨tail, htail, hfills⟩ := fills_append.mp hrest
    rw [heq₁, heq₂, htail, ← List.append_assoc z]
    exact hfills.cons _ _

end

/-! ## Seams -/

/-- A prefix letter of text or bytes literals. -/
def IsPrefixLetter (c : Char) : Prop := Letters.unicode.Has c ∨ Letters.bytes.Has c

/-- **A gap beside a literal:** behind a word that is one of the letters, with the mark of a raw literal or
without; or in front of an opening, with any prefix or without, that a literal with one of the letters follows.
`prev` is the character before. -/
inductive IsSeam (l : Letters) : Option Char → List Char → Prop
  | behind {prev : Option Char} {c : Char} {mark : List Char} (hprev : ∀ d ∈ prev, isWord d = false) (hc : l.Has c)
      (hmark : IsMark mark) : IsSeam l prev (c :: (mark ++ gap))
  | before {prev : Option Char} {first o o' : List Char} {c : Char}
      (hfirst : first = [] ∨ ∃ d, IsPrefixLetter d ∧ first = [d]) (ho : IsOpening o) (hc : l.Has c)
      (ho' : IsOpening o') : IsSeam l prev (gap ++ (first ++ (o ++ c :: o')))

/-- A text behind another one has no gaps beside literals. -/
def NoSeamBehind (l : Letters) (x s : List Char) : Prop :=
  ∀ a m b, s = a ++ (m ++ b) → ¬ IsSeam l (x ++ a).getLast? m

/-- A text without gaps beside literals. -/
def NoSeam (l : Letters) (s : List Char) : Prop := NoSeamBehind l [] s

/-- **Without seams, a match is kept if prefixes are taken out.** -/
theorem matches_strip {l : Letters} (hl : ∀ c, l.Has c → IsPrefixLetter c) {want got : List Char}
    (h : Matches want got) (hseam : NoSeam l want) : Matches (strip l .free want) (strip l .free got) := by
  obtain ⟨first, rest, hsplit⟩ := List.exists_cons_of_ne_nil (splitOn_ne_nil gap want)
  have hcut : IsCut gap want (first :: rest) := hsplit ▸ splitOn_isCut (by decide) want
  unfold Matches at h ⊢
  rw [hsplit] at h
  rw [splitOn_strip hsplit]
  refine h.strip ?_ ?_ (Place.suits_of_ne (by decide) got)
  · rintro q hq ⟨before, c, mark, hc, hmark, -, hlast, rfl⟩
    obtain ⟨a, b, rfl, ha⟩ := hcut.append_marker _ hq
    refine hseam (a ++ before) (c :: (mark ++ gap)) b (by simp) (.behind (fun d hd => ?_) hc hmark)
    rw [List.nil_append, List.getLast?_append, Option.mem_def, Option.or_eq_some_iff] at hd
    rcases hd with hd | ⟨-, hd⟩
    · exact hlast d hd
    · rcases ha with rfl | ⟨a, rfl⟩
      · cases hd
      · rw [List.getLast?_append_of_ne_nil a (by decide : gap ≠ [])] at hd
        obtain rfl : '.' = d := Option.some.inj hd
        exact isBreak_dot.1
  · rintro q hq ⟨first', o, rest', hfirst, ho, hprefix, rfl⟩
    obtain ⟨c, o', t, hc, ho', rfl⟩ := l.prefixes_iff.mp hprefix
    have hfirst' : first' = [] ∨ ∃ d, IsPrefixLetter d ∧ first' = [d] :=
      hfirst.imp_right fun ⟨d, hd, heq⟩ => ⟨d, hl d hd, heq⟩
    obtain ⟨a, b, hwant⟩ := hcut.marker_append _ hq
    exact hseam a _ (t ++ b) (by simp [← hwant]) (.before hfirst' ho hc ho')

/-! ### Where seams are found -/

theorem IsPrefixLetter.isWord {c : Char} (h : IsPrefixLetter c) : isWord c = true := h.elim (·.isWord) (·.isWord)

theorem IsPrefixLetter.isRaw {c : Char} (h : IsPrefixLetter c) : isRaw c = false := h.elim (·.isRaw) (·.isRaw)

theorem isBlank_of_isWord {c : Char} (h : isWord c = true) : isBlank c = false :=
  Bool.eq_false_iff.mpr fun hb => nomatch h.symm.trans (isBreak_of_isBlank hb).1

theorem isBlank_of_isQuote {c : Char} (h : isQuote c = true) : isBlank c = false :=
  Bool.eq_false_iff.mpr fun hb => nomatch h.symm.trans (isBreak_of_isBlank hb).2

theorem IsOpening.no_blank {o : List Char} (h : IsOpening o) : ∀ c ∈ o, isBlank c = false := by
  cases h with
  | plain hq => simpa using isBlank_of_isQuote hq
  | raw hr hq => simpa using ⟨isBlank_of_isWord (isWord_of_isRaw hr), isBlank_of_isQuote hq⟩

section

variable {l : Letters} {prev next : Option Char} {m s : List Char}

theorem IsSeam.no_blank (h : IsSeam l prev m) : ∀ c ∈ m, isBlank c = false := by
  have hgap : ∀ c ∈ gap, isBlank c = false := by simp [gap, isBlank]
  cases h with
  | @behind c mark _ hc hmark =>
    have hmark' : ∀ c ∈ mark, isBlank c = false := by
      rcases hmark with rfl | ⟨r, hr, rfl⟩
      · simp
      · simpa using isBlank_of_isWord (isWord_of_isRaw hr)
    exact List.forall_mem_cons.mpr ⟨isBlank_of_isWord hc.isWord, List.forall_mem_append.mpr ⟨hmark', hgap⟩⟩
  | @before first o o' c hfirst ho hc ho' =>
    have hfirst' : ∀ c ∈ first, isBlank c = false := by
      rcases hfirst with rfl | ⟨d, hd, rfl⟩
      · simp
      · simpa using isBlank_of_isWord hd.isWord
    have hlast : ∀ x ∈ c :: o', isBlank x = false :=
      List.forall_mem_cons.mpr ⟨isBlank_of_isWord hc.isWord, ho'.no_blank⟩
    exact List.forall_mem_append.mpr ⟨hgap, List.forall_mem_append.mpr ⟨hfirst',
      List.forall_mem_append.mpr ⟨ho.no_blank, hlast⟩⟩⟩

theorem IsSeam.ne_nil (h : IsSeam l prev m) : m ≠ [] := by
  cases h <;> simp [gap]

/-- A seam is one behind any character of no word. -/
theorem IsSeam.behind_other (h : IsSeam l prev m)
    (hnext : (∀ d ∈ prev, isWord d = false) → ∀ d ∈ next, isWord d = false) : IsSeam l next m := by
  cases h with
  | behind hprev hc hmark => exact .behind (hnext hprev) hc hmark
  | before hfirst ho hc ho' => exact .before hfirst ho hc ho'

/-- A part without blanks lies before a blank or behind it. -/
theorem append_eq_append_cons {a b x y : List Char} {d : Char} (hd : d ∉ m) (hm : m ≠ [])
    (h : a ++ (m ++ b) = x ++ d :: y) :
    (∃ b', x = a ++ (m ++ b')) ∨ ∃ a', a = x ++ d :: a' ∧ y = a' ++ (m ++ b) := by
  rcases List.append_eq_append_iff.mp h with ⟨x', rfl, hrest⟩ | ⟨a', rfl, hrest⟩
  · obtain ⟨b', rfl⟩ := prefix_of_prefix_append_cons hd (hrest ▸ List.prefix_append m b)
    exact .inl ⟨b', rfl⟩
  · cases a' with
    | nil =>
      obtain ⟨c, cs, rfl⟩ := List.exists_cons_of_ne_nil hm
      obtain ⟨rfl, -⟩ := List.cons.inj hrest
      exact absurd List.mem_cons_self hd
    | cons e a' =>
      obtain ⟨rfl, rfl⟩ := List.cons.inj hrest
      exact .inr ⟨a', rfl, rfl⟩

/-- **Seams are found word by word.** -/
theorem noSeam_iff_words : NoSeam l s ↔ ∀ v ∈ words s, NoSeam l v := by
  constructor
  · rintro h v hv a m b rfl hm
    obtain ⟨-, -, x, y, rfl, hx⟩ := mem_words hv
    refine h (x ++ a) m (b ++ y) (by simp) (hm.behind_other fun ha d hd => ?_)
    rw [List.nil_append, List.getLast?_append, Option.mem_def, Option.or_eq_some_iff] at hd
    rcases hd with hd | ⟨-, hd⟩
    · exact ha d hd
    · exact (isBreak_of_isBlank (hx d hd)).1
  · intro h a m b heq hm
    induction hn : s.length using Nat.strongRecOn generalizing s a b with
    | ind n ih =>
      cases hfind : s.find? isBlank with
      | none =>
        have hs : s ≠ [] := by
          rintro rfl
          exact hm.ne_nil (List.append_eq_nil_iff.mp (List.append_eq_nil_iff.mp heq.symm).2).1
        rw [words_of_none (by simpa using hfind), if_neg hs] at h
        exact h s List.mem_cons_self a m b heq hm
      | some d =>
        obtain ⟨hd, x, y, rfl, -⟩ := List.find?_eq_some_iff_append.mp hfind
        have hnot : d ∉ m := fun hmem => nomatch hd.symm.trans (hm.no_blank d hmem)
        rw [words_append_cons hd] at h
        obtain ⟨hx, hy⟩ := List.forall_mem_append.mp h
        rcases append_eq_append_cons hnot hm.ne_nil heq.symm with ⟨b', hxa⟩ | ⟨a', rfl, hya⟩
        · exact ih x.length (by simp [← hn]) hx a b' hxa hm rfl
        · refine ih y.length (by simp [← hn]; omega) hy a' b hya (hm.behind_other fun ha e he => ha e ?_) rfl
          rw [List.nil_append] at he ⊢
          rw [List.getLast?_append, List.getLast?_cons, he]
          rfl

/-- Gaps that are words of their own are no seams. -/
theorem noSeam_of_gap_words (h : ∀ v ∈ words s, v = gap ∨ '.' ∉ v) : NoSeam l s := by
  refine noSeam_iff_words.mpr fun v hv a m b heq hm => ?_
  have hpart : m <:+: v := ⟨a, b, by rw [heq, List.append_assoc]⟩
  have hdot : '.' ∈ m := by cases hm <;> simp [gap]
  have hlong : gap.length < m.length := by
    cases hm with
    | behind => simp [gap]
    | before =>
      rw [List.length_append, List.length_append, List.length_append, List.length_cons]
      omega
  rcases h v hv with rfl | hnone
  · exact absurd hpart.length_le (Nat.not_le_of_lt hlong)
  · exact hnone (hpart.subset hdot)

theorem NoSeam.unmarkBlankLines (h : NoSeam l s) : NoSeam l (unmarkBlankLines s) :=
  noSeam_iff_words.mpr fun v hv => noSeam_iff_words.mp h v ((words_unmarkBlankLines s).subset hv)

theorem NoSeam.normalizeBlanks (h : NoSeam l s) : NoSeam l (normalizeBlanks s) :=
  noSeam_iff_words.mpr fun v hv => noSeam_iff_words.mp h v (words_normalizeBlanks s ▸ hv)

end

section

variable {k l : Letters} {p : Place}

theorem IsOpening.append_inj {o o' a b : List Char} (ho : IsOpening o) (ho' : IsOpening o') (h : o ++ a = o' ++ b) :
    o = o' ∧ a = b := by
  have hne {r q : Char} (hr : isRaw r = true) (hq : isQuote q = true) : r ≠ q := by
    rintro rfl
    exact nomatch (isWord_of_isRaw hr).symm.trans (isWord_of_isQuote hq)
  cases ho with
  | plain hq =>
    cases ho' with
    | plain hq' =>
      obtain ⟨rfl, rfl⟩ := List.cons.inj h
      exact ⟨rfl, rfl⟩
    | raw hr hq' => exact absurd (List.cons.inj h).1.symm (hne hr hq)
  | raw hr hq =>
    cases ho' with
    | plain hq' => exact absurd (List.cons.inj h).1 (hne hr hq')
    | raw hr' hq' =>
      obtain ⟨rfl, hrest⟩ := List.cons.inj h
      obtain ⟨rfl, rfl⟩ := List.cons.inj hrest
      exact ⟨rfl, rfl⟩

/-- A prefix letter begins no opening. -/
theorem IsPrefixLetter.not_opens {c : Char} (hc : IsPrefixLetter c) (s : List Char) : ¬ Opens (c :: s) := by
  rintro ⟨o, rest, ho, heq⟩
  cases ho with
  | plain hq =>
    obtain ⟨rfl, -⟩ := List.cons.inj heq
    exact nomatch hc.isWord.symm.trans (isWord_of_isQuote hq)
  | raw hr hq =>
    obtain ⟨rfl, -⟩ := List.cons.inj heq
    exact nomatch hr.symm.trans hc.isRaw

/-- A letter that is left was there. -/
theorem strip_eq_cons_letter {c : Char} (hc : IsPrefixLetter c) (hp : p ≠ .opened) {s u : List Char}
    (h : strip l p s = c :: u) : ∃ t, s = c :: t ∧ u = strip l .bound t := by
  cases s with
  | nil =>
    rw [strip_nil] at h
    cases h
  | cons d ds =>
    rw [strip] at h
    split_ifs at h with hprefix
    · obtain ⟨-, -, o, rest, ho, rfl⟩ := hprefix
      rw [strip_opened ho] at h
      exact absurd ⟨o, _, ho, h.symm⟩ (hc.not_opens u)
    · obtain ⟨rfl, rfl⟩ := List.cons.inj h
      exact ⟨ds, rfl, by rw [Place.after_word hp hc.isWord]⟩

/-- A seam does not begin with an opening. -/
theorem IsSeam.not_opens (hk : ∀ c, k.Has c → IsPrefixLetter c) {prev : Option Char} {m : List Char}
    (h : IsSeam k prev m) (y : List Char) : ¬ Opens (m ++ y) := by
  cases h with
  | behind _ hc _ => exact (hk _ hc).not_opens _
  | before => exact fun h => not_opens_nil ((opens_append_break isBreak_dot [] _).mp h)

/-- A prefixed literal that is left was there. -/
theorem strip_eq_prefixed {c : Char} {o y s : List Char} (hc : IsPrefixLetter c) (ho : IsOpening o)
    (hp : p ≠ .opened) (h : strip l p s = c :: (o ++ y)) : ∃ t, s = c :: (o ++ t) := by
  obtain ⟨t, rfl, ht⟩ := strip_eq_cons_letter hc hp h
  obtain ⟨u, rfl, -⟩ := strip_bound_eq_opening ho ht.symm
  exact ⟨u, rfl⟩

/-- No seam begins behind a prefix that was taken out. -/
theorem IsSeam.ne_opened (hk : ∀ c, k.Has c → IsPrefixLetter c) {prev : Option Char} {m y s : List Char}
    (hm : IsSeam k prev m) (hp : p.Suits s) (h : strip l p s = m ++ y) : p ≠ .opened := by
  rintro rfl
  obtain ⟨o, rest, ho, rfl⟩ := hp rfl
  exact hm.not_opens hk y ⟨o, _, ho, h.symm.trans (strip_opened ho rest)⟩

/-- A gap behind a letter was there. -/
theorem strip_eq_letter_gap {c : Char} (hc : IsPrefixLetter c) {mark : List Char} (hmark : IsMark mark)
    (hp : p ≠ .opened) {s y : List Char} (h : strip l p s = c :: (mark ++ (gap ++ y))) :
    ∃ t, s = c :: (mark ++ (gap ++ t)) := by
  obtain ⟨t, rfl, ht⟩ := strip_eq_cons_letter hc hp h
  rcases hmark with rfl | ⟨r, hr, rfl⟩
  · obtain ⟨u, rfl, -⟩ := strip_eq_gap ht.symm
    exact ⟨u, rfl⟩
  · cases t with
    | nil => cases ht
    | cons d t =>
      rw [strip_bound_cons] at ht
      obtain ⟨rfl, hgap⟩ := List.cons.inj ht
      obtain ⟨u, rfl, -⟩ := strip_eq_gap hgap.symm
      exact ⟨u, rfl⟩

/-- Behind a character of a word, an opening with a prefixed literal behind it was there. -/
theorem strip_bound_eq_double {c : Char} {o o' s y : List Char} (ho : IsOpening o) (hc : IsPrefixLetter c)
    (ho' : IsOpening o') (h : strip l .bound s = o ++ c :: (o' ++ y)) : ∃ t, s = o ++ c :: (o' ++ t) := by
  obtain ⟨t, rfl, ht⟩ := strip_bound_eq_opening ho h
  obtain ⟨u, rfl⟩ := strip_eq_prefixed hc ho' (by decide) ht.symm
  exact ⟨u, rfl⟩

/-- An opening with a prefixed literal behind it was there, but for a prefix that was taken out of the first of the
two literals. -/
theorem exists_double_of_strip (hl : ∀ c, l.Has c → IsPrefixLetter c) {c : Char} {first o o' s y : List Char}
    (hfirst : first = [] ∨ ∃ d, IsPrefixLetter d ∧ first = [d]) (ho : IsOpening o) (hc : IsPrefixLetter c)
    (ho' : IsOpening o') (h : strip l .free s = first ++ (o ++ c :: (o' ++ y))) :
    ∃ first' t, (first' = [] ∨ ∃ d, IsPrefixLetter d ∧ first' = [d]) ∧ s = first' ++ (o ++ c :: (o' ++ t)) := by
  by_cases hprefix : l.Prefixes s
  · obtain ⟨d, o₁, t₁, hd, ho₁, rfl⟩ := l.prefixes_iff.mp hprefix
    rw [strip_prefixed hd ho₁] at h
    rcases hfirst with rfl | ⟨e, he, rfl⟩
    · obtain ⟨rfl, hrest⟩ := ho₁.append_inj ho h
      obtain ⟨t, rfl⟩ := strip_eq_prefixed hc ho' (by decide) hrest
      exact ⟨[d], t, .inr ⟨d, hl d hd, rfl⟩, rfl⟩
    · exact absurd ⟨o₁, _, ho₁, h.symm⟩ (he.not_opens _)
  · rcases hfirst with rfl | ⟨e, he, rfl⟩
    · rw [← strip_bound_eq hprefix] at h
      obtain ⟨t, rfl⟩ := strip_bound_eq_double ho hc ho' h
      exact ⟨[], t, .inl rfl, rfl⟩
    · obtain ⟨s, rfl, hopening⟩ := strip_eq_cons_letter he (by decide) h
      obtain ⟨t, rfl⟩ := strip_bound_eq_double ho hc ho' hopening.symm
      exact ⟨[e], t, .inr ⟨e, he, rfl⟩, rfl⟩

/-- A seam at the beginning of what is left comes from a seam. -/
theorem exists_seam_of_strip (hk : ∀ c, k.Has c → IsPrefixLetter c) (hl : ∀ c, l.Has c → IsPrefixLetter c)
    {prev : Option Char} {m y s : List Char} (hm : IsSeam k prev m) (hopened : p ≠ .opened)
    (h : strip l p s = m ++ y) : ∃ m' z, IsSeam k prev m' ∧ s = m' ++ z := by
  cases hm with
  | @behind c mark hprev hc hmark =>
    rw [List.cons_append, List.append_assoc] at h
    obtain ⟨t, rfl⟩ := strip_eq_letter_gap (hk c hc) hmark hopened h
    exact ⟨_, t, .behind hprev hc hmark, by simp⟩
  | @before first o o' c hfirst ho hc ho' =>
    rw [List.append_assoc] at h
    obtain ⟨s, rfl, hs⟩ := strip_eq_gap h
    obtain ⟨first', t, hfirst', rfl⟩ := @exists_double_of_strip l hl c first o o' s y hfirst ho (hk c hc) ho' (by simp [← hs])
    exact ⟨_, t, .before hfirst' ho hc ho', by simp⟩

/-- **Taking out prefixes makes no seams,** whatever character comes before, if it is the same before and after. -/
theorem NoSeamBehind.strip (hk : ∀ c, k.Has c → IsPrefixLetter c) (hl : ∀ c, l.Has c → IsPrefixLetter c)
    {x y s : List Char} (h : NoSeamBehind k x s) (hp : p.Suits s) (hxy : p ≠ .opened → x.getLast? = y.getLast?) :
    NoSeamBehind k y (strip l p s) := by
  intro a m b heq hm
  induction s generalizing p x y a with
  | nil =>
    rw [strip_nil] at heq
    exact hm.ne_nil (List.append_eq_nil_iff.mp (List.append_eq_nil_iff.mp heq.symm).2).1
  | cons c cs ih =>
    have hcs : NoSeamBehind k (x ++ [c]) cs := fun a m b heq hm =>
      h (c :: a) m b (by rw [heq]; rfl) (by rwa [List.append_assoc] at hm)
    by_cases hprefix : p = .free ∧ l.Prefixes (c :: cs)
    · rw [Compare.strip, if_pos hprefix] at heq
      exact ih hcs (fun _ => hprefix.2.2) (fun hne => absurd rfl hne) a heq hm
    · cases a with
      | nil =>
        have hopened := hm.ne_opened hk hp heq
        rw [List.append_nil, ← hxy hopened] at hm
        obtain ⟨m', z, hm', hs⟩ := exists_seam_of_strip hk hl hm hopened heq
        exact h [] m' z hs (by rwa [List.append_nil])
      | cons d a =>
        rw [strip_keep hprefix] at heq
        obtain ⟨rfl, htail⟩ := List.cons.inj heq
        have hsame : (x ++ [c]).getLast? = (y ++ [c]).getLast? := by
          rw [List.getLast?_concat, List.getLast?_concat]
        exact @ih (p.after c) (x ++ [c]) (y ++ [c]) hcs hp.after (fun _ => hsame) a htail
          (by rwa [List.append_assoc])

theorem NoSeam.strip (hk : ∀ c, k.Has c → IsPrefixLetter c) (hl : ∀ c, l.Has c → IsPrefixLetter c) {s : List Char}
    (h : NoSeam k s) : NoSeam k (strip l .free s) :=
  NoSeamBehind.strip hk hl h (Place.suits_of_ne (by decide) s) fun _ => rfl

end

end Transcript.Compare
