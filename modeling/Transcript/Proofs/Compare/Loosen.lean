import Transcript.Proofs.Compare.Precision

/-!
# More flags, more matches?

A flag that lets something differ in a match is meant to lose no match. For gaps this is so. But blanks,
prefixes and numbers are evened out one after the other before gaps are filled, and each step may take
away what the next one needs: reducing blanks leaves one blank of the output for two of the expectation
around a gap, and a prefix is taken out of the output beside what a gap or a number stands for, while the
expectation has none there.

Results:
* `acceptsPlain_iff`, `accepts_iff`: what a comparison accepts.
* `acceptsPlain_strip`: what is accepted is accepted without prefixes, if no gap stands beside a literal.
* `dropAllowedPrefixes_insert`: one more kind of prefixes may be taken out last.
* `accepts_insert`: when a match is kept with one flag more, and `accepts_insert_loses`: matches that are not.
-/

namespace Transcript.Compare

open Text

/-! ## What is compared -/

/-- The expectation without its markers, unless they stand for themselves. -/
def unmarked (flags : FlagSet) (want : List Char) : List Char :=
  if flags.has .dontAcceptBlankline then want else unmarkBlankLines want

/-- The output as an expectation without markers is compared with it. -/
def cleared (flags : FlagSet) (got : List Char) : List Char :=
  if flags.has .dontAcceptBlankline then got else clearBlankLines got

/-- A text with its blanks reduced, if they do not count. -/
def reduced (flags : FlagSet) (s : List Char) : List Char :=
  if flags.has .normalizeWhitespace then normalizeBlanks s else s

variable {want got : List Char} {flags : FlagSet}

/-- **What a comparison without literals accepts:** equal texts, a truth value for its number, and texts
that are equal or match once their blank lines and their blanks are evened out. -/
theorem acceptsPlain_iff : acceptsPlain want got flags = true ↔
    got = want ∨ (flags.has .dontAcceptTrueForOne = false ∧ isTruthOfNumber want got = true) ∨
      reduced flags (cleared flags got) = reduced flags (unmarked flags want) ∨
      (flags.has .ellipsis = true ∧ Matches (reduced flags (unmarked flags want)) (reduced flags (cleared flags got))) := by
  have hsteps : acceptsPlain want got flags = true ↔
      got = want ∨ (flags.has .dontAcceptTrueForOne = false ∧ isTruthOfNumber want got = true) ∨
        cleared flags got = unmarked flags want ∨
        reduced flags (cleared flags got) = reduced flags (unmarked flags want) ∨
        (flags.has .ellipsis = true ∧
          Matches (reduced flags (unmarked flags want)) (reduced flags (cleared flags got))) := by
    simp only [← ellipsisMatch_iff_matches]
    unfold acceptsPlain reduced cleared unmarked
    split_ifs <;> simp_all
  rw [hsteps]
  exact or_congr_right (or_congr_right (or_iff_right_of_imp fun heq => .inl (congrArg (reduced flags) heq)))

/-! ### More matches -/

/-- **Gaps lose no match.** -/
theorem acceptsPlain_insert_ellipsis (h : acceptsPlain want got flags = true) :
    acceptsPlain want got (flags.insert .ellipsis) = true := by
  rw [acceptsPlain_iff] at h ⊢
  rcases h with h | h | h | ⟨-, h⟩
  · exact .inl h
  · exact .inr (.inl h)
  · exact .inr (.inr (.inl h))
  · exact .inr (.inr (.inr ⟨rfl, h⟩))

theorem reduced_insert (s : List Char) : reduced (flags.insert .normalizeWhitespace) s = normalizeBlanks s :=
  if_pos (show (flags.insert .normalizeWhitespace).has .normalizeWhitespace = true from rfl)

/-- **Reduced blanks lose no match** that gaps do not lose. -/
theorem acceptsPlain_insert_normalizeWhitespace (h : acceptsPlain want got flags = true)
    (hgaps : flags.has .ellipsis = true →
      Matches (reduced flags (unmarked flags want)) (reduced flags (cleared flags got)) →
        Matches (normalizeBlanks (unmarked flags want)) (normalizeBlanks (cleared flags got))) :
    acceptsPlain want got (flags.insert .normalizeWhitespace) = true := by
  have hreduced (s : List Char) : normalizeBlanks (reduced flags s) = normalizeBlanks s := by
    unfold reduced
    split_ifs
    · exact congrArg (joinWith [' ']) (words_normalizeBlanks s)
    · rfl
  rw [acceptsPlain_iff] at h ⊢
  rw [reduced_insert, reduced_insert]
  rcases h with h | h | h | ⟨hellipsis, h⟩
  · exact .inl h
  · exact .inr (.inl h)
  · have heven := congrArg normalizeBlanks h
    rw [hreduced, hreduced] at heven
    exact .inr (.inr (.inl heven))
  · exact .inr (.inr (.inr ⟨hellipsis, hgaps hellipsis h⟩))

/-- **A match with gaps is kept** with reduced blanks, unless it leaves out one of several words. -/
theorem acceptsPlain_of_keepsWords (hellipsis : flags.has .ellipsis = true)
    (h : KeepsWords (unmarked flags want) (cleared flags got)) :
    acceptsPlain want got (flags.insert .normalizeWhitespace) = true := by
  rw [acceptsPlain_iff, reduced_insert, reduced_insert]
  exact .inr (.inr (.inr ⟨hellipsis, matches_normalizeBlanks h⟩))

/-! ## What is compared without prefixes -/

section

variable {l : Letters}

theorem unmarked_strip (want : List Char) :
    unmarked flags (strip l .free want) = strip l .free (unmarked flags want) := by
  unfold unmarked
  split_ifs
  · rfl
  · exact unmarkBlankLines_strip want

theorem cleared_strip (got : List Char) : cleared flags (strip l .free got) = strip l .free (cleared flags got) := by
  unfold cleared
  split_ifs
  · rfl
  · exact clearBlankLines_strip got

theorem reduced_strip (s : List Char) : reduced flags (strip l .free s) = strip l .free (reduced flags s) := by
  unfold reduced
  split_ifs
  · exact normalizeBlanks_strip s
  · rfl

theorem isTruthOfNumber_strip (h : isTruthOfNumber want got = true) :
    isTruthOfNumber (strip l .free want) (strip l .free got) = true := by
  have hquotes : ∀ s ∈ ["True\n".toList, "1\n".toList, "False\n".toList, "0\n".toList], strip l .free s = s :=
    fun s hs => strip_of_no_quote ((by simp [isQuote] : ∀ s ∈ _, ∀ c ∈ s, isQuote c = false) s hs)
  simp only [isTruthOfNumber, Bool.or_eq_true, Bool.and_eq_true, beq_iff_eq] at h
  rcases h with ⟨rfl, rfl⟩ | ⟨rfl, rfl⟩
  · rw [hquotes _ (by simp), hquotes _ (by simp)]
    rfl
  · rw [hquotes _ (by simp), hquotes _ (by simp)]
    rfl

/-- **What is accepted is accepted without prefixes,** if no gap stands beside a literal. -/
theorem acceptsPlain_strip (hl : ∀ c, l.Has c → IsPrefixLetter c) (h : acceptsPlain want got flags = true)
    (hseam : flags.has .ellipsis = true → NoSeam l want) :
    acceptsPlain (strip l .free want) (strip l .free got) flags = true := by
  rw [acceptsPlain_iff] at h ⊢
  rw [unmarked_strip, cleared_strip, reduced_strip, reduced_strip]
  rcases h with h | ⟨hnumber, h⟩ | h | ⟨hellipsis, h⟩
  · exact .inl (congrArg _ h)
  · exact .inr (.inl ⟨hnumber, isTruthOfNumber_strip h⟩)
  · exact .inr (.inr (.inl (congrArg _ h)))
  · have hseam' : NoSeam l (reduced flags (unmarked flags want)) := by
      unfold reduced unmarked
      split_ifs
      · exact (hseam hellipsis).normalizeBlanks
      · exact (hseam hellipsis).unmarkBlankLines.normalizeBlanks
      · exact hseam hellipsis
      · exact (hseam hellipsis).unmarkBlankLines
    exact .inr (.inr (.inr ⟨hellipsis, matches_strip hl h hseam'⟩))

end

/-! ## What is compared with literals -/

/-- The output as it is compared once the allowed prefixes are taken out: with its numbers written as in the
expectation, if they may differ. -/
def respelled (flags : FlagSet) (want got : List Char) : List Char :=
  if flags.has .number then matchPrecision (dropAllowedPrefixes flags want) (dropAllowedPrefixes flags got)
  else dropAllowedPrefixes flags got

/-- **The texts that are compared:** the expectation and the output, and the two with the literals evened out
that may differ. -/
inductive Compared (want got : List Char) (flags : FlagSet) : List Char → List Char → Prop
  | plain : Compared want got flags want got
  | literals (h : flags.hasAny [.allowUnicode, .allowBytes, .number] = true) :
      Compared want got flags (dropAllowedPrefixes flags want) (respelled flags want got)

theorem accepts_iff :
    accepts want got flags = true ↔ ∃ w g, Compared want got flags w g ∧ acceptsPlain w g flags = true := by
  have hsteps : accepts want got flags = true ↔
      acceptsPlain want got flags = true ∨ (flags.hasAny [.allowUnicode, .allowBytes, .number] = true ∧
        acceptsPlain (dropAllowedPrefixes flags want) (respelled flags want got) flags = true) := by
    unfold accepts
    rw [Bool.or_eq_true, Bool.and_eq_true]
    rfl
  rw [hsteps]
  constructor
  · rintro (h | ⟨hany, h⟩)
    · exact ⟨want, got, .plain, h⟩
    · exact ⟨_, _, .literals hany, h⟩
  · rintro ⟨w, g, hcompared, h⟩
    cases hcompared with
    | plain => exact .inl h
    | literals hany => exact .inr ⟨hany, h⟩

/-- The flag that allows prefixes of a kind to differ. -/
inductive Allows : Flag → Letters → Prop
  | unicode : Allows .allowUnicode .unicode
  | bytes : Allows .allowBytes .bytes

theorem Allows.isPrefixLetter {f : Flag} {l : Letters} (h : Allows f l) : ∀ c, l.Has c → IsPrefixLetter c := by
  cases h with
  | unicode => exact fun _ => .inl
  | bytes => exact fun _ => .inr

theorem dropAllowedPrefixes_eq (flags : FlagSet) (s : List Char) :
    dropAllowedPrefixes flags s =
      (if flags.has .allowBytes then strip .bytes .free else id)
        ((if flags.has .allowUnicode then strip .unicode .free else id) s) := by
  have hunicode : dropPrefixes 'u' 'U' s = strip .unicode .free s := dropPrefixes_eq .unicode s
  have hbytes (t : List Char) : dropPrefixes 'b' 'B' t = strip .bytes .free t := dropPrefixes_eq .bytes t
  unfold dropAllowedPrefixes
  dsimp only
  rw [hunicode, hbytes]
  split_ifs <;> rfl

/-- What holds of a text still holds when prefixes are taken out of it, if it does for one kind. -/
theorem dropAllowedPrefixes_keeps {P : List Char → Prop}
    (hstrip : ∀ l s, (∀ c, l.Has c → IsPrefixLetter c) → P s → P (strip l .free s)) (flags : FlagSet) {s : List Char}
    (h : P s) : P (dropAllowedPrefixes flags s) := by
  rw [dropAllowedPrefixes_eq]
  have hif (b : Bool) {l : Letters} (hl : ∀ c, l.Has c → IsPrefixLetter c) {s : List Char} (h : P s) :
      P ((if b then strip l .free else id) s) := by
    cases b with
    | false => exact h
    | true => exact hstrip l s hl h
  exact hif _ Allows.bytes.isPrefixLetter (hif _ Allows.unicode.isPrefixLetter h)

/-- **One more kind of prefixes** may be taken out last. -/
theorem dropAllowedPrefixes_insert {f : Flag} {l : Letters} (h : Allows f l) (hf : flags.has f = false)
    (s : List Char) : dropAllowedPrefixes (flags.insert f) s = strip l .free (dropAllowedPrefixes flags s) := by
  have hdisjoint : ∀ c, Letters.unicode.Has c → ¬ Letters.bytes.Has c := by
    rintro c (rfl | rfl) <;> decide
  rw [dropAllowedPrefixes_eq, dropAllowedPrefixes_eq]
  cases h with
  | unicode =>
    have hself : (flags.insert .allowUnicode).has .allowUnicode = true := rfl
    have hother : (flags.insert .allowUnicode).has .allowBytes = flags.has .allowBytes := rfl
    rw [hself, hother, hf]
    cases flags.has .allowBytes with
    | false => rfl
    | true => exact (strip_comm hdisjoint (by decide) (by decide) s).symm
  | bytes =>
    have hself : (flags.insert .allowBytes).has .allowBytes = true := rfl
    have hother : (flags.insert .allowBytes).has .allowUnicode = flags.has .allowUnicode := rfl
    rw [hself, hother, hf]
    rfl

/-- Numbers apart from literals are respelled before one more kind of prefixes is taken out. -/
theorem respelled_insert {f : Flag} {l : Letters} (h : Allows f l) (hf : flags.has f = false) (want : List Char)
    (hgot : flags.has .number = true → NumbersApart l got) :
    respelled (flags.insert f) want got = strip l .free (respelled flags want got) := by
  have hnumber : (flags.insert f).has .number = flags.has .number := by cases h <;> rfl
  unfold respelled
  rw [hnumber, dropAllowedPrefixes_insert h hf, dropAllowedPrefixes_insert h hf]
  split_ifs with hn
  · have happart : NumbersApart l (dropAllowedPrefixes flags got) :=
      dropAllowedPrefixes_keeps (fun k s hk hs => hs.strip hk h.isPrefixLetter (by decide)) flags (hgot hn)
    exact matchPrecision_strip h.isPrefixLetter _ happart
  · rfl

/-! ## One more flag -/

/-- The flags without one of them. -/
def without (flags : FlagSet) (f : Flag) : FlagSet := flags.diff (.single f)

theorem has_without (f g : Flag) : (without flags f).has g = (flags.has g && !(g == f)) := rfl

theorem without_eq {f : Flag} (hf : flags.has f = false) : without flags f = flags := by
  rw [FlagSet.ext_has]
  intro g
  rw [has_without]
  by_cases hg : g = f
  · rw [hg, hf, Bool.false_and]
  · rw [beq_false_of_ne hg, Bool.not_false, Bool.and_true]

theorem insert_of_has {f : Flag} (hf : flags.has f = true) : flags.insert f = flags := by
  rw [FlagSet.ext_has]
  intro g
  rw [FlagSet.has_insert]
  by_cases hg : g = f
  · rw [hg, hf, Bool.or_true]
  · rw [beq_false_of_ne hg, Bool.false_or]

theorem insert_without_insert {f : Flag} (hf : flags.has f = true) (g : Flag) :
    ((without flags f).insert g).insert f = flags.insert g := by
  rw [FlagSet.ext_has]
  intro e
  rw [FlagSet.has_insert, FlagSet.has_insert, FlagSet.has_insert, has_without]
  by_cases he : e = f
  · rw [he, hf, beq_self_eq_true, Bool.true_or, Bool.or_true]
  · rw [beq_false_of_ne he, Bool.not_false, Bool.and_true, Bool.false_or]

/-- A match needs a flag: without it there is none. -/
def Needs (f : Flag) (want got : List Char) (flags : FlagSet) : Prop := accepts want got (without flags f) = false

/-- **When a match is kept with one flag more.** -/
inductive MayBeAdded (want got : List Char) (flags : FlagSet) : Flag → Prop
  /-- What is set already may be added. -/
  | present {f : Flag} (h : flags.has f = true) : MayBeAdded want got flags f
  /-- Gaps may be added always. -/
  | ellipsis : MayBeAdded want got flags .ellipsis
  /-- Blanks may be reduced, unless the match needs gaps and leaves out one of several words. -/
  | normalizeWhitespace
      (h : Needs .ellipsis want got flags →
        ∃ w g, Compared want got flags w g ∧ KeepsWords (unmarked flags w) (cleared flags g)) :
      MayBeAdded want got flags .normalizeWhitespace
  /-- Prefixes of a kind may differ, unless the match needs other literals to differ, and either needs gaps and
  has one beside a literal of the kind, or respells a number in front of one. -/
  | allow {f : Flag} {l : Letters} (hf : Allows f l)
      (h : acceptsPlain want got flags = false →
        (Needs .ellipsis want got flags → NoSeam l want) ∧ (flags.has .number = true → NumbersApart l got)) :
      MayBeAdded want got flags f

theorem Compared.insert {f : Flag} (hf : f = .ellipsis ∨ f = .normalizeWhitespace) {w g : List Char}
    (h : Compared want got flags w g) : Compared want got (flags.insert f) w g := by
  cases h with
  | plain => exact .plain
  | literals hany => rcases hf with rfl | rfl <;> exact .literals hany

theorem accepts_insert_ellipsis (h : accepts want got flags = true) :
    accepts want got (flags.insert .ellipsis) = true := by
  rw [accepts_iff] at h ⊢
  obtain ⟨w, g, hcompared, h⟩ := h
  exact ⟨w, g, hcompared.insert (.inl rfl), acceptsPlain_insert_ellipsis h⟩

/-- What a flag lets through without gaps, it lets through with them. -/
theorem accepts_insert_of_without {f : Flag}
    (hf : accepts want got ((without flags .ellipsis).insert f) = true) : accepts want got (flags.insert f) = true := by
  cases hellipsis : flags.has .ellipsis with
  | true =>
    rw [← insert_without_insert hellipsis]
    exact accepts_insert_ellipsis hf
  | false => rwa [without_eq hellipsis] at hf

theorem has_ellipsis_of_needs (h : accepts want got flags = true) (hneeds : Needs .ellipsis want got flags) :
    flags.has .ellipsis = true := by
  by_contra hnone
  rw [Needs, without_eq (Bool.eq_false_iff.mpr hnone), h] at hneeds
  cases hneeds

theorem accepts_insert_normalizeWhitespace (h : accepts want got flags = true)
    (hwords : Needs .ellipsis want got flags →
      ∃ w g, Compared want got flags w g ∧ KeepsWords (unmarked flags w) (cleared flags g)) :
    accepts want got (flags.insert .normalizeWhitespace) = true := by
  cases hwithout : accepts want got (without flags .ellipsis) with
  | true =>
    refine accepts_insert_of_without ?_
    rw [accepts_iff] at hwithout ⊢
    obtain ⟨w, g, hcompared, hplain⟩ := hwithout
    refine ⟨w, g, hcompared.insert (.inr rfl), acceptsPlain_insert_normalizeWhitespace hplain fun hellipsis => ?_⟩
    simp [has_without] at hellipsis
  | false =>
    obtain ⟨w, g, hcompared, hkeeps⟩ := hwords hwithout
    rw [accepts_iff]
    exact ⟨w, g, hcompared.insert (.inr rfl),
      acceptsPlain_of_keepsWords (has_ellipsis_of_needs h hwithout) hkeeps⟩

/-- Prefixes of one kind more may differ, if no gap of the expectation and no number of the output stands beside a
literal of the kind. -/
theorem accepts_insert_allowed {f : Flag} {l : Letters} (hf : Allows f l) (h : accepts want got flags = true)
    (hseam : flags.has .ellipsis = true → NoSeam l want) (hapart : flags.has .number = true → NumbersApart l got) :
    accepts want got (flags.insert f) = true := by
  cases hhas : flags.has f with
  | true => rwa [insert_of_has hhas]
  | false =>
    have hplain (want got : List Char) : acceptsPlain want got (flags.insert f) = acceptsPlain want got flags := by
      cases hf <;> rfl
    rw [accepts_iff] at h ⊢
    obtain ⟨w, g, hcompared, h⟩ := h
    cases hcompared with
    | plain => exact ⟨want, got, .plain, (hplain want got).trans h⟩
    | literals =>
      refine ⟨_, _, .literals (by cases hf <;> simp [FlagSet.hasAny]), ?_⟩
      rw [hplain, dropAllowedPrefixes_insert hf hhas, respelled_insert hf hhas want hapart]
      refine acceptsPlain_strip hf.isPrefixLetter h fun hellipsis => ?_
      exact dropAllowedPrefixes_keeps (fun k s hk hs => hs.strip hf.isPrefixLetter hk) flags (hseam hellipsis)

/-- **A match is kept with one flag more** that may be added. -/
theorem accepts_insert {f : Flag} (h : accepts want got flags = true) (hf : MayBeAdded want got flags f) :
    accepts want got (flags.insert f) = true := by
  cases hf with
  | present hhas => rwa [insert_of_has hhas]
  | ellipsis => exact accepts_insert_ellipsis h
  | normalizeWhitespace hwords => exact accepts_insert_normalizeWhitespace h hwords
  | @allow _ l hallows hmore =>
    cases hfirst : acceptsPlain want got flags with
    | true =>
      have hplain : acceptsPlain want got (flags.insert f) = acceptsPlain want got flags := by
        cases hallows <;> rfl
      exact accepts_iff.mpr ⟨want, got, .plain, hplain.trans hfirst⟩
    | false =>
      obtain ⟨hseam, hapart⟩ := hmore hfirst
      cases hwithout : accepts want got (without flags .ellipsis) with
      | true =>
        refine accepts_insert_of_without (accepts_insert_allowed hallows hwithout ?_ ?_)
        · simp [has_without]
        · simpa [has_without] using hapart
      | false => exact accepts_insert_allowed hallows h (fun _ => hseam hwithout) hapart

/-- A gap that is a word of its own is no seam. -/
theorem accepts_insert_between_literals :
    accepts "b'a' ... u'c'\n".toList "'a' 'b' u'c'\n".toList (.ofList [.ellipsis, .allowBytes]) = true ∧
      MayBeAdded "b'a' ... u'c'\n".toList "'a' 'b' u'c'\n".toList (.ofList [.ellipsis, .allowBytes]) .allowUnicode ∧
        accepts "b'a' ... u'c'\n".toList "'a' 'b' u'c'\n".toList
          ((FlagSet.ofList [.ellipsis, .allowBytes]).insert .allowUnicode) = true := by
  have haccepts : accepts "b'a' ... u'c'\n".toList "'a' 'b' u'c'\n".toList (.ofList [.ellipsis, .allowBytes]) = true := by
    decide +kernel
  have hadded : MayBeAdded "b'a' ... u'c'\n".toList "'a' 'b' u'c'\n".toList (.ofList [.ellipsis, .allowBytes])
      .allowUnicode :=
    .allow .unicode fun _ => ⟨fun _ => noSeam_of_gap_words (by decide +kernel), nofun⟩
  exact ⟨haccepts, hadded, accepts_insert haccepts hadded⟩

/-- **Some matches are lost.** A word of gaps alone stands for nothing; a gap stands behind a letter that
becomes a prefix in the output; a gap stands in front of a quote behind which a prefix letter stands; a number
that is respelled stands in front of a literal with such a prefix. -/
theorem accepts_insert_loses :
    (accepts "a ... b\n".toList "a  b\n".toList (.single .ellipsis) = true ∧
      accepts "a ... b\n".toList "a  b\n".toList ((FlagSet.single .ellipsis).insert .normalizeWhitespace) = false) ∧
    (accepts "b'a' u...'c'\n".toList "'a' u'c'\n".toList (.ofList [.ellipsis, .allowBytes]) = true ∧
      accepts "b'a' u...'c'\n".toList "'a' u'c'\n".toList
        ((FlagSet.ofList [.ellipsis, .allowBytes]).insert .allowUnicode) = false) ∧
    (accepts "b'a' ...'u'\n".toList "'a' u'u'\n".toList (.ofList [.ellipsis, .allowBytes]) = true ∧
      accepts "b'a' ...'u'\n".toList "'a' u'u'\n".toList
        ((FlagSet.ofList [.ellipsis, .allowBytes]).insert .allowUnicode) = false) ∧
    (accepts "1.u'c'\n".toList "1.0u'c'\n".toList (.single .number) = true ∧
      accepts "1.u'c'\n".toList "1.0u'c'\n".toList ((FlagSet.single .number).insert .allowUnicode) = false) := by
  decide +kernel

end Transcript.Compare
