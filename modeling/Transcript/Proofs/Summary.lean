import Transcript.Proofs.Ledger

/-!
# Summaries

A summary lists tests in up to three sections, by how they stand, and then tells the totals and a verdict. The
lines of a list begin with blanks, which no other line does, and each kind of them ends with the name of its
test in a place that can be found from the front: no two tests have a line in common.

Results:
* `line_inj`: a line of a list is about one test only.
* `listedOnce_summary`, `unlisted_summary`: a summary with all sections lists each recorded name once, and no other
  one.
* `badVerdict_iff`: the bad verdict is told if and only if the totals tell of a failure.
-/

namespace Transcript.Ledger

/-! ## Columns -/

theorem digit_ne {n : Nat} {c d : Char} (h : c ∈ Nat.toDigits 10 n) (hd : d.isDigit = false) : c ≠ d := by
  rintro rfl
  rw [Nat.isDigit_of_mem_toDigits (by decide) (by decide) h] at hd
  cases hd

/-- A number begins with a digit. -/
theorem exists_digit (n : Nat) : ∃ d ds, Nat.toDigits 10 n = d :: ds ∧ d ≠ ' ' ∧ d ≠ '*' := by
  obtain ⟨d, ds, hdigits⟩ := List.exists_cons_of_ne_nil (Nat.toDigits_ne_nil (n := n) (b := 10))
  have hd : d ∈ Nat.toDigits 10 n := by
    rw [hdigits]
    exact List.mem_cons_self
  exact ⟨d, ds, hdigits, digit_ne hd (by decide), digit_ne hd (by decide)⟩

theorem toList_column (n : Nat) :
    (column n).toList = List.replicate (3 - (Nat.toDigits 10 n).length) ' ' ++ Nat.toDigits 10 n :=
  String.toList_ofList

/-- What follows the first word, after any blanks. -/
def afterWord (cs : List Char) : List Char := (cs.dropWhile (· == ' ')).dropWhile (· != ' ')

/-- **A number in columns** can be passed over. -/
theorem afterWord_column (n : Nat) (cs : List Char) :
    afterWord ((column n).toList ++ ' ' :: cs) = ' ' :: cs := by
  obtain ⟨d, ds, hdigits, hd, -⟩ := exists_digit n
  have hblanks : ((column n).toList ++ ' ' :: cs).dropWhile (· == ' ') = Nat.toDigits 10 n ++ ' ' :: cs := by
    rw [toList_column, List.append_assoc,
      List.dropWhile_append_of_pos fun c hc => beq_iff_eq.mpr (List.eq_of_mem_replicate hc), hdigits]
    exact List.dropWhile_cons_of_neg fun h => hd (eq_of_beq h)
  have hword : ∀ c ∈ Nat.toDigits 10 n, (c != ' ') = true :=
    fun c hc => bne_iff_ne.mpr (digit_ne hc (by decide))
  unfold afterWord
  rw [hblanks, List.dropWhile_append_of_pos hword]
  exact List.dropWhile_cons_of_neg (by decide)

theorem column_inj {n m : Nat} {cs ds : List Char}
    (h : (column n).toList ++ ' ' :: cs = (column m).toList ++ ' ' :: ds) : cs = ds := by
  have hafter := congrArg afterWord h
  rw [afterWord_column, afterWord_column] at hafter
  exact (List.cons.inj hafter).2

/-- Fewer than three blanks stand before a number. -/
theorem blanks_ne_column (n : Nat) (cs ds : List Char) :
    "   ".toList ++ cs ≠ (column n).toList ++ ds := by
  obtain ⟨d, digits, hdigits, hd, -⟩ := exists_digit n
  have hcolumn : (column n).toList = List.replicate (2 - digits.length) ' ' ++ d :: digits := by
    rw [toList_column, hdigits, List.length_cons, Nat.add_comm, Nat.sub_add_eq]
  have hdigit : ((column n).toList ++ ds)[2 - digits.length]? = some d := by
    rw [hcolumn, List.append_assoc, List.getElem?_append_right (by rw [List.length_replicate]),
      List.length_replicate, Nat.sub_self]
    rfl
  have hblank : ("   ".toList ++ cs)[2 - digits.length]? = some ' ' := by
    have hlt : 2 - digits.length < 3 := by omega
    generalize 2 - digits.length = k at hlt
    match k, hlt with
    | 0, _ => rfl
    | 1, _ => rfl
    | 2, _ => rfl
  intro h
  rw [h, hdigit] at hblank
  exact hd (Option.some.inj hblank)

/-! ## Lines of a list -/

theorem toList_line_idle (name : String) (t : Tally) :
    (line name t .idle).toList = ' ' :: ("   ".toList ++ name.toList) :=
  String.toList_append

theorem toList_line_passed (name : String) (t : Tally) : (line name t .passed).toList =
    ' ' :: ((column t.attempted).toList ++ ' ' :: ("test".toList ++ (plural t.attempted).toList ++
      " in ".toList ++ name.toList)) := by
  change (" " ++ column t.attempted ++ " test" ++ plural t.attempted ++ " in " ++ name).toList = _
  simp [String.toList_append]

theorem toList_line_failing (name : String) (t : Tally) : (line name t .failing).toList =
    ' ' :: ((column t.failed).toList ++ ' ' :: ("of ".toList ++ ((column t.attempted).toList ++ ' ' ::
      ("in ".toList ++ name.toList)))) := by
  change (" " ++ column t.failed ++ " of " ++ column t.attempted ++ " in " ++ name).toList = _
  simp [String.toList_append]

theorem plural_inj {n m : Nat} {cs ds : List Char} (h : "test".toList ++ (plural n).toList ++ " in ".toList ++ cs =
    "test".toList ++ (plural m).toList ++ " in ".toList ++ ds) : cs = ds := by
  unfold plural at h
  split at h
  · split at h
    · exact List.append_cancel_left h
    · have hat : some ' ' = some 's' := congrArg (·[4]?) h
      exact absurd hat (by decide)
  · split at h
    · have hat : some 's' = some ' ' := congrArg (·[4]?) h
      exact absurd hat (by decide)
    · exact List.append_cancel_left h

/-- **A line of a list is about one test only.** -/
theorem line_inj {name name' : String} {t t' : Tally} {s s' : Standing} (h : line name t s = line name' t' s') :
    name = name' := by
  have h : (line name t s).toList = (line name' t' s').toList := congrArg String.toList h
  cases s with
  | idle =>
    rw [toList_line_idle] at h
    cases s' with
    | idle =>
      rw [toList_line_idle] at h
      exact String.toList_inj.mp (List.append_cancel_left (List.cons.inj h).2)
    | passed =>
      rw [toList_line_passed] at h
      exact absurd (List.cons.inj h).2 (blanks_ne_column _ _ _)
    | failing =>
      rw [toList_line_failing] at h
      exact absurd (List.cons.inj h).2 (blanks_ne_column _ _ _)
  | passed =>
    rw [toList_line_passed] at h
    cases s' with
    | idle =>
      rw [toList_line_idle] at h
      exact absurd (List.cons.inj h).2.symm (blanks_ne_column _ _ _)
    | passed =>
      rw [toList_line_passed] at h
      exact String.toList_inj.mp (plural_inj (column_inj (List.cons.inj h).2))
    | failing =>
      rw [toList_line_failing] at h
      exact absurd (List.cons.inj (column_inj (List.cons.inj h).2)).1 (by decide)
  | failing =>
    rw [toList_line_failing] at h
    cases s' with
    | idle =>
      rw [toList_line_idle] at h
      exact absurd (List.cons.inj h).2.symm (blanks_ne_column _ _ _)
    | passed =>
      rw [toList_line_passed] at h
      exact absurd (List.cons.inj (column_inj (List.cons.inj h).2)).1 (by decide)
    | failing =>
      rw [toList_line_failing] at h
      have hrest := column_inj (List.append_cancel_left (column_inj (List.cons.inj h).2))
      exact String.toList_inj.mp (List.append_cancel_left hrest)

/-- **A line that lists a test,** with some counts and in some section. -/
def Lists (name text : String) : Prop := ∃ t s, text = line name t s

theorem lists_line (name : String) (t : Tally) (s : Standing) : Lists name (line name t s) := ⟨t, s, rfl⟩

theorem Lists.name_eq {name name' : String} {t : Tally} {s : Standing} (h : Lists name' (line name t s)) :
    name = name' := by
  obtain ⟨t', s', h⟩ := h
  exact line_inj h

/-- It begins with a blank. -/
theorem Lists.blank {name text : String} (h : Lists name text) : text.toList.head? = some ' ' := by
  obtain ⟨t, s, rfl⟩ := h
  cases s with
  | idle =>
    rw [toList_line_idle]
    rfl
  | passed =>
    rw [toList_line_passed]
    rfl
  | failing =>
    rw [toList_line_failing]
    rfl

/-! ## Other lines -/

/-- A line that begins with neither a blank nor an asterisk. -/
def Plain (text : String) : Prop := ∃ c cs, text.toList = c :: cs ∧ c ≠ ' ' ∧ c ≠ '*'

theorem plain_number (n : Nat) : Plain (toString n) := by
  obtain ⟨d, ds, hdigits, hd⟩ := exists_digit n
  refine ⟨d, ds, ?_, hd⟩
  rw [← hdigits]
  exact Nat.toList_repr

theorem Plain.append {text : String} (h : Plain text) (more : String) : Plain (text ++ more) := by
  obtain ⟨c, cs, htext, hc⟩ := h
  refine ⟨c, cs ++ more.toList, ?_, hc⟩
  rw [String.toList_append, htext]
  rfl

theorem plain_items (n : Nat) : Plain (items n) := ((plain_number n).append _).append _

theorem plain_heading {n : Nat} {s : Standing} {text : String} (h : text ∈ heading n s) :
    text = divider ∨ Plain text := by
  cases s with
  | idle =>
    rw [List.mem_singleton.mp h]
    exact .inr ((plain_items n).append _)
  | passed =>
    rw [List.mem_singleton.mp h]
    exact .inr ((plain_items n).append _)
  | failing =>
    rcases List.mem_cons.mp h with rfl | h
    · exact .inl rfl
    · rw [List.mem_singleton.mp h]
      exact .inr ((plain_items n).append _)

theorem plain_totalLines {l : Ledger} {text : String} (h : text ∈ l.totalLines) : Plain text := by
  unfold totalLines at h
  rcases List.mem_cons.mp h with rfl | h
  · exact (((((plain_number _).append _).append _).append _).append _).append _
  · rw [List.mem_singleton.mp h]
    split
    · exact (plain_number _).append _
    · exact (((plain_number _).append _).append _).append _

/-- The lines of a section. -/
theorem mem_listing {l : Ledger} {s : Standing} {text : String} (h : text ∈ l.listing s) :
    (text = divider ∨ Plain text) ∨
      ∃ name t, Bindings.get? l name = some t ∧ t.standing = s ∧ text = line name t s := by
  unfold listing at h
  dsimp only at h
  split at h
  · cases h
  · rcases List.mem_append.mp h with h | h
    · exact .inl (plain_heading h)
    · obtain ⟨⟨name, t⟩, he, rfl⟩ := List.mem_map.mp h
      obtain ⟨he, hs⟩ := List.mem_filter.mp he
      exact .inr ⟨name, t, Bindings.mem_entries.mp he, of_decide_eq_true hs, rfl⟩

/-! ## The verdict -/

/-- **A line that tells that a test has failed.** -/
def IsBadVerdict (text : String) : Prop := "***Test Failed***".toList <+: text.toList

instance (text : String) : Decidable (IsBadVerdict text) :=
  inferInstanceAs (Decidable ("***Test Failed***".toList <+: text.toList))

theorem IsBadVerdict.append {text : String} (h : IsBadVerdict text) (more : String) :
    IsBadVerdict (text ++ more) := by
  unfold IsBadVerdict
  rw [String.toList_append]
  exact List.prefix_append_of_prefix h

theorem Plain.not_badVerdict {text : String} (h : Plain text) : ¬ IsBadVerdict text := by
  obtain ⟨c, cs, htext, -, hc⟩ := h
  rintro ⟨rest, hrest⟩
  rw [htext] at hrest
  exact hc (List.cons.inj hrest).1.symm

theorem toList_divider : divider.toList = List.replicate 70 '*' := String.toList_ofList

theorem divider_not_badVerdict : ¬ IsBadVerdict divider := by
  rintro ⟨rest, hrest⟩
  rw [toList_divider] at hrest
  have hat : 'T' = '*' := List.eq_of_mem_replicate (hrest ▸ List.mem_append_left rest (by decide))
  exact absurd hat (by decide)

theorem Lists.not_badVerdict {name text : String} (h : Lists name text) : ¬ IsBadVerdict text := by
  rintro ⟨rest, hrest⟩
  have hblank := h.blank
  rw [← hrest] at hblank
  exact absurd (Option.some.inj hblank) (by decide)

/-- The verdict is bad if something has failed. -/
theorem mem_verdictLines {l : Ledger} {verbose : Bool} {text : String} (h : text ∈ l.verdictLines verbose) :
    (text = "Test passed." ∧ l.totals.failed = 0) ∨ (IsBadVerdict text ∧ 0 < l.totals.failed) := by
  unfold verdictLines at h
  dsimp only at h
  split at h
  · split at h
    · exact .inl ⟨List.mem_singleton.mp h, ‹_›⟩
    · cases h
  · rename_i hfailed
    refine .inr ⟨?_, UInt64.pos_iff_ne_zero.mpr hfailed⟩
    have hopening : IsBadVerdict "***Test Failed*** " := by decide
    rw [List.mem_singleton.mp h]
    exact ((((hopening.append _).append _).append _).append _).append _

/-- The parts of a summary. -/
theorem mem_summaryLines {l : Ledger} {verbose : Bool} {text : String} (h : text ∈ l.summaryLines verbose) :
    (∃ s, text ∈ l.listing s) ∨ text ∈ l.totalLines ∨ text ∈ l.verdictLines verbose := by
  unfold summaryLines at h
  rcases List.mem_append.mp h with h | h
  · rcases List.mem_append.mp h with h | h
    · rcases List.mem_append.mp h with h | h
      · split at h
        · rcases List.mem_append.mp h with h | h
          · exact .inl ⟨_, h⟩
          · exact .inl ⟨_, h⟩
        · cases h
      · exact .inl ⟨_, h⟩
    · split at h
      · exact .inr (.inl h)
      · cases h
  · exact .inr (.inr h)

/-- **The bad verdict is told** if and only if something has failed. -/
theorem badVerdict_iff (l : Ledger) (verbose : Bool) :
    (∃ text ∈ l.summaryLines verbose, IsBadVerdict text) ↔ 0 < l.totals.failed := by
  constructor
  · rintro ⟨text, htext, hbad⟩
    rcases mem_summaryLines htext with ⟨s, htext⟩ | htext | htext
    · rcases mem_listing htext with (rfl | hplain) | ⟨name, t, -, -, rfl⟩
      · exact absurd hbad divider_not_badVerdict
      · exact absurd hbad hplain.not_badVerdict
      · exact absurd hbad (lists_line name t s).not_badVerdict
    · exact absurd hbad (plain_totalLines htext).not_badVerdict
    · rcases mem_verdictLines htext with ⟨rfl, -⟩ | ⟨-, hfailed⟩
      · exact absurd hbad (by decide)
      · exact hfailed
  · intro hfailed
    have hverdict : ∃ text, text ∈ l.verdictLines verbose := by
      unfold verdictLines
      dsimp only
      rw [if_neg (UInt64.pos_iff_ne_zero.mp hfailed)]
      exact ⟨_, List.mem_singleton_self _⟩
    obtain ⟨text, htext⟩ := hverdict
    refine ⟨text, List.mem_append_right _ htext, ?_⟩
    rcases mem_verdictLines htext with ⟨-, hnone⟩ | ⟨hbad, -⟩
    · exact absurd hnone (UInt64.pos_iff_ne_zero.mp hfailed)
    · exact hbad

/-! ## Tests that are listed -/

/-- **A test is not listed** in some lines. -/
def Unlisted (name : String) (lines : List String) : Prop := ∀ text ∈ lines, ¬ Lists name text

/-- **A test is listed once** in some lines. -/
def ListedOnce (name : String) (lines : List String) : Prop :=
  ∃ before text after, lines = before ++ text :: after ∧ Lists name text ∧ Unlisted name (before ++ after)

variable {l : Ledger} {name : String} {t : Tally} {s : Standing} {lines more : List String}

theorem Plain.not_lists {text : String} (h : Plain text) : ¬ Lists name text := by
  obtain ⟨c, cs, htext, hc, -⟩ := h
  intro hlists
  have hblank := hlists.blank
  rw [htext] at hblank
  exact hc (Option.some.inj hblank)

theorem divider_not_lists : ¬ Lists name divider := by
  intro h
  have hblank := h.blank
  rw [toList_divider, List.replicate_succ, List.head?_cons] at hblank
  exact absurd (Option.some.inj hblank) (by decide)

theorem Unlisted.append (h : Unlisted name lines) (h' : Unlisted name more) : Unlisted name (lines ++ more) :=
  fun text htext => (List.mem_append.mp htext).elim (h text) (h' text)

theorem ListedOnce.append_left (h : ListedOnce name lines) (h' : Unlisted name more) :
    ListedOnce name (lines ++ more) := by
  obtain ⟨before, text, after, rfl, hlists, hothers⟩ := h
  refine ⟨before, text, after ++ more, by rw [List.append_assoc, List.cons_append], hlists, ?_⟩
  rw [← List.append_assoc]
  exact hothers.append h'

theorem ListedOnce.append_right (h : ListedOnce name lines) (h' : Unlisted name more) :
    ListedOnce name (more ++ lines) := by
  obtain ⟨before, text, after, rfl, hlists, hothers⟩ := h
  refine ⟨more ++ before, text, after, by rw [List.append_assoc], hlists, ?_⟩
  rw [List.append_assoc]
  exact h'.append hothers

/-- A section does not list tests that stand otherwise. -/
theorem unlisted_listing (h : ∀ t, Bindings.get? l name = some t → t.standing ≠ s) :
    Unlisted name (l.listing s) := by
  intro text htext
  rcases mem_listing htext with (rfl | hplain) | ⟨name', t, hget, hs, rfl⟩
  · exact divider_not_lists
  · exact hplain.not_lists
  · intro hlists
    rw [hlists.name_eq] at hget
    exact h t hget hs

/-- **A section lists each test that stands so,** once. -/
theorem listedOnce_listing (h : Bindings.get? l name = some t) : ListedOnce name (l.listing t.standing) := by
  obtain ⟨before, after, hentries⟩ := List.append_of_mem (Bindings.mem_entries.mpr h)
  have hsorted := l.sorted
  rw [hentries] at hsorted
  obtain ⟨-, hafter, hbefore⟩ := List.pairwise_append.mp hsorted
  have hothers : ∀ e ∈ before ++ after, e.1 ≠ name := by
    intro e he hname
    rcases List.mem_append.mp he with he | he
    · have hlt := hbefore e he (name, t) List.mem_cons_self
      rw [hname] at hlt
      exact String.lt_irrefl name hlt
    · have hlt := (List.pairwise_cons.mp hafter).1 e he
      rw [hname] at hlt
      exact String.lt_irrefl name hlt
  have hunlisted {es : List (String × Tally)} (hes : ∀ e ∈ es, e ∈ before ++ after) :
      Unlisted name ((es.filter fun e => e.2.standing = t.standing).map fun e => line e.1 e.2 t.standing) := by
    intro text htext hlists
    obtain ⟨e, he, rfl⟩ := List.mem_map.mp htext
    exact hothers e (hes e (List.mem_filter.mp he).1) hlists.name_eq
  have halike : (l.entries.filter fun e => e.2.standing = t.standing) =
      (before.filter fun e => e.2.standing = t.standing) ++
        (name, t) :: after.filter fun e => e.2.standing = t.standing := by
    rw [hentries, List.filter_append, List.filter_cons, if_pos (decide_eq_true rfl)]
  have hlisting : l.listing t.standing =
      if (l.entries.filter fun e => e.2.standing = t.standing).isEmpty then []
      else heading (l.entries.filter fun e => e.2.standing = t.standing).length t.standing ++
        (l.entries.filter fun e => e.2.standing = t.standing).map fun e => line e.1 e.2 t.standing := rfl
  have hsome : ¬ (l.entries.filter fun e => e.2.standing = t.standing).isEmpty = true := by
    rw [halike, List.isEmpty_iff]
    exact List.append_ne_nil_of_right_ne_nil _ (List.cons_ne_nil _ _)
  rw [hlisting, if_neg hsome, halike, List.map_append, List.map_cons]
  refine .append_right ⟨_, _, _, rfl, lists_line name t _, ?_⟩ fun text htext => ?_
  · exact (hunlisted fun e => List.mem_append_left _).append (hunlisted fun e => List.mem_append_right _)
  · rcases plain_heading htext with rfl | hplain
    · exact divider_not_lists
    · exact hplain.not_lists

theorem unlisted_totals : Unlisted name l.totalLines := fun _ htext => (plain_totalLines htext).not_lists

theorem unlisted_verdict (verbose : Bool) : Unlisted name (l.verdictLines verbose) := by
  intro text htext hlists
  rcases mem_verdictLines htext with ⟨rfl, -⟩ | ⟨hverdict, -⟩
  · exact absurd hlists.blank (by decide)
  · exact hlists.not_badVerdict hverdict

/-- **A summary with all sections lists each recorded name,** once. -/
theorem listedOnce_summary (h : Bindings.get? l name = some t) : ListedOnce name (l.summaryLines true) := by
  have hown := listedOnce_listing h
  have hother (s : Standing) (hs : t.standing ≠ s) : Unlisted name (l.listing s) := by
    refine unlisted_listing fun t' h' => ?_
    cases h.symm.trans h'
    exact hs
  have hsections : ListedOnce name (l.listing .idle ++ l.listing .passed ++ l.listing .failing) := by
    cases hs : t.standing with
    | idle =>
      rw [hs] at hown hother
      exact (hown.append_left (hother .passed nofun)).append_left (hother .failing nofun)
    | passed =>
      rw [hs] at hown hother
      exact (hown.append_right (hother .idle nofun)).append_left (hother .failing nofun)
    | failing =>
      rw [hs] at hown hother
      exact hown.append_right ((hother .idle nofun).append (hother .passed nofun))
  exact (hsections.append_left unlisted_totals).append_left (unlisted_verdict true)

/-- A summary lists no other names. -/
theorem unlisted_summary (h : Bindings.get? l name = none) (verbose : Bool) :
    Unlisted name (l.summaryLines verbose) := by
  have hlisting (s : Standing) : Unlisted name (l.listing s) := by
    refine unlisted_listing fun t h' => ?_
    rw [h] at h'
    cases h'
  intro text htext
  rcases mem_summaryLines htext with ⟨s, htext⟩ | htext | htext
  · exact hlisting s text htext
  · exact unlisted_totals text htext
  · exact unlisted_verdict verbose text htext

end Transcript.Ledger
