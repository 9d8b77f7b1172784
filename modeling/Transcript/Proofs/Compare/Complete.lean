import Transcript.Compare.Difference
import Transcript.Proofs.Compare.BlankLine

/-!
# What a complete diff tells

A complete diff shows all lines of two texts. What only the old text has stands behind `- `, what only the
new one has behind `+ `, and what both have behind two spaces. A report takes the blanks away at the ends of
the lines shown, a sign that is a space among them, and indents the lines that are not empty. Minus and plus
are no blanks, so it stays clear which text a line belongs to: both texts can be read off the report, but for
the blanks at the ends of their lines.

The script between the texts is whatever a line diff finds. All that is asked of it is that it leads from the one
to the other: it covers the lines of both in order, and what it keeps is the same in both.

Results:
* `Comparison.IsValid.beside_signed`: the lines of a text are those without the sign of the other.
* `toldLines_indent`: the lines of a report without their indentation.
* `difference_tells_both`: both texts can be read off the report.
-/

namespace Transcript.Diff

/-! ## Scripts that lead from one text to another -/

/-- What an edit keeps is the same in both texts. -/
def Edit.Agrees (c : Comparison) : Edit → Prop
  | .keep i j l => run c.old i l = run c.new j l
  | _ => True

instance (c : Comparison) : (e : Edit) → Decidable (e.Agrees c)
  | .keep i j l => inferInstanceAs (Decidable (run c.old i l = run c.new j l))
  | .remove .. | .add .. | .replace .. => .isTrue trivial

/-- **A script that leads from the old text to the new one.** -/
structure Comparison.IsValid (c : Comparison) : Prop where
  /-- It covers the old lines in order. -/
  old : oldLines c.old c.script = c.old.toList
  /-- It covers the new lines in order. -/
  new : newLines c.new c.script = c.new.toList
  /-- The lines it keeps are the same. -/
  kept : ∀ e ∈ c.script, e.Agrees c

/-! ## Lines with signs -/

/-- All lines of two texts behind their signs. -/
def Comparison.signedLines (c : Comparison) : List Line :=
  c.script.flatMap (signed c ['-', ' '] ['+', ' '] [' ', ' '])

/-- What stands behind the sign on the lines that do not have the given one. -/
def beside (sign : Char) (lines : List (List Char)) : List (List Char) :=
  (lines.filter fun l => l.head? != some sign).map (List.drop 2)

theorem beside_append (sign : Char) (a b : List (List Char)) :
    beside sign (a ++ b) = beside sign a ++ beside sign b := by
  unfold beside
  rw [List.filter_append, List.map_append]

/-- All lines of another sign are taken. -/
theorem beside_of_ne {sign s : Char} (h : s ≠ sign) (d : Char) (lines : List Line) :
    beside sign (lines.map ([s, d] ++ ·)) = lines := by
  unfold beside
  rw [List.filter_eq_self.mpr, List.map_map]
  · exact List.map_id lines
  · intro l hl
    obtain ⟨m, -, rfl⟩ := List.mem_map.mp hl
    simpa using h

/-- No line of the sign itself is taken. -/
theorem beside_self (sign d : Char) (lines : List Line) : beside sign (lines.map ([sign, d] ++ ·)) = [] := by
  unfold beside
  rw [List.filter_eq_nil_iff.mpr, List.map_nil]
  intro l hl
  obtain ⟨m, -, rfl⟩ := List.mem_map.mp hl
  simp

theorem beside_flatMap (sign : Char) (f : Edit → List Line) (s : Script) :
    beside sign (s.flatMap f) = s.flatMap fun e => beside sign (f e) := by
  induction s with
  | nil => rfl
  | cons e s ih => rw [List.flatMap_cons, List.flatMap_cons, beside_append, ih]

theorem run_zero (text : Array Line) (start : Nat) : run text start 0 = [] := by
  simp [run]

/-- Without what was added, an edit shows its old lines. -/
theorem beside_plus_signed (c : Comparison) (e : Edit) :
    beside '+' (signed c ['-', ' '] ['+', ' '] [' ', ' '] e) = run c.old e.oldStart e.oldLength := by
  cases e with
  | keep i j l => exact beside_of_ne (by decide) ' ' _
  | remove i l j => exact beside_of_ne (by decide) ' ' _
  | add i j l => exact (beside_self '+' ' ' _).trans (run_zero c.old i).symm
  | replace i l j m =>
    rw [signed, beside_append, beside_of_ne (by decide) ' ', beside_self, List.append_nil]
    rfl

/-- Without what was removed, an edit shows its new lines. -/
theorem beside_minus_signed {c : Comparison} {e : Edit} (h : e.Agrees c) :
    beside '-' (signed c ['-', ' '] ['+', ' '] [' ', ' '] e) = run c.new e.newStart e.newLength := by
  cases e with
  | keep i j l => exact (beside_of_ne (by decide) ' ' _).trans h
  | remove i l j => exact (beside_self '-' ' ' _).trans (run_zero c.new j).symm
  | add i j l => exact beside_of_ne (by decide) ' ' _
  | replace i l j m =>
    rw [signed, beside_append, beside_self, beside_of_ne (by decide) ' ', List.nil_append]
    rfl

/-- **The lines of each text** are those without the sign of the other one. -/
theorem Comparison.IsValid.beside_signed {c : Comparison} (h : c.IsValid) :
    beside '+' c.signedLines = c.old.toList ∧ beside '-' c.signedLines = c.new.toList := by
  unfold signedLines
  refine ⟨?_, ?_⟩
  · rw [beside_flatMap, ← h.old]
    exact congrArg List.flatten (List.map_congr_left fun e _ => beside_plus_signed c e)
  · rw [beside_flatMap, ← h.new]
    exact congrArg List.flatten (List.map_congr_left fun e he => beside_minus_signed (h.kept e he))

/-- Without carriage returns, lines end where they always do. -/
theorem diffLines_eq_fullLines {s : List Char} (h : '\r' ∉ s) : diffLines s = Text.fullLines s := by
  induction s with
  | nil => rfl
  | cons c cs ih =>
    obtain ⟨hc, hcs⟩ := List.ne_and_not_mem_of_not_mem_cons h
    rw [diffLines.eq_3 c cs fun _ h => absurd h.symm hc, ih hcs, Text.fullLines]
    by_cases hfeed : c = '\n'
    · simp [hfeed]
    · simp only [hfeed, Ne.symm hc, decide_false, Bool.or_self, Bool.false_eq_true, if_false]
      rfl

end Transcript.Diff

namespace Transcript.Compare

open Text Diff

/-! ## Lines of a report -/

/-- A text whose lines are all ended by line feeds, without carriage returns. -/
structure EndsLines (s : List Char) : Prop where
  /-- The last line is ended. -/
  ended : s = [] ∨ s.getLast? = some '\n'
  /-- There is no carriage return. -/
  no_return : '\r' ∉ s

/-- Lines without line ends. -/
def AreBare (ls : List (List Char)) : Prop := ∀ l ∈ ls, '\n' ∉ l ∧ '\r' ∉ l

theorem EndsLines.exists_lines {s : List Char} (h : EndsLines s) :
    ∃ ls, AreBare ls ∧ s = endedLines ls := by
  obtain ⟨ls, hfeed, rfl, -⟩ := eq_endedLines h.ended
  refine ⟨ls, fun l hl => ⟨hfeed l hl, fun hr => h.no_return ?_⟩, rfl⟩
  exact List.mem_flatten.mpr ⟨l ++ ['\n'], List.mem_map_of_mem hl, List.mem_append_left _ hr⟩

namespace AreBare

variable {ls : List (List Char)} (h : AreBare ls)
include h

theorem lines_endedLines : lines (endedLines ls) = ls :=
  Text.lines_endedLines (fun l hl => (h l hl).1) fun l hl hlast => (h l hl).2 (List.mem_of_getLast? hlast)

theorem diffLines_endedLines : diffLines (endedLines ls) = ls.map (· ++ ['\n']) := by
  rw [diffLines_eq_fullLines, fullLines_endedLines fun l hl => (h l hl).1]
  intro hr
  obtain ⟨line, hline, hr⟩ := List.mem_flatten.mp hr
  obtain ⟨l, hl, rfl⟩ := List.mem_map.mp hline
  rcases List.mem_append.mp hr with hr | hr
  · exact (h l hl).2 hr
  · exact absurd hr (by decide)

theorem markedLine : AreBare (ls.map markedLine) := by
  intro l hl
  obtain ⟨m, hm, rfl⟩ := List.mem_map.mp hl
  unfold Compare.markedLine
  split_ifs
  · decide
  · exact h m hm

/-- Lines without some of their ends have no line ends either. -/
theorem map_of_isPrefix {f : List Char → List Char} (hf : ∀ l, f l <+: l) : AreBare (ls.map f) := by
  intro l hl
  obtain ⟨m, hm, rfl⟩ := List.mem_map.mp hl
  exact ⟨fun hc => (h m hm).1 ((hf m).subset hc), fun hc => (h m hm).2 ((hf m).subset hc)⟩

end AreBare

/-- A line of a report: four spaces before it, unless it is empty. -/
def indentedLine (l : List Char) : List Char := if l.isEmpty then [] else "    ".toList ++ l

theorem indent_endedLines {ls : List (List Char)} (h : AreBare ls) :
    indent (endedLines ls) = endedLines (ls.map indentedLine) := by
  unfold indent
  rw [fullLines_endedLines fun l hl => (h l hl).1, List.flatMap_map, endedLines, List.map_map]
  refine congrArg List.flatten (List.map_congr_left fun l hl => ?_)
  cases l with
  | nil => rfl
  | cons c cs =>
    have hne : ¬ (c :: cs ++ ['\n'] == ['\n']) = true := by simp
    rw [if_neg hne]
    rfl

/-- **The lines of a report** without their indentation. -/
def toldLines (report : List Char) : List (List Char) :=
  (lines report).map fun l => (afterBegin? "    ".toList l).getD l

/-- **Taking off the indentation** of a text that has been indented gives its lines. -/
theorem toldLines_indent {ls : List (List Char)} (h : AreBare ls) : toldLines (indent (endedLines ls)) = ls := by
  have hbare : AreBare (ls.map indentedLine) := by
    intro l hl
    obtain ⟨m, hm, rfl⟩ := List.mem_map.mp hl
    unfold indentedLine
    split_ifs
    · decide
    · exact ⟨fun hc => (List.mem_append.mp hc).elim (by decide) (h m hm).1,
        fun hc => (List.mem_append.mp hc).elim (by decide) (h m hm).2⟩
  unfold toldLines
  rw [indent_endedLines h, hbare.lines_endedLines, List.map_map]
  refine (List.map_congr_left fun l _ => ?_).trans (List.map_id ls)
  cases l with
  | nil => rfl
  | cons c cs => rfl

theorem trimLines_endedLines {ls : List (List Char)} (h : AreBare ls) :
    trimLines (endedLines ls) = endedLines (ls.map trimEnd) := by
  unfold trimLines
  rw [h.lines_endedLines, List.flatMap_def, endedLines, List.map_map]
  rfl

/-! ## Lines with signs in a report -/

/-- What a report shows of a full line. -/
def shownLine (line : Line) : List Char := trimEnd line.dropLast

/-- A line behind a sign, with its line end. -/
def IsSigned (line : Line) : Prop :=
  ∃ sign body, (sign = '-' ∨ sign = '+' ∨ sign = ' ') ∧ '\n' ∉ body ∧ '\r' ∉ body ∧
    line = sign :: ' ' :: (body ++ ['\n'])

theorem trimEnd_cons (c : Char) (s : List Char) :
    trimEnd (c :: s) = if trimEnd s = [] ∧ isBlank c = true then [] else c :: trimEnd s := by
  unfold trimEnd
  rw [dropEndWhile]
  cases dropEndWhile isBlank s with
  | nil => by_cases hc : isBlank c = true <;> simp [hc]
  | cons d ds => simp

theorem dropLast_signed (sign : Char) (body : List Char) :
    (sign :: ' ' :: (body ++ ['\n'])).dropLast = sign :: ' ' :: body := by
  rw [← List.cons_append, ← List.cons_append, List.dropLast_concat]

/-- A sign stays unless it is a space and nothing stands behind it. -/
theorem shownLine_signed (sign : Char) (body : List Char) :
    shownLine (sign :: ' ' :: (body ++ ['\n'])) =
      if trimEnd body = [] then if isBlank sign = true then [] else [sign]
      else sign :: ' ' :: trimEnd body := by
  have hspace : isBlank ' ' = true := by decide
  unfold shownLine
  rw [dropLast_signed, trimEnd_cons, trimEnd_cons]
  by_cases hbody : trimEnd body = []
  · simp [hbody, hspace]
  · simp [hbody]

namespace IsSigned

variable {line : Line} (h : IsSigned line)
include h

/-- **Trimming takes no sign away** but the space. -/
theorem head?_shownLine {sign : Char} (hsign : isBlank sign = false) :
    (shownLine line).head? = some sign ↔ line.head? = some sign := by
  obtain ⟨s, body, -, -, -, rfl⟩ := h
  rw [shownLine_signed]
  split_ifs with hbody hs
  · refine iff_of_false (by simp) fun heq => ?_
    cases heq
    rw [hsign] at hs
    cases hs
  · rfl
  · rfl

/-- What stands behind the sign is trimmed as it would be without it. -/
theorem drop_shownLine : (shownLine line).drop 2 = shownLine (line.drop 2) := by
  obtain ⟨s, body, -, -, -, rfl⟩ := h
  have hbehind : shownLine ((s :: ' ' :: (body ++ ['\n'])).drop 2) = trimEnd body := by
    unfold shownLine
    rw [List.drop_succ_cons, List.drop_succ_cons, List.drop_zero, List.dropLast_concat]
  rw [hbehind, shownLine_signed]
  split_ifs with hbody hs
  · exact hbody.symm
  · exact hbody.symm
  · rfl

/-- A report shows a sign, a space and a text, without the blanks at the end. -/
theorem exists_shownLine : ∃ sign body, (sign = '-' ∨ sign = '+' ∨ sign = ' ') ∧
    shownLine line = trimEnd (sign :: ' ' :: body) := by
  obtain ⟨sign, body, hsign, -, -, rfl⟩ := h
  exact ⟨sign, body, hsign, congrArg trimEnd (dropLast_signed sign body)⟩

end IsSigned

/-- A report shows beside a sign what stands there, without blanks at the ends. -/
theorem beside_map_shownLine {shown : List Line} (h : ∀ line ∈ shown, IsSigned line) {sign : Char}
    (hsign : isBlank sign = false) : beside sign (shown.map shownLine) = (beside sign shown).map shownLine := by
  have hfilter : (shown.filter fun line => (shownLine line).head? != some sign) =
      shown.filter fun line => line.head? != some sign := by
    refine List.filter_congr fun line hline => ?_
    rw [Bool.eq_iff_iff, bne_iff_ne, bne_iff_ne, ne_eq, ne_eq, (h line hline).head?_shownLine hsign]
  unfold beside
  rw [List.filter_map, List.map_map, List.map_map]
  refine (congrArg _ hfilter).trans (List.map_congr_left fun line hline => ?_)
  exact (h line (List.mem_of_mem_filter hline)).drop_shownLine

/-- The text of lines behind signs. -/
theorem exists_bare_of_isSigned {shown : List Line} (h : ∀ line ∈ shown, IsSigned line) :
    AreBare (shown.map List.dropLast) ∧ shown.flatten = endedLines (shown.map List.dropLast) := by
  refine ⟨fun l hl => ?_, ?_⟩
  · obtain ⟨line, hline, rfl⟩ := List.mem_map.mp hl
    obtain ⟨sign, body, hsign, hfeed, hreturn, rfl⟩ := h line hline
    rw [dropLast_signed]
    rcases hsign with rfl | rfl | rfl <;> simp [hfeed, hreturn]
  · rw [endedLines, List.map_map]
    refine congrArg List.flatten ((List.map_id shown).symm.trans (List.map_congr_left fun line hline => ?_))
    obtain ⟨sign, body, -, -, -, rfl⟩ := h line hline
    exact (List.dropLast_append_getLast (List.cons_ne_nil _ _)).symm.trans (by simp)

/-! ## Reports of complete diffs -/

/-- The lines of a run are lines of the text. -/
theorem mem_of_mem_run {text : Array Line} {start length : Nat} {line : Line} (h : line ∈ run text start length) :
    line ∈ text.toList := by
  unfold run at h
  rw [Array.toList_extract] at h
  exact List.mem_of_mem_drop (List.mem_of_mem_take h)

theorem isSigned_of_mem_signed {c : Comparison} {os ns : List (List Char)} (hos : AreBare os) (hns : AreBare ns)
    (hold : c.old.toList = os.map (· ++ ['\n'])) (hnew : c.new.toList = ns.map (· ++ ['\n'])) :
    ∀ line ∈ c.signedLines, IsSigned line := by
  have hrun {text : Array Line} {ls : List (List Char)} (hls : AreBare ls)
      (htext : text.toList = ls.map (· ++ ['\n'])) {sign : Char} (hsign : sign = '-' ∨ sign = '+' ∨ sign = ' ')
      (start length : Nat) : ∀ line ∈ (run text start length).map ([sign, ' '] ++ ·), IsSigned line := by
    intro line hline
    obtain ⟨m, hm, rfl⟩ := List.mem_map.mp hline
    have hm := mem_of_mem_run hm
    rw [htext] at hm
    obtain ⟨body, hbody, rfl⟩ := List.mem_map.mp hm
    exact ⟨sign, body, hsign, (hls body hbody).1, (hls body hbody).2, rfl⟩
  intro line hline
  obtain ⟨e, -, he⟩ := List.mem_flatMap.mp hline
  cases e with
  | keep i j l => exact hrun hos hold (.inr (.inr rfl)) i l line he
  | remove i l j => exact hrun hos hold (.inl rfl) i l line he
  | add i j l => exact hrun hns hnew (.inr (.inl rfl)) j l line he
  | replace i l j m =>
    rcases List.mem_append.mp he with he | he
    · exact hrun hos hold (.inl rfl) i l line he
    · exact hrun hns hnew (.inr (.inl rfl)) j m line he

/-- A report of a complete diff shows the lines behind their signs. -/
theorem toldLines_complete {c : Comparison} (h : ∀ line ∈ c.signedLines, IsSigned line) :
    toldLines (indent (trimLines (complete c))) = c.signedLines.map shownLine := by
  obtain ⟨hbare, htext⟩ := exists_bare_of_isSigned h
  have hcomplete : complete c = endedLines (c.signedLines.map List.dropLast) := htext
  rw [hcomplete, trimLines_endedLines hbare, toldLines_indent (hbare.map_of_isPrefix trimEnd_isPrefix), List.map_map]
  rfl

theorem map_shownLine_ended (ls : List (List Char)) : (ls.map (· ++ ['\n'])).map shownLine = ls.map trimEnd := by
  rw [List.map_map]
  exact List.map_congr_left fun l _ => congrArg trimEnd List.dropLast_concat

/-- An output as a report shows it: with markers for blank lines, unless they have no meaning. -/
def shownOutput (got : List Char) (flags : FlagSet) : List Char :=
  if flags.has .dontAcceptBlankline then got else markBlankLines got

theorem exists_lines_shownOutput {got : List Char} (h : EndsLines got) (flags : FlagSet) :
    ∃ ls, AreBare ls ∧ shownOutput got flags = endedLines ls := by
  obtain ⟨ls, hls, rfl⟩ := h.exists_lines
  unfold shownOutput
  split_ifs
  · exact ⟨ls, hls, rfl⟩
  · exact ⟨_, hls.markedLine, markBlankLines_endedLines fun l hl => (hls l hl).1⟩

/-- What a report says before a complete diff. -/
def completeHeading : List Char := "Differences (ndiff with -expected +actual):\n".toList

theorem differenceBy_complete (diff : LineDiff) {want got : List Char} {flags : FlagSet}
    (hcomplete : flags.has .reportNdiff = true) (hunified : flags.has .reportUdiff = false)
    (hcontext : flags.has .reportCdiff = false) :
    differenceBy diff want got flags =
      completeHeading ++ indent (trimLines (complete (Comparison.ofTexts diff want (shownOutput got flags)))) := by
  have hdiff : diffOf? diff want (shownOutput got flags) flags = some ("ndiff with -expected +actual",
      complete (Comparison.ofTexts diff want (shownOutput got flags))) := by
    simp [diffOf?, FlagSet.hasAny, hcomplete, hunified, hcontext]
  unfold shownOutput at hdiff ⊢
  unfold differenceBy
  simp only [hdiff]
  rfl

/-- **A complete diff tells the whole story,** whatever line diff has found it, if only its script leads from the
one text to the other. Each line of the report has a minus, a plus or no sign. Without their signs, the lines that
are not behind a plus are those of the expectation, and the lines that are not behind a minus are those of the
output as it is shown, but for the blanks at their ends. -/
theorem difference_tells_both (diff : LineDiff) {want got : List Char} {flags : FlagSet} (hwant : EndsLines want)
    (hgot : EndsLines got) (hcomplete : flags.has .reportNdiff = true)
    (hunified : flags.has .reportUdiff = false) (hcontext : flags.has .reportCdiff = false)
    (hvalid : (Comparison.ofTexts diff want (shownOutput got flags)).IsValid) :
    ∃ report, differenceBy diff want got flags = completeHeading ++ report ∧
      (∀ l ∈ toldLines report, ∃ sign body, (sign = '-' ∨ sign = '+' ∨ sign = ' ') ∧
        l = trimEnd (sign :: ' ' :: body)) ∧
      beside '+' (toldLines report) = (lines want).map trimEnd ∧
      beside '-' (toldLines report) = (lines (shownOutput got flags)).map trimEnd := by
  obtain ⟨os, hos, rfl⟩ := hwant.exists_lines
  obtain ⟨ns, hns, hshown⟩ := exists_lines_shownOutput hgot flags
  refine ⟨_, differenceBy_complete diff hcomplete hunified hcontext, ?_⟩
  rw [hshown] at hvalid ⊢
  have hold : (Comparison.ofTexts diff (endedLines os) (endedLines ns)).old.toList = os.map (· ++ ['\n']) :=
    hos.diffLines_endedLines
  have hnew : (Comparison.ofTexts diff (endedLines os) (endedLines ns)).new.toList = ns.map (· ++ ['\n']) :=
    hns.diffLines_endedLines
  have hsigned := isSigned_of_mem_signed hos hns hold hnew
  obtain ⟨hplus, hminus⟩ := hvalid.beside_signed
  rw [toldLines_complete hsigned, beside_map_shownLine hsigned (by decide), beside_map_shownLine hsigned (by decide),
    hplus, hminus, hold, hnew, map_shownLine_ended, map_shownLine_ended, hos.lines_endedLines, hns.lines_endedLines]
  refine ⟨fun l hl => ?_, rfl, rfl⟩
  obtain ⟨line, hline, rfl⟩ := List.mem_map.mp hl
  exact (hsigned line hline).exists_shownLine

/-- A blank line, a line of spaces, and lines that begin with signs, compared as failures do. -/
theorem difference_tells_both_signs :
    let want := "a\n\n- b\n c\n".toList
    let got := "a\n  \n+ b\n c \n".toList
    let flags := FlagSet.single .reportNdiff
    EndsLines want ∧ EndsLines got ∧
      (Comparison.ofTexts compactShortest want (shownOutput got flags)).IsValid ∧
      ∃ report, difference want got flags = completeHeading ++ report ∧
        (∀ l ∈ toldLines report, ∃ sign body, (sign = '-' ∨ sign = '+' ∨ sign = ' ') ∧
          l = trimEnd (sign :: ' ' :: body)) ∧
        beside '+' (toldLines report) = (lines want).map trimEnd ∧
        beside '-' (toldLines report) = (lines (shownOutput got flags)).map trimEnd := by
  intro want got flags
  have hwant : EndsLines want := ⟨.inr (by decide), by decide⟩
  have hgot : EndsLines got := ⟨.inr (by decide), by decide⟩
  have hvalid : (Comparison.ofTexts compactShortest want (shownOutput got flags)).IsValid :=
    ⟨by decide +kernel, by decide +kernel, by decide +kernel⟩
  exact ⟨hwant, hgot, hvalid, difference_tells_both compactShortest hwant hgot rfl rfl rfl hvalid⟩

end Transcript.Compare
