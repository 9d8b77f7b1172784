import Transcript.Compare.Check
import Transcript.Proofs.Text.Line
import Mathlib.Data.List.Forall2

/-!
# Blank lines of a comparison

A comparison takes markers out of the expectation and blanks out of the output before it looks for
equality. An output that is shown with markers for its blank lines is accepted as the expectation of the
output itself: taking the markers out again leaves the output with its blank lines cleared.

Both empty some of the lines of a text and keep the other ones. Lines neither merge nor vanish, so the texts
agree line by line.

Results:
* `markBlankLines_endedLines`: marking works line by line.
* `unmark_markBlankLines`: unmarking a marked output is clearing the output.
* `accepts_markBlankLines`: the marked output is accepted, unless markers have no meaning.
* `unmarkBlankLines_eq`, `clearBlankLines_eq`: which lines a comparison empties.
* `accepts_lines`: without other flags, an output matches line by line.
-/

namespace Transcript.Compare

open Text

/-! ## Marked outputs -/

/-- A line that stands for the empty line: a marker, with blanks behind it. -/
def isMarkerLine (line : List Char) : Bool := ((afterBegin? blankMarker line).any (·.all isMarkerBlank))

/-- A line as it is shown: a marker for a line of spaces. -/
def markedLine (line : List Char) : List Char := if line.all (· == ' ') then blankMarker else line

/-! ### Single lines -/

theorem unmarkLine_eq (line : List Char) :
    unmarkLine line = if isMarkerLine line then [] else line := by
  unfold unmarkLine isMarkerLine
  cases afterBegin? blankMarker line <;> simp

theorem markLine_append_feed (line : List Char) :
    markLine (line ++ ['\n']) = markedLine line ++ ['\n'] := by
  have h : beforeEnd? ['\n'] (line ++ ['\n']) = some line := by simp [beforeEnd?, afterBegin?]
  simp only [markLine, markedLine, h]
  split_ifs <;> rfl

theorem allBlank_of_spaces {line : List Char} (h : line.all (· == ' ') = true) :
    allBlank line = true := by
  rw [allBlank, List.all_eq_true] at *
  intro c hc
  have hs : c = ' ' := by simpa using h c hc
  rw [hs]
  decide

/-- A marker is no blank line, and a line of spaces becomes one. -/
theorem not_allBlank_markedLine {line : List Char}
    (h : allBlank line = true → line.all (· == ' ') = true) : allBlank (markedLine line) = false := by
  unfold markedLine
  split_ifs with hs
  · decide
  · rw [← Bool.not_eq_true]
    exact fun hb => hs (h hb)

/-- Unmarking a marked line clears the line. -/
theorem unmarkLine_markedLine {line : List Char}
    (hb : allBlank line = true → line.all (· == ' ') = true) (hm : isMarkerLine line = false) :
    unmarkLine (markedLine line) = clearLine line := by
  unfold markedLine clearLine
  by_cases hs : line.all (· == ' ') = true
  · rw [if_pos hs, if_pos (allBlank_of_spaces hs), blankMarker_unmarked]
  · rw [if_neg hs, if_neg fun h => hs (hb h), unmarkLine_eq, hm]
    rfl

theorem feed_not_mem_markedLine {line : List Char} (h : '\n' ∉ line) : '\n' ∉ markedLine line := by
  unfold markedLine
  split_ifs
  · decide
  · exact h

/-! ### Whole outputs -/

theorem markBlankLines_endedLines {ls : List (List Char)} (h : ∀ l ∈ ls, '\n' ∉ l) :
    markBlankLines (endedLines ls) = endedLines (ls.map markedLine) := by
  have hline : markLine ∘ (· ++ ['\n']) = (· ++ ['\n']) ∘ markedLine := by
    funext l
    exact markLine_append_feed l
  unfold markBlankLines
  rw [fullLines_endedLines h, List.map_map, hline, ← List.map_map]
  rfl

/-- What changes line by line and keeps the empty line does so on ended lines. -/
theorem joinLines_map_segments {ls : List (List Char)} (h : ∀ l ∈ ls, '\n' ∉ l)
    (f : List Char → List Char) (hf : f [] = []) :
    joinLines ((segments (endedLines ls)).map f) = endedLines (ls.map f) := by
  rw [segments_endedLines h, List.map_append, List.map_singleton, hf]
  induction ls with
  | nil => rfl
  | cons l ls ih =>
    have hne : ls.map f ++ [[]] ≠ [] := by simp
    rw [List.map_cons, List.cons_append, joinLines_cons hne,
      ih fun x hx => h x (List.mem_cons_of_mem l hx), endedLines_cons]

/-- **Unmarking a marked output is clearing the output.** -/
theorem unmark_markBlankLines {ls : List (List Char)} (h : ∀ l ∈ ls, '\n' ∉ l)
    (hb : ∀ l ∈ ls, allBlank l = true → l.all (· == ' ') = true)
    (hm : ∀ l ∈ ls, isMarkerLine l = false) :
    unmarkBlankLines (markBlankLines (endedLines ls)) = clearBlankLines (endedLines ls) := by
  have hmarked : ∀ l ∈ ls.map markedLine, '\n' ∉ l := by
    intro l hl
    obtain ⟨m, hm', rfl⟩ := List.mem_map.mp hl
    exact feed_not_mem_markedLine (h m hm')
  rw [markBlankLines_endedLines h, unmarkBlankLines, clearBlankLines,
    joinLines_map_segments hmarked unmarkLine (by decide),
    joinLines_map_segments h clearLine (by decide), List.map_map]
  congr 1
  exact List.map_congr_left fun l hl => unmarkLine_markedLine (hb l hl) (hm l hl)

/-- **A marked output is accepted** as the expectation of the output. -/
theorem accepts_markBlankLines {ls : List (List Char)} (h : ∀ l ∈ ls, '\n' ∉ l)
    (hb : ∀ l ∈ ls, allBlank l = true → l.all (· == ' ') = true)
    (hm : ∀ l ∈ ls, isMarkerLine l = false) {flags : FlagSet}
    (hflags : flags.has .dontAcceptBlankline = false) :
    accepts (markBlankLines (endedLines ls)) (endedLines ls) flags = true := by
  have hplain : acceptsPlain (markBlankLines (endedLines ls)) (endedLines ls) flags = true := by
    unfold acceptsPlain
    simp [hflags, unmark_markBlankLines h hb hm]
  simp [accepts, hplain]

/-! ## Lines that are emptied -/

/-- A line, emptied if it matches. -/
def emptied (P : List Char → Prop) [DecidablePred P] (l : List Char) : List Char := if P l then [] else l

/-- A marker of a blank line, with blanks behind it. -/
def IsMarked (m : List Char) : Prop :=
  ∃ blanks, m = blankMarker ++ blanks ∧ ∀ c ∈ blanks, c ∈ [' ', '\t', '\r', '\x0c', '\x0b']

/-- Some blanks of one line. -/
def IsBlanks (m : List Char) : Prop := m ≠ [] ∧ ∀ c ∈ m, isBlank c = true ∧ c ≠ '\n'

theorem isMarkerLine_iff {m : List Char} : isMarkerLine m = true ↔ IsMarked m := by
  have hclass (c : Char) : isMarkerBlank c = true ↔ c ∈ [' ', '\t', '\r', '\x0c', '\x0b'] := by
    simp [isMarkerBlank, or_assoc]
  simp only [isMarkerLine, Option.any_eq_true, afterBegin?_eq_some, List.all_eq_true, hclass, IsMarked]

instance : DecidablePred IsMarked := fun _ => decidable_of_iff _ isMarkerLine_iff

instance : DecidablePred IsBlanks := fun _ => inferInstanceAs (Decidable (_ ∧ _))

theorem unmarkLine_eq_emptied (l : List Char) : unmarkLine l = emptied IsMarked l := by
  rw [unmarkLine_eq]
  exact if_congr isMarkerLine_iff rfl rfl

theorem clearLine_eq_emptied {l : List Char} (h : '\n' ∉ l) : clearLine l = emptied IsBlanks l := by
  unfold emptied
  by_cases hne : l = []
  · subst hne
    split_ifs <;> rfl
  · refine if_congr ?_ rfl rfl
    rw [allBlank, List.all_eq_true]
    constructor
    · exact fun hall => ⟨hne, fun c hc => ⟨hall c hc, fun heq => h (heq ▸ hc)⟩⟩
    · exact fun hall c hc => (hall.2 c hc).1

theorem unmarkBlankLines_eq (want : List Char) :
    unmarkBlankLines want = joinLines ((segments want).map (emptied IsMarked)) :=
  congrArg joinLines (List.map_congr_left fun l _ => unmarkLine_eq_emptied l)

theorem clearBlankLines_eq (got : List Char) :
    clearBlankLines got = joinLines ((segments got).map (emptied IsBlanks)) :=
  congrArg joinLines (List.map_congr_left fun _ hl => clearLine_eq_emptied (feed_not_mem_of_mem_segments hl))

/-! ## Matches line by line -/

/-- Joined lines are equal only line by line. -/
theorem joinLines_inj {ls ms : List (List Char)} (hls : ls ≠ []) (hms : ms ≠ [])
    (hlfeed : ∀ l ∈ ls, '\n' ∉ l) (hmfeed : ∀ m ∈ ms, '\n' ∉ m) : joinLines ls = joinLines ms ↔ ls = ms := by
  constructor
  · intro h
    rw [← segments_joinLines hls hlfeed, h, segments_joinLines hms hmfeed]
  · exact fun h => h ▸ rfl

/-- What is emptied line by line is joined from lines. -/
theorem feed_not_mem_of_emptied {P : List Char → Prop} [DecidablePred P] {s : List Char} :
    ∀ l ∈ (segments s).map (emptied P), '\n' ∉ l := by
  intro l hl
  obtain ⟨line, hline, rfl⟩ := List.mem_map.mp hl
  unfold emptied
  split_ifs
  · exact List.not_mem_nil
  · exact feed_not_mem_of_mem_segments hline

/-- **Blank lines match only where they are marked.** If nothing else is allowed to differ, an output
matches if it is equal to the expectation, or if both have equally many lines and each line of the
expectation, emptied if it is a marker with blanks behind it, is the line of the output, emptied if it
is made of blanks. -/
theorem accepts_lines (want got : List Char) :
    accepts want got (.single .dontAcceptTrueForOne) = true ↔
      got = want ∨ List.Forall₂ (fun w g => emptied IsMarked w = emptied IsBlanks g) (segments want) (segments got) := by
  have hplain : accepts want got (.single .dontAcceptTrueForOne) = true ↔
      got = want ∨ clearBlankLines got = unmarkBlankLines want := by
    simp [accepts, acceptsPlain, FlagSet.hasAny]
  have hlines {P : List Char → Prop} [DecidablePred P] (s : List Char) :
      (segments s).map (emptied P) ≠ [] := by simpa using segments_ne_nil s
  have hpairs : (segments got).map (emptied IsBlanks) = (segments want).map (emptied IsMarked) ↔
      List.Forall₂ (fun w g => emptied IsMarked w = emptied IsBlanks g) (segments want) (segments got) := by
    rw [eq_comm, ← List.forall₂_eq_eq_eq, List.forall₂_map_left_iff, List.forall₂_map_right_iff]
  rw [hplain, unmarkBlankLines_eq, clearBlankLines_eq, joinLines_inj (hlines got) (hlines want) feed_not_mem_of_emptied
    feed_not_mem_of_emptied, hpairs]

end Transcript.Compare
