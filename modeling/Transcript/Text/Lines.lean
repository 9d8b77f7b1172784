import Transcript.Text.Blank

/-!
# Lines of a text

A text is cut into lines in three ways: at every line feed (`segments`, never empty), keeping the
line feed with its line (`fullLines`), and without line ends (`lines`, where a carriage return
before the line feed belongs to the line end).

Results:
* `flatten_fullLines`: the full lines put together are the text.
* `expandTabs_of_no_tab`: a text without tabs is kept.
-/

namespace Transcript.Text

/-- The parts of a text between its line feeds: one more than there are line feeds. -/
def segments (s : List Char) : List (List Char) := pieces (· == '\n') s

/-- The lines of a text with their line feeds; only the last may lack one. -/
def fullLines : List Char → List (List Char)
  | [] => []
  | c :: cs =>
    if c = '\n' then ['\n'] :: fullLines cs
    else
      match fullLines cs with
      | [] => [[c]]
      | l :: ls => (c :: l) :: ls

/-- A full line without its line end. -/
def withoutLineEnd (line : List Char) : List Char :=
  match line.reverse with
  | '\n' :: '\r' :: rest => rest.reverse
  | '\n' :: rest => rest.reverse
  | _ => line

/-- The lines of a text without their line ends. -/
def lines (s : List Char) : List (List Char) := (fullLines s).map withoutLineEnd

/-- Lines with a line feed between neighbours. -/
def joinLines (ls : List (List Char)) : List Char := joinWith ['\n'] ls

/-- How many line feeds a text has. -/
def lineFeeds (s : List Char) : Nat := s.count '\n'

theorem flatten_fullLines (s : List Char) : (fullLines s).flatten = s := by
  induction s with
  | nil => rfl
  | cons c cs ih =>
    simp only [fullLines]
    split
    · rename_i h; simp [ih, h]
    · split
      · rename_i h; rw [h] at ih; simp at ih; simp [← ih]
      · rename_i h; rw [h] at ih; simpa using ih

/-! ## Tab stops

A tab advances to the next multiple of eight columns, counted in characters.
-/

/-- Replaces tabs by blanks in a text that starts at the given column. -/
def expandTabsFrom (column : Nat) : List Char → List Char
  | [] => []
  | c :: cs =>
    if c = '\t' then
      let width := 8 - column % 8
      List.replicate width ' ' ++ expandTabsFrom (column + width) cs
    else c :: expandTabsFrom (column + 1) cs

/-- Replaces the tabs of a line by blanks. -/
def expandTabs (line : List Char) : List Char := expandTabsFrom 0 line

theorem expandTabsFrom_of_no_tab (n : Nat) (s : List Char) (h : '\t' ∉ s) :
    expandTabsFrom n s = s := by
  induction s generalizing n with
  | nil => rfl
  | cons c cs ih =>
    simp only [List.mem_cons, not_or] at h
    simp [expandTabsFrom, Ne.symm h.1, ih _ h.2]

theorem expandTabs_of_no_tab (s : List Char) (h : '\t' ∉ s) : expandTabs s = s :=
  expandTabsFrom_of_no_tab 0 s h

end Transcript.Text
