import Transcript.Proofs.Session.Block

/-!
# Indentation

The lines of a session may stand at any indentation, and what they have in common is taken off
before they are read. What a line is depends on what stands behind its spaces only.

Results:
* `eq_indented`: every line is an indented line that starts with no space.
* `outdented_indented`: taking off some columns of an indented line.
* `isOutput_indented`, `isContinuation_indented`: what a line is does not depend on its columns.
* `isBehind_of_blank`: what is typed behind a prompt.
* `dedentedLines_eq`: the lines that are read, for lines without tabs.
-/

namespace Transcript.Session

open Text

/-! ## Indented lines -/

/-- A line behind `k` spaces. -/
def indented (k : Nat) (l : List Char) : List Char := List.replicate k ' ' ++ l

/-- A line without its first `d` columns; nothing is left of a shorter one. -/
def outdented (d : Nat) (l : List Char) : List Char := (dropBytes d l).getD []

theorem dropWhile_indented (k : Nat) (l : List Char) :
    (indented k l).dropWhile (· == ' ') = l.dropWhile (· == ' ') := by
  unfold indented
  refine List.dropWhile_append_of_pos fun c hc => ?_
  rw [List.eq_of_mem_replicate hc]
  rfl

theorem leadingSpaces_indented (k : Nat) (l : List Char) :
    leadingSpaces (indented k l) = k + leadingSpaces l := by
  have hspaces : ∀ c ∈ List.replicate k ' ', (c == ' ') = true := by
    intro c hc
    rw [List.eq_of_mem_replicate hc]
    rfl
  unfold leadingSpaces indented
  rw [List.takeWhile_append_of_pos hspaces, List.length_append, List.length_replicate]

/-- **Every line is an indented line** that starts with no space. -/
theorem eq_indented (line : List Char) :
    line = indented (leadingSpaces line) (line.dropWhile (· == ' ')) := by
  unfold indented
  rw [← takeWhile_spaces, List.takeWhile_append_dropWhile]

theorem allBlank_indented (k : Nat) (l : List Char) : allBlank (indented k l) = allBlank l := by
  have hspaces : (List.replicate k ' ').all isBlank = true := by
    rw [List.all_eq_true]
    intro c hc
    rw [List.eq_of_mem_replicate hc]
    rfl
  unfold allBlank indented
  rw [List.all_append, hspaces, Bool.true_and]

theorem isContinuation_indented (k : Nat) (l : List Char) :
    isContinuation (indented k l) = isContinuation l := by
  unfold isContinuation
  rw [dropWhile_indented]

theorem isNone_promptIndent?_indented (k : Nat) (l : List Char) :
    (promptIndent? (indented k l)).isNone = (promptIndent? l).isNone := by
  unfold promptIndent?
  rw [dropWhile_indented]
  split_ifs
  · rfl
  · rfl

theorem isOutput_indented (k : Nat) (l : List Char) : isOutput (indented k l) = isOutput l := by
  unfold isOutput
  rw [allBlank_indented, isNone_promptIndent?_indented]

/-- A prompt line is its prompt with what follows, indented. -/
theorem exists_of_promptIndent? {line : List Char} {k : Nat} (h : promptIndent? line = some k) :
    ∃ rest, line = indented k (['>', '>', '>'] ++ rest) := by
  unfold promptIndent? at h
  split_ifs at h with hprompt
  obtain ⟨rest, hrest⟩ := List.isPrefixOf_iff_prefix.mp hprompt
  have hk : leadingSpaces line = k := Option.some_inj.mp h
  exact ⟨rest, by rw [hrest, ← hk]; exact eq_indented line⟩

theorem mem_indented {k : Nat} {l : List Char} {c : Char} (h : c ∈ indented k l) (hc : c ≠ ' ') :
    c ∈ l := by
  rcases List.mem_append.mp h with h | h
  · exact absurd (List.eq_of_mem_replicate h) hc
  · exact h

/-! ## Columns taken off -/

theorem outdented_zero (l : List Char) : outdented 0 l = l := by
  unfold outdented dropBytes
  rfl

/-- A mark behind the spaces can be taken off with them. -/
theorem outdented_append {mark : List Char} (hmark : ∀ c ∈ mark, c.utf8Size = 1) (k : Nat)
    (l : List Char) : outdented (k + mark.length) (indented k (mark ++ l)) = l := by
  have hascii : ∀ c ∈ List.replicate k ' ' ++ mark, c.utf8Size = 1 := by
    intro c hc
    rcases List.mem_append.mp hc with hc | hc
    · rw [List.eq_of_mem_replicate hc]
      rfl
    · exact hmark c hc
  have hdrop := dropBytes_append_ascii hascii l
  rw [List.length_append, List.length_replicate, List.append_assoc] at hdrop
  unfold outdented indented
  rw [hdrop]
  rfl

theorem outdented_indented {d k : Nat} (h : d ≤ k) (l : List Char) :
    outdented d (indented k l) = indented (k - d) l := by
  have hsplit : indented k l = indented d ([] ++ indented (k - d) l) := by
    unfold indented
    rw [List.nil_append, ← List.append_assoc, List.replicate_append_replicate,
      Nat.add_sub_cancel' h]
  have hempty : ∀ c ∈ ([] : List Char), c.utf8Size = 1 := by simp
  rw [hsplit]
  exact outdented_append hempty d (indented (k - d) l)

theorem allBlank_outdented {d : Nat} {l : List Char} (h : allBlank l = true) :
    allBlank (outdented d l) = true := by
  unfold allBlank at h ⊢
  rw [List.all_eq_true] at h ⊢
  exact fun c hc => h c (mem_of_mem_dropBytes hc)

theorem isOutput_of_allBlank {l : List Char} (h : allBlank l = true) : isOutput l = false := by
  unfold isOutput
  rw [h]
  rfl

/-- A line that ends an output does not go on with a statement either. -/
theorem isContinuation_of_not_isOutput {l : List Char} (h : isOutput l = false) :
    isContinuation l = false := by
  unfold isOutput at h
  unfold isContinuation
  by_contra hdots
  obtain ⟨rest, hrest⟩ := List.isPrefixOf_iff_prefix.mp (Bool.not_eq_false _ ▸ hdots)
  have hblank : allBlank l = false := by
    rw [eq_indented l, allBlank_indented, ← hrest]
    rfl
  have hprompt : promptIndent? l = none := by
    unfold promptIndent?
    rw [← hrest]
    rfl
  rw [hblank, hprompt] at h
  cases h

/-! ## Lines behind prompts -/

/-- **A line typed behind a prompt,** in column `k`. Where nothing is typed, the blank after the
prompt may be missing. -/
def IsBehind (k : Nat) (mark s line : List Char) : Prop :=
  line = indented k (mark ++ ' ' :: s) ∨ (s = [] ∧ line = indented k mark)

theorem ascii_prompt : ∀ c ∈ ['>', '>', '>'], c.utf8Size = 1 := by
  simp only [List.mem_cons, List.not_mem_nil, or_false, or_self, forall_eq]
  rfl

theorem ascii_continuation : ∀ c ∈ ['.', '.', '.'], c.utf8Size = 1 := by
  simp only [List.mem_cons, List.not_mem_nil, or_false, or_self, forall_eq]
  rfl

section Behind

variable {mark : List Char} (hmark : ∀ c ∈ mark, c.utf8Size = 1) (hlength : mark.length = 3)
include hmark hlength

theorem outdented_behind (k : Nat) (s : List Char) :
    outdented (k + 4) (indented k (mark ++ ' ' :: s)) = s := by
  have hascii : ∀ c ∈ mark ++ [' '], c.utf8Size = 1 := by
    intro c hc
    rcases List.mem_append.mp hc with hc | hc
    · exact hmark c hc
    · rw [List.mem_singleton.mp hc]
      rfl
  have hdrop := outdented_append hascii k s
  rw [List.length_append, hlength, List.append_assoc] at hdrop
  exact hdrop

theorem charAtByte_behind (k : Nat) (rest : List Char) :
    charAtByte (k + 3) (indented k (mark ++ rest)) = rest.head?.map some := by
  have hascii : ∀ c ∈ List.replicate k ' ' ++ mark, c.utf8Size = 1 := by
    intro c hc
    rcases List.mem_append.mp hc with hc | hc
    · rw [List.eq_of_mem_replicate hc]
      rfl
    · exact hmark c hc
  have hbytes : byteLength (List.replicate k ' ' ++ mark) = k + 3 := by
    rw [byteLength_of_ascii hascii, List.length_append, List.length_replicate, hlength]
  unfold indented
  rw [← hbytes, ← List.append_assoc, charAtByte_append]

/-- A line that passes the check for the blank after its prompt is typed behind the prompt. -/
theorem isBehind_of_blank {k : Nat} {rest : List Char}
    (h : charAtByte (k + 3) (indented k (mark ++ rest)) = none ∨
      charAtByte (k + 3) (indented k (mark ++ rest)) = some (some ' ')) :
    IsBehind k mark (outdented (k + 4) (indented k (mark ++ rest))) (indented k (mark ++ rest)) := by
  rw [charAtByte_behind hmark hlength] at h
  cases rest with
  | nil =>
    have hshort : byteLength (indented k (mark ++ [])) < k + 4 := by
      have hascii : ∀ c ∈ indented k (mark ++ []), c.utf8Size = 1 := by
        intro c hc
        rcases List.mem_append.mp hc with hc | hc
        · rw [List.eq_of_mem_replicate hc]
          rfl
        · exact hmark c (by simpa using hc)
      rw [byteLength_of_ascii hascii, indented, List.length_append, List.length_replicate,
        List.append_nil, hlength]
      exact Nat.lt_succ_self _
    refine .inr ⟨?_, by rw [List.append_nil]⟩
    unfold outdented
    rw [dropBytes_of_lt hshort]
    rfl
  | cons c s =>
    have hc : c = ' ' := by
      rcases h with h | h
      · cases h
      · exact Option.some_inj.mp (Option.some_inj.mp h)
    subst hc
    left
    rw [outdented_behind hmark hlength]

end Behind

/-- An expectation is made of its lines, none of which is empty. -/
theorem Block.want_eq {b : Block} {k : Nat} {outs : List (List Char)}
    (h : b.output.map (outdented k) = outs) (hne : ∀ l ∈ outs, l ≠ []) :
    b.want k = endedLines outs := by
  have hwant : b.want k =
      if (joinLines outs).isEmpty then joinLines outs else joinLines outs ++ ['\n'] := by
    rw [← h]
    rfl
  rw [hwant]
  cases outs with
  | nil => rfl
  | cons x xs =>
    have hx := hne x List.mem_cons_self
    rw [if_neg, joinLines_append_feed (List.cons_ne_nil x xs)]
    cases xs with
    | nil => simpa [joinLines, joinWith] using hx
    | cons y ys => simp [joinLines_cons_cons]

theorem ne_nil_of_isOutput {l : List Char} (h : isOutput l = true) : l ≠ [] := by
  rintro rfl
  exact absurd h (by decide)

/-! ## The common indentation -/

theorem commonIndent_le {ls : List (List Char)} {l : List Char} (hl : l ∈ ls)
    (hb : allBlank l = false) : commonIndent ls ≤ leadingSpaces l := by
  have hmem : leadingSpaces l ∈ (ls.filter (!allBlank ·)).map leadingSpaces :=
    List.mem_map_of_mem (List.mem_filter.mpr ⟨hl, by rw [hb]; rfl⟩)
  unfold commonIndent
  cases hmin : ((ls.filter (!allBlank ·)).map leadingSpaces).min? with
  | none => exact Nat.zero_le _
  | some n => exact (List.min?_eq_some_iff.mp hmin).2 _ hmem

/-- A blank line has no part in the common indentation. -/
theorem commonIndent_append_blank (ls : List (List Char)) :
    commonIndent (ls ++ [[]]) = commonIndent ls := by
  have hblank : [[]].filter (!allBlank ·) = [] := rfl
  unfold commonIndent
  rw [List.filter_append, hblank, List.append_nil]

/-- **The lines that are read** are the lines of the text without their common indentation. -/
theorem dedentedLines_eq {text : List Char} {ls : List (List Char)} (h : segments text = ls)
    (htab : ∀ l ∈ ls, '\t' ∉ l) :
    dedentedLines text = ls.map (outdented (commonIndent ls)) := by
  have hexpand : ls.map expandTabs = ls := by
    conv_rhs => rw [← List.map_id ls]
    exact List.map_congr_left fun l hl => expandTabs_of_no_tab l (htab l hl)
  unfold dedentedLines
  rw [h]
  dsimp only
  rw [hexpand]
  rfl

end Transcript.Session
