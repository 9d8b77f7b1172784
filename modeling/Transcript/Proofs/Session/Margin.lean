import Transcript.Proofs.Both
import Transcript.Proofs.Session.Cut
import Transcript.Proofs.Session.Typed

/-!
# Sessions behind a margin

A whole session can be moved to the right: spaces are put before each of its lines that is not blank.
The common indentation grows by the margin, so that each of these lines is read as before. Blank lines
get no margin and lose more of their columns, but what is left of them is not looked at.

Results:
* `readLines_alike`: what blank lines are made of does not show.
* `read_margined`: a margin does not show.
-/

namespace Transcript.Session

open Text

/-! ## Blank lines -/

/-- **Lines that are read alike:** they are the same, or both are blank. -/
inductive Alike : List Char → List Char → Prop
  | same (l : List Char) : Alike l l
  | blank {l m : List Char} (hl : allBlank l = true) (hm : allBlank m = true) : Alike l m

namespace Alike

variable {l m : List Char}

theorem isOutput_eq (h : Alike l m) : isOutput m = isOutput l := by
  cases h with
  | same => rfl
  | blank hl hm => rw [isOutput_of_allBlank hl, isOutput_of_allBlank hm]

theorem isContinuation_eq (h : Alike l m) : isContinuation m = isContinuation l := by
  cases h with
  | same => rfl
  | blank hl hm =>
    rw [isContinuation_of_not_isOutput (isOutput_of_allBlank hl),
      isContinuation_of_not_isOutput (isOutput_of_allBlank hm)]

theorem promptIndent?_eq (h : Alike l m) : promptIndent? m = promptIndent? l := by
  cases h with
  | same => rfl
  | blank hl hm => rw [promptIndent?_of_allBlank hl, promptIndent?_of_allBlank hm]

/-- A line that is not blank is alike to itself only. -/
theorem eq_of_not_blank (h : Alike l m) (hl : allBlank l ≠ true) : m = l := by
  cases h with
  | same => rfl
  | blank hblank => exact absurd hblank hl

end Alike

section

variable {ls ms : List (List Char)}

/-- Where a run of lines holds no blank one, it is the same on both sides. -/
theorem takeWhile_alike {p : List Char → Bool} (h : List.Forall₂ Alike ls ms)
    (hp : ∀ l m, Alike l m → p m = p l) (hblank : ∀ l, p l = true → allBlank l ≠ true) :
    ms.takeWhile p = ls.takeWhile p := by
  induction h with
  | nil => rfl
  | @cons l m _ _ hlm _ ih =>
    rw [List.takeWhile_cons, List.takeWhile_cons, hp l m hlm]
    split_ifs with hl
    · rw [hlm.eq_of_not_blank (hblank l hl), ih]
    · rfl

/-- The block at a prompt is the same on both sides, and what comes after it is alike. -/
theorem blockAt_alike (h : List.Forall₂ Alike ls ms) (prompt : List Char) :
    (blockAt prompt ms).1 = (blockAt prompt ls).1 ∧
      List.Forall₂ Alike (blockAt prompt ls).2 (blockAt prompt ms).2 := by
  have hout (l : List Char) (hl : isOutput l = true) : allBlank l ≠ true := fun hblank =>
    Bool.false_ne_true ((isOutput_of_allBlank hblank).symm.trans hl)
  have hcont (l : List Char) (hl : isContinuation l = true) : allBlank l ≠ true := fun hblank =>
    Bool.false_ne_true ((isContinuation_of_not_isOutput (isOutput_of_allBlank hblank)).symm.trans hl)
  have hrest := both_dropWhile h fun _ _ => Alike.isContinuation_eq
  unfold blockAt
  dsimp only
  rw [takeWhile_alike h (fun _ _ => Alike.isContinuation_eq) hcont,
    takeWhile_alike hrest (fun _ _ => Alike.isOutput_eq) hout]
  exact ⟨rfl, both_dropWhile hrest fun _ _ => Alike.isOutput_eq⟩

/-- **What blank lines are made of does not show.** -/
theorem readLines_alike (h : List.Forall₂ Alike ls ms) (name : String) (n : Nat) :
    readLines name n ms = readLines name n ls := by
  induction hlen : ls.length using Nat.strong_induction_on generalizing ls ms n with
  | h len ih =>
    cases h with
    | nil => rfl
    | @cons text _ rest _ htext hrest =>
      rw [readLines, readLines, htext.promptIndent?_eq]
      rw [List.length_cons] at hlen
      cases hp : promptIndent? text with
      | none => exact ih rest.length (by omega) hrest (n + 1) rfl
      | some indent =>
        have hblank : allBlank text ≠ true := fun hblank => by
          rw [promptIndent?_of_allBlank hblank] at hp
          cases hp
        obtain ⟨hblock, hafter⟩ := blockAt_alike hrest text
        have hlengths := blockAt_lengths text rest
        dsimp only
        rw [htext.eq_of_not_blank hblank, hblock, ih _ (by omega) hafter _ rfl]

end

/-! ## Margins -/

/-- A line behind a margin; a blank line gets none. -/
def marginLine (k : Nat) (l : List Char) : List Char := if allBlank l then l else indented k l

/-- **A text behind a margin** of `k` spaces. -/
def margined (k : Nat) (text : List Char) : List Char :=
  joinLines ((segments text).map (marginLine k))

theorem allBlank_marginLine (k : Nat) (l : List Char) : allBlank (marginLine k l) = allBlank l := by
  unfold marginLine
  split_ifs
  · rfl
  · exact allBlank_indented k l

theorem mem_marginLine {k : Nat} {l : List Char} {c : Char} (h : c ∈ marginLine k l) (hc : c ≠ ' ') :
    c ∈ l := by
  unfold marginLine at h
  split_ifs at h
  · exact h
  · exact mem_indented h hc

theorem segments_margined (k : Nat) (text : List Char) :
    segments (margined k text) = (segments text).map (marginLine k) := by
  refine segments_joinLines (List.map_eq_nil_iff.not.mpr (segments_ne_nil text)) fun l hl hfeed => ?_
  obtain ⟨s, hs, rfl⟩ := List.mem_map.mp hl
  exact feed_not_mem_of_mem_segments hs (mem_marginLine hfeed (by decide))

/-- **A margin is added to the common indentation,** if there is a line to bear it. -/
theorem commonIndent_margined {ls : List (List Char)} {l : List Char} (hl : l ∈ ls)
    (hb : allBlank l = false) (k : Nat) :
    commonIndent (ls.map (marginLine k)) = k + commonIndent ls := by
  have hfilter : ((ls.map (marginLine k)).filter (!allBlank ·)).map leadingSpaces =
      ((ls.filter (!allBlank ·)).map leadingSpaces).map (k + ·) := by
    rw [List.filter_map, List.map_map, List.map_map]
    have hsame : ((!allBlank ·) ∘ marginLine k) = (!allBlank ·) :=
      funext fun s => congrArg not (allBlank_marginLine k s)
    rw [hsame]
    refine List.map_congr_left fun s hs => ?_
    have hs : allBlank s = false := by simpa using (List.mem_filter.mp hs).2
    simp only [Function.comp, marginLine, hs, Bool.false_eq_true, if_false, leadingSpaces_indented]
  have hborne : leadingSpaces l ∈ (ls.filter (!allBlank ·)).map leadingSpaces :=
    List.mem_map_of_mem (List.mem_filter.mpr ⟨hl, by rw [hb]; rfl⟩)
  obtain ⟨n, hn⟩ := Option.isSome_iff_exists.mp (List.isSome_min?_of_mem hborne)
  obtain ⟨hmem, hle⟩ := List.min?_eq_some_iff.mp hn
  have hmin : (((ls.filter (!allBlank ·)).map leadingSpaces).map (k + ·)).min? = some (k + n) := by
    refine List.min?_eq_some_iff.mpr ⟨List.mem_map_of_mem hmem, fun moved hmoved => ?_⟩
    obtain ⟨m, hm, rfl⟩ := List.mem_map.mp hmoved
    exact Nat.add_le_add_left (hle m hm) k
  unfold commonIndent
  rw [hfilter, hmin, hn]
  rfl

/-- The margin is taken off with the columns that are taken off without one. -/
theorem outdented_indented_add {d : Nat} {l : List Char} (hd : d ≤ leadingSpaces l) (k : Nat) :
    outdented (k + d) (indented k l) = outdented d l := by
  have hbehind : indented k l = indented (k + leadingSpaces l) (l.dropWhile (· == ' ')) := by
    conv_lhs => rw [eq_indented l]
    unfold indented
    rw [← List.append_assoc, List.replicate_append_replicate]
  rw [hbehind, outdented_indented (Nat.add_le_add_left hd k), Nat.add_sub_add_left]
  conv_rhs => rw [eq_indented l, outdented_indented hd]

/-- The lines that are read behind a margin are alike to those that are read without one. -/
theorem dedentedLines_margined {text : List Char} (htab : '\t' ∉ text) (k : Nat) :
    List.Forall₂ Alike (dedentedLines text) (dedentedLines (margined k text)) := by
  have htabs : ∀ l ∈ segments text, '\t' ∉ l := fun l hl ht => htab (mem_of_mem_segments hl ht)
  have htabs' : ∀ l ∈ (segments text).map (marginLine k), '\t' ∉ l := by
    intro l hl ht
    obtain ⟨s, hs, rfl⟩ := List.mem_map.mp hl
    exact htabs s hs (mem_marginLine ht (by decide))
  rw [dedentedLines_eq rfl htabs, dedentedLines_eq (segments_margined k text) htabs',
    List.forall₂_map_left_iff, List.forall₂_map_right_iff, List.forall₂_map_right_iff,
    List.forall₂_same]
  intro l hl
  cases hb : allBlank l with
  | true =>
    have hm : allBlank (marginLine k l) = true := (allBlank_marginLine k l).trans hb
    exact .blank (allBlank_outdented hb) (allBlank_outdented hm)
  | false =>
    have hmargin : marginLine k l = indented k l := by rw [marginLine, hb, if_neg Bool.false_ne_true]
    rw [commonIndent_margined hl hb, hmargin, outdented_indented_add (commonIndent_le hl hb)]
    exact .same _

/-- **A margin does not show:** reading a session behind it gives the same examples or the same error. -/
theorem read_margined {text : List Char} (htab : '\t' ∉ text) (k : Nat) (name : String) :
    read (margined k text) name = read text name ∧
      cutRead (margined k text) name = cutRead text name := by
  have hread : read (margined k text) name = read text name :=
    readLines_alike (dedentedLines_margined htab k) name 0
  exact ⟨hread, by rw [cutRead_eq, cutRead_eq, hread]⟩

/-- The blank line between the examples gets no margin, so that nothing is left of it behind one; without
a margin two of its columns are left. -/
theorem read_margined_between_examples :
    '\t' ∉ "  >>> 1\n  1\n    \n   >>> 2\n  2\n".toList ∧
      margined 2 "  >>> 1\n  1\n    \n   >>> 2\n  2\n".toList =
        "    >>> 1\n    1\n    \n     >>> 2\n    2\n".toList ∧
      read "    >>> 1\n    1\n    \n     >>> 2\n    2\n".toList "t" =
        read "  >>> 1\n  1\n    \n   >>> 2\n  2\n".toList "t" ∧
      cutRead "    >>> 1\n    1\n    \n     >>> 2\n    2\n".toList "t" =
        cutRead "  >>> 1\n  1\n    \n   >>> 2\n  2\n".toList "t" := by
  have htab : '\t' ∉ "  >>> 1\n  1\n    \n   >>> 2\n  2\n".toList := by decide
  have hmargined : margined 2 "  >>> 1\n  1\n    \n   >>> 2\n  2\n".toList =
      "    >>> 1\n    1\n    \n     >>> 2\n    2\n".toList := by decide
  exact ⟨htab, hmargined, hmargined ▸ read_margined htab 2 "t"⟩

end Transcript.Session
