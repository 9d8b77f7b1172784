import Transcript.Proofs.Session.Prompt

/-!
# Where examples stand

An example and an error name a line of the session text. What they say about it is found there, as
far as indentation and blanks at the ends of lines go.

Results:
* `read_prompt_line`: the line of an example is its prompt with the first line of its statement.
* `read_error_line`: the line of an error is the one it complains about.
-/

namespace Transcript.Session

open Text

/-! ## Lines of the text -/

/-- The lines that are read are ends of the lines of a text without tabs. -/
theorem suffix_of_dedentedLines {text : List Char} (htab : ∀ s ∈ segments text, '\t' ∉ s) {i : Nat}
    {t : List Char} (ht : (dedentedLines text)[i]? = some t) :
    ∃ s, (segments text)[i]? = some s ∧ t <:+ s := by
  unfold dedentedLines at ht
  rw [List.getElem?_map, Option.map_eq_some_iff] at ht
  obtain ⟨expanded, hexpanded, rfl⟩ := ht
  rw [List.getElem?_map, Option.map_eq_some_iff] at hexpanded
  obtain ⟨s, hs, rfl⟩ := hexpanded
  refine ⟨s, hs, ?_⟩
  rw [expandTabs_of_no_tab s (htab s (List.mem_of_getElem? hs))]
  cases hdrop : dropBytes (commonIndent ((segments text).map expandTabs)) s with
  | none => exact List.nil_suffix
  | some t => exact dropBytes_suffix hdrop

/-- The lines of a block follow one another from its prompt on. -/
theorem getElem?_of_block {before rest : List (List Char)} {prompt t : List Char} {i : Nat}
    (h : ((blockAt prompt rest).1.sources ++ (blockAt prompt rest).1.output)[i]? = some t) :
    (before ++ prompt :: rest)[before.length + i]? = some t := by
  have hprompt : (blockAt prompt rest).1.prompt = prompt := rfl
  have hblock := blockAt_append prompt rest
  rw [List.append_assoc] at hblock
  unfold Block.sources at h
  rw [hprompt, List.cons_append] at h
  rw [List.getElem?_append_right (Nat.le_add_right _ _), Nat.add_sub_cancel_left, ← hblock,
    ← List.append_assoc, ← List.cons_append,
    List.getElem?_append_left (List.getElem?_eq_some_iff.mp h).1]
  exact h

/-! ## Prompt lines -/

/-- **A prompt line that can be read** ends with the prompt, a blank and the statement; the blank may
be missing where there is no statement. -/
theorem prompt_suffix {prompt : List Char} {indent : Nat} (hp : promptIndent? prompt = some indent)
    (hblank : charAtByte (indent + 3) prompt = none ∨
      charAtByte (indent + 3) prompt = some (some ' ')) :
    ((dropBytes (indent + 4) prompt).getD [] = [] ∧ ['>', '>', '>'] <:+ prompt) ∨
      ['>', '>', '>', ' '] ++ (dropBytes (indent + 4) prompt).getD [] <:+ prompt := by
  obtain ⟨rest, rfl⟩ := exists_of_promptIndent? hp
  rcases isBehind_of_blank ascii_prompt rfl hblank with h | ⟨hempty, h⟩
  · exact .inr ⟨List.replicate indent ' ', h.symm⟩
  · exact .inl ⟨hempty, List.replicate indent ' ', h.symm⟩

theorem head?_segments_endLine (s : List Char) : (segments (endLine s)).head? = (segments s).head? := by
  unfold endLine
  split_ifs
  · rfl
  · rw [segments_append_last, List.head?_append_of_ne_nil _ (segments_ne_nil s)]

/-- **The line of an example** is its prompt with the first line of its statement. -/
theorem read_prompt_line {text : List Char} {name : String} {es : List Example} {e : Example}
    (h : read text name = .ok es) (he : e ∈ es) :
    ∃ prompt first, (dedentedLines text)[e.line]? = some prompt ∧
      (segments e.source).head? = some first ∧
      ((first = [] ∧ ['>', '>', '>'] <:+ prompt) ∨ ['>', '>', '>', ' '] ++ first <:+ prompt) := by
  obtain ⟨before, prompt, rest, indent, hlines, hp, hblock⟩ := mem_readLines h he
  obtain ⟨hreadable, -, overrides, -, rfl⟩ := readBlock_eq_some.mp hblock
  have hfirst : prompt ∈ (blockAt prompt rest).1.sources := List.mem_cons_self
  refine ⟨prompt, (dropBytes (indent + 4) prompt).getD [], ?_, ?_,
    prompt_suffix hp (hreadable.blanks prompt hfirst)⟩
  · rw [hlines]
    change (before ++ prompt :: rest)[0 + before.length]? = some prompt
    rw [Nat.zero_add, List.getElem?_append_right (Nat.le_refl _), Nat.sub_self]
    rfl
  · have hfeed : '\n' ∉ (dropBytes (indent + 4) prompt).getD [] := by
      have hmem : prompt ∈ dedentedLines text := by
        rw [hlines]
        exact List.mem_append_right before List.mem_cons_self
      exact fun hf => feed_not_mem_of_mem_dedentedLines hmem (mem_of_mem_dropBytes hf)
    exact (head?_segments_endLine _).trans (head?_segments_joinLines hfeed _)

/-! ## Errors -/

/-- The line of the text that an error shows, if it shows one. -/
def Error.offending? : Error → Option (List Char)
  | .missingBlank _ _ _ text | .inconsistentIndent _ _ text | .brokenPrompt _ _ text => some text
  | .invalidOption .. | .optionWithoutExample .. => none

/-- **The line of an error** is the one it shows. -/
theorem read_error_line {text : List Char} {name : String} {err : Error} {offending : List Char}
    (h : read text name = .error err) (ho : err.offending? = some offending) :
    ∃ i, err.line = i + 1 ∧ (dedentedLines text)[i]? = some offending ∧ offending ≠ [] := by
  obtain ⟨before, prompt, rest, indent, hlines, -, hblock⟩ := readLines_eq_error h
  rcases readBlock_eq_error hblock with ⟨i, shown, hi, hne, herr⟩ | ⟨l, option, rfl⟩ | ⟨l, t, rfl⟩
  · have hshown : shown = offending := by
      rcases herr with ⟨prompt, rfl⟩ | rfl | rfl
      all_goals exact Option.some_inj.mp ho
    subst hshown
    refine ⟨before.length + i, ?_, ?_, hne⟩
    · rcases herr with ⟨prompt, rfl⟩ | rfl | rfl
      all_goals
        simp only [Error.line]
        omega
    · rw [hlines]
      exact getElem?_of_block hi
  · cases ho
  · cases ho

end Transcript.Session
