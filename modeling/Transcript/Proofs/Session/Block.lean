import Transcript.Session.Grammar
import Transcript.Proofs.Except
import Transcript.Proofs.Text.Line
import Mathlib.Data.List.TakeWhile

/-!
# The blocks of a session

Each example that is read comes from a block: a prompt line, the continuation lines after it and
its output. Reading fails at a block, too, and names one of its lines.

Results:
* `mem_readLines`, `readLines_eq_error`: examples and errors come from blocks.
* `readBlock_eq_some`: what is known of an example that a block gives.
* `readBlock_eq_error`: which line an error of a block names.
-/

namespace Transcript.Session

open Text

/-! ## From lines to blocks -/

theorem blockAt_append (prompt : List Char) (lines : List (List Char)) :
    (blockAt prompt lines).1.more ++ (blockAt prompt lines).1.output ++ (blockAt prompt lines).2 =
      lines := by
  simp only [blockAt]
  rw [List.append_assoc, List.takeWhile_append_dropWhile, List.takeWhile_append_dropWhile]

/-- What stands in the lines after a block, as a place in all lines from the block's prompt on. -/
theorem eq_of_after_block {prompt : List Char} {lines before after : List (List Char)}
    (h : (blockAt prompt lines).2 = before ++ after) :
    ∃ skipped, prompt :: lines = skipped ++ after ∧ ∀ n, n + skipped.length =
      n + 1 + (blockAt prompt lines).1.more.length + (blockAt prompt lines).1.output.length +
        before.length := by
  refine ⟨prompt :: ((blockAt prompt lines).1.more ++ (blockAt prompt lines).1.output ++ before),
    ?_, fun n => ?_⟩
  · rw [List.cons_append, List.append_assoc _ before, ← h, blockAt_append]
  · simp only [List.length_cons, List.length_append]
    omega

/-- **An example comes from a block** of the lines. -/
theorem mem_readLines {name : String} {line : Nat} {lines : List (List Char)}
    {es : List Example} {e : Example} (h : readLines name line lines = .ok es) (he : e ∈ es) :
    ∃ before prompt rest indent, lines = before ++ prompt :: rest ∧
      promptIndent? prompt = some indent ∧
      readBlock name (blockAt prompt rest).1 (line + before.length) indent = .ok (some e) := by
  fun_induction readLines name line lines generalizing es with
  | case1 line =>
    cases h
    exact absurd he (by simp)
  | case2 line text rest hp ih =>
    obtain ⟨before, prompt, more, indent, rfl, hprompt, hblock⟩ := ih h he
    refine ⟨text :: before, prompt, more, indent, rfl, hprompt, ?_⟩
    rw [List.length_cons, Nat.add_comm before.length, ← Nat.add_assoc]
    exact hblock
  | case3 => cases h
  | case4 => cases h
  | case5 =>
    rename_i line text rest indent hp block after found hfound examples hexamples ih
    cases h
    rcases List.mem_append.mp he with he | he
    · refine ⟨[], text, rest, indent, rfl, hp, ?_⟩
      rw [Option.mem_toList] at he
      rw [List.length_nil, Nat.add_zero, ← Option.mem_def.mp he]
      exact hfound
    · obtain ⟨before, prompt, more, i, hafter, hprompt, hblock⟩ := ih hexamples he
      obtain ⟨skipped, hlines, hlen⟩ := eq_of_after_block hafter
      refine ⟨skipped, prompt, more, i, hlines, hprompt, ?_⟩
      rw [hlen]
      exact hblock

/-- **An error comes from a block** of the lines. -/
theorem readLines_eq_error {name : String} {line : Nat} {lines : List (List Char)} {err : Error}
    (h : readLines name line lines = .error err) :
    ∃ before prompt rest indent, lines = before ++ prompt :: rest ∧
      promptIndent? prompt = some indent ∧
      readBlock name (blockAt prompt rest).1 (line + before.length) indent = .error err := by
  fun_induction readLines name line lines with
  | case1 line => cases h
  | case2 line text rest hp ih =>
    obtain ⟨before, prompt, more, indent, rfl, hprompt, hblock⟩ := ih h
    refine ⟨text :: before, prompt, more, indent, rfl, hprompt, ?_⟩
    rw [List.length_cons, Nat.add_comm before.length, ← Nat.add_assoc]
    exact hblock
  | case3 =>
    rename_i line text rest indent hp block e he
    cases h
    exact ⟨[], text, rest, indent, rfl, hp, he⟩
  | case4 =>
    rename_i line text rest indent hp block after found hfound e he ih
    cases h
    obtain ⟨before, prompt, more, i, hafter, hprompt, hblock⟩ := ih he
    obtain ⟨skipped, hlines, hlen⟩ := eq_of_after_block hafter
    refine ⟨skipped, prompt, more, i, hlines, hprompt, ?_⟩
    rw [hlen]
    exact hblock
  | case5 => cases h

/-! ## Prompts -/

theorem takeWhile_spaces (line : List Char) :
    line.takeWhile (· == ' ') = List.replicate (leadingSpaces line) ' ' := by
  rw [List.eq_replicate_iff]
  refine ⟨rfl, fun c hc => ?_⟩
  simpa using List.mem_takeWhile_imp hc

/-! ## Checks -/

theorem checkBlanks_eq_ok {name : String} {indent line : Nat} {texts : List (List Char)} :
    checkBlanks name indent line texts = .ok () ↔
      ∀ t ∈ texts, charAtByte (indent + 3) t = none ∨ charAtByte (indent + 3) t = some (some ' ') := by
  induction texts generalizing line with
  | nil => simp [checkBlanks]
  | cons text rest ih =>
    rw [List.forall_mem_cons, checkBlanks]
    cases hc : charAtByte (indent + 3) text with
    | none => simpa using ih
    | some c =>
      by_cases hs : c = some ' '
      · simpa [hs] using ih
      · simp only [hs, if_false]
        constructor
        · intro h
          split at h <;> cases h
        · rintro ⟨h, -⟩
          simp [hs] at h

/-- A line without a blank behind its prompt is named by its number. -/
theorem checkBlanks_eq_error {name : String} {indent line : Nat} {texts : List (List Char)}
    {err : Error} (h : checkBlanks name indent line texts = .error err) :
    ∃ (i : Nat) (text : List Char), texts[i]? = some text ∧ text ≠ [] ∧
      ((∃ prompt, err = .missingBlank (line + i) name prompt text) ∨
        err = .brokenPrompt (line + i) name text) := by
  induction texts generalizing line with
  | nil => cases h
  | cons text rest ih =>
    have later : checkBlanks name indent (line + 1) rest = .error err →
        ∃ (i : Nat) (t : List Char), (text :: rest)[i]? = some t ∧ t ≠ [] ∧
          ((∃ prompt, err = .missingBlank (line + i) name prompt t) ∨
            err = .brokenPrompt (line + i) name t) := by
      intro hrest
      obtain ⟨i, t, ht, hne, herr⟩ := ih hrest
      refine ⟨i + 1, t, by simpa using ht, hne, ?_⟩
      rw [Nat.add_comm i, ← Nat.add_assoc]
      exact herr
    rw [checkBlanks] at h
    split at h
    · exact later h
    · rename_i c hc
      have hne : text ≠ [] := by
        rintro rfl
        cases hc
      split_ifs at h with hs
      · exact later h
      · split at h
        · cases h
          exact ⟨0, text, rfl, hne, .inl ⟨_, rfl⟩⟩
        · cases h
          exact ⟨0, text, rfl, hne, .inr rfl⟩

theorem checkBeginnings_eq_ok {name : String} {beginning : List Char} {line : Nat}
    {texts : List (List Char)} :
    checkBeginnings name beginning line texts = .ok () ↔
      ∀ t ∈ texts, t = [] ∨ beginning <+: t := by
  induction texts generalizing line with
  | nil => simp [checkBeginnings]
  | cons text rest ih =>
    rw [List.forall_mem_cons, checkBeginnings, ← List.isPrefixOf_iff_prefix]
    by_cases h : text = [] ∨ beginning.isPrefixOf text = true
    · have hgood : (!text.isEmpty && !beginning.isPrefixOf text) = false := by
        rcases h with h | h <;> simp [h]
      rw [if_neg (by simp [hgood]), ih]
      exact (and_iff_right h).symm
    · rw [not_or] at h
      have hbad : (!text.isEmpty && !beginning.isPrefixOf text) = true := by simp [h.1, h.2]
      rw [if_pos hbad]
      constructor
      · intro hok
        cases hok
      · rintro ⟨h' | h', -⟩
        · exact absurd h' h.1
        · exact absurd h' h.2

/-- A line that starts left of its prompt is named by its number. -/
theorem checkBeginnings_eq_error {name : String} {beginning : List Char} {line : Nat}
    {texts : List (List Char)} {err : Error}
    (h : checkBeginnings name beginning line texts = .error err) :
    ∃ (i : Nat) (text : List Char), texts[i]? = some text ∧ text ≠ [] ∧
      err = .inconsistentIndent (line + i) name text := by
  induction texts generalizing line with
  | nil => cases h
  | cons text rest ih =>
    rw [checkBeginnings] at h
    split_ifs at h with hbad
    · cases h
      have hne : text ≠ [] := by
        rintro rfl
        cases hbad
      exact ⟨0, text, rfl, hne, rfl⟩
    · obtain ⟨i, t, ht, hne, herr⟩ := ih h
      refine ⟨i + 1, t, by simpa using ht, hne, ?_⟩
      rw [Nat.add_comm i, ← Nat.add_assoc]
      exact herr

/-! ## Reading a block -/

theorem readOptions_eq_error {source : List Char} {line : Nat} {name : String} {err : Error}
    (h : readOptions source line name = .error err) :
    (∃ l option, err = .invalidOption l name option) ∨
      ∃ l text, err = .optionWithoutExample l name text := by
  unfold readOptions at h
  rcases Except.bind_eq_error.mp h with h | ⟨o, -, h⟩
  · refine .inl ?_
    generalize Overrides.empty = o₀ at h
    generalize optionComments source = comments at h
    induction comments generalizing o₀ with
    | nil => cases h
    | cons c cs ih =>
      rw [List.foldlM_cons] at h
      rcases Except.bind_eq_error.mp h with h | ⟨o, -, h⟩
      · dsimp only at h
        split at h
        · cases h
        · cases h
          exact ⟨_, _, rfl⟩
      · exact ih o h
  · split_ifs at h
    · cases h
      exact .inr ⟨_, _, rfl⟩

namespace Block

/-- The lines of the statement, with their prompts. -/
def sources (b : Block) : List (List Char) := b.prompt :: b.more

/-- The statement of a block. -/
def source (b : Block) (indent : Nat) : List Char :=
  joinLines (b.sources.map fun text => (dropBytes (indent + 4) text).getD [])

/-- The expected output of a block. -/
def want (b : Block) (indent : Nat) : List Char :=
  let joined := joinLines (b.output.map fun text => (dropBytes indent text).getD [])
  if joined.isEmpty then joined else joined ++ ['\n']

/-- **A block whose lines can be read:** prompts are followed by blanks, and no line starts left of
the prompt. -/
structure Readable (b : Block) (indent : Nat) : Prop where
  /-- A blank follows each prompt, unless it ends its line. -/
  blanks : ∀ t ∈ b.sources,
    charAtByte (indent + 3) t = none ∨ charAtByte (indent + 3) t = some (some ' ')
  /-- Continuation prompts stand in the column of the prompt. -/
  more : ∀ t ∈ b.more, t = [] ∨ List.replicate indent ' ' ++ ['.'] <+: t
  /-- Output stands in or behind the column of the prompt. -/
  output : ∀ t ∈ b.output, t = [] ∨ List.replicate indent ' ' <+: t

end Block

theorem readBlock_eq (name : String) (b : Block) (line indent : Nat) :
    readBlock name b line indent = (do
      checkBlanks name indent (line + 1) b.sources
      checkBeginnings name (List.replicate indent ' ' ++ ['.']) (line + 2) b.more
      checkBeginnings name (List.replicate indent ' ') (line + b.sources.length + 1) b.output
      let overrides ← readOptions (b.source indent) line name
      if isBlankOrComment (b.source indent) then return none
      return some (.make (b.source indent) (b.want indent) (documentedMessage? (b.want indent)) line
        indent overrides)) := rfl

/-- **What is known of an example that a block gives.** -/
theorem readBlock_eq_some {name : String} {b : Block} {line indent : Nat} {e : Example} :
    readBlock name b line indent = .ok (some e) ↔
      b.Readable indent ∧ isBlankOrComment (b.source indent) = false ∧
        ∃ overrides, readOptions (b.source indent) line name = .ok overrides ∧
          e = .make (b.source indent) (b.want indent) (documentedMessage? (b.want indent)) line
            indent overrides := by
  rw [readBlock_eq]
  constructor
  · intro h
    obtain ⟨⟨⟩, hblanks, h⟩ := Except.bind_eq_ok.mp h
    obtain ⟨⟨⟩, hmore, h⟩ := Except.bind_eq_ok.mp h
    obtain ⟨⟨⟩, houtput, h⟩ := Except.bind_eq_ok.mp h
    obtain ⟨overrides, hoptions, h⟩ := Except.bind_eq_ok.mp h
    split_ifs at h with hc
    · cases h
    · cases h
      refine ⟨⟨checkBlanks_eq_ok.mp hblanks, checkBeginnings_eq_ok.mp hmore,
        checkBeginnings_eq_ok.mp houtput⟩, by simpa using hc, overrides, hoptions, rfl⟩
  · rintro ⟨hr, hc, overrides, hoptions, rfl⟩
    rw [checkBlanks_eq_ok.mpr hr.blanks, checkBeginnings_eq_ok.mpr hr.more,
      checkBeginnings_eq_ok.mpr hr.output, hoptions, hc]
    rfl

/-- A block that gives no example has a statement that is blank or a comment. -/
theorem readBlock_eq_none {name : String} {b : Block} {line indent : Nat}
    (h : readBlock name b line indent = .ok none) : isBlankOrComment (b.source indent) = true := by
  rw [readBlock_eq] at h
  obtain ⟨⟨⟩, -, h⟩ := Except.bind_eq_ok.mp h
  obtain ⟨⟨⟩, -, h⟩ := Except.bind_eq_ok.mp h
  obtain ⟨⟨⟩, -, h⟩ := Except.bind_eq_ok.mp h
  obtain ⟨overrides, -, h⟩ := Except.bind_eq_ok.mp h
  split_ifs at h with hc
  · exact hc
  · cases h

/-- **Which line an error of a block names:** a line of the block. -/
theorem readBlock_eq_error {name : String} {b : Block} {line indent : Nat} {err : Error}
    (h : readBlock name b line indent = .error err) :
    (∃ (i : Nat) (text : List Char), (b.sources ++ b.output)[i]? = some text ∧ text ≠ [] ∧
      ((∃ prompt, err = .missingBlank (line + 1 + i) name prompt text) ∨
        err = .brokenPrompt (line + 1 + i) name text ∨
        err = .inconsistentIndent (line + 1 + i) name text)) ∨
      (∃ l option, err = .invalidOption l name option) ∨
      ∃ l text, err = .optionWithoutExample l name text := by
  have left_of {i : Nat} {text : List Char} (ht : b.sources[i]? = some text) :
      (b.sources ++ b.output)[i]? = some text := by
    rw [List.getElem?_append_left (List.getElem?_eq_some_iff.mp ht).1]
    exact ht
  rw [readBlock_eq] at h
  rcases Except.bind_eq_error.mp h with h | ⟨⟨⟩, -, h⟩
  · obtain ⟨i, text, ht, hne, herr⟩ := checkBlanks_eq_error h
    exact .inl ⟨i, text, left_of ht, hne, herr.imp_right .inl⟩
  rcases Except.bind_eq_error.mp h with h | ⟨⟨⟩, -, h⟩
  · obtain ⟨i, text, ht, hne, herr⟩ := checkBeginnings_eq_error h
    refine .inl ⟨i + 1, text, left_of (by simpa [Block.sources] using ht), hne, .inr (.inr ?_)⟩
    have hline : line + 1 + (i + 1) = line + 2 + i := by omega
    rw [herr, hline]
  rcases Except.bind_eq_error.mp h with h | ⟨⟨⟩, -, h⟩
  · obtain ⟨i, text, ht, hne, herr⟩ := checkBeginnings_eq_error h
    refine .inl ⟨b.sources.length + i, text, ?_, hne, .inr (.inr ?_)⟩
    · rw [List.getElem?_append_right (Nat.le_add_right _ i), Nat.add_sub_cancel_left]
      exact ht
    · rw [herr, ← Nat.add_assoc, Nat.add_right_comm line 1]
  rcases Except.bind_eq_error.mp h with h | ⟨o, -, h⟩
  · exact .inr (readOptions_eq_error h)
  · split_ifs at h
    · cases h
    · cases h

end Transcript.Session
