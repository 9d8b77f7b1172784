import Transcript.Proofs.Session.Cut
import Mathlib.Logic.IsEmpty.Basic

/-!
# The prompt that is shown

An error about a missing blank shows the prompt of its line: the three bytes in the column of the
example's prompt. A continuation line is checked for the blank before it is checked to start in that
column, so something else than a prompt may stand there, and the cut may fall inside a character.

Results:
* `readLines_eq_error_iff`: the error of a session is that of the first example in error.
* `Break`: a line at which the cut fails, and that reading comes to.
* `cutRead_eq_cut_iff`, `cutRead_returns_iff`: reading gives examples or an error if and only if the
  lines of the session have no break.
-/

namespace Transcript.Session

open Text

/-! ## Cuts at a byte -/

theorem dropBytes_eq_none_iff {n : Nat} {s : List Char} {c : Option Char} (h : charAtByte n s = some c) :
    dropBytes n s = none ↔ c = none := by
  induction s generalizing n with
  | nil => cases n <;> cases h
  | cons d ds ih =>
    cases n with
    | zero =>
      cases h
      simp [dropBytes]
    | succ n =>
      rw [charAtByte] at h
      rw [dropBytes]
      split_ifs at h ⊢
      · exact ih h
      · cases h
        simp

theorem takeBytes_eq_none_iff {n : Nat} {s : List Char} {c : Option Char} (h : charAtByte n s = some c) :
    takeBytes n s = none ↔ c = none := by
  induction s generalizing n with
  | nil => cases n <;> cases h
  | cons d ds ih =>
    cases n with
    | zero =>
      cases h
      simp [takeBytes]
    | succ n =>
      rw [charAtByte] at h
      rw [takeBytes]
      split_ifs at h ⊢
      · rw [Option.map_eq_none_iff]
        exact ih h
      · cases h
        simp

/-- Bytes behind a cut are counted from the cut. -/
theorem charAtByte_of_dropBytes {n : Nat} {s t : List Char} (h : dropBytes n s = some t) (k : Nat) :
    charAtByte (n + k) s = charAtByte k t := by
  induction s generalizing n with
  | nil =>
    cases n with
    | zero =>
      cases h
      rw [Nat.zero_add]
    | succ n => cases h
  | cons c cs ih =>
    cases n with
    | zero =>
      cases h
      rw [Nat.zero_add]
    | succ n =>
      rw [dropBytes] at h
      split_ifs at h with hle
      have hnext : n + k + 1 - c.utf8Size = n + 1 - c.utf8Size + k := by omega
      rw [Nat.add_right_comm, charAtByte, if_pos (by omega), hnext]
      exact ih h

/-- A text has all bytes before a byte that it has. -/
theorem charAtByte_ne_none {n : Nat} {s : List Char} (k : Nat) (h : charAtByte (n + k) s ≠ none) :
    charAtByte n s ≠ none := by
  induction s generalizing n with
  | nil =>
    rw [charAtByte] at h
    exact absurd rfl h
  | cons c cs ih =>
    cases n with
    | zero => exact Option.some_ne_none _
    | succ n =>
      rw [charAtByte]
      split_ifs with hle
      · have hnext : n + k + 1 - c.utf8Size = n + 1 - c.utf8Size + k := by omega
        rw [Nat.add_right_comm, charAtByte, if_pos (by omega), hnext] at h
        exact ih h
      · exact Option.some_ne_none _

/-! ## The place of a prompt -/

/-- A blank follows the prompt in column `k` of a line, unless the prompt ends the line. -/
def HasBlank (k : Nat) (line : List Char) : Prop :=
  charAtByte (k + 3) line = none ∨ charAtByte (k + 3) line = some (some ' ')
  deriving Decidable

/-- The place of a prompt in column `k` of a line begins or ends inside a character. -/
def IsSplit (k : Nat) (line : List Char) : Prop :=
  charAtByte k line = some none ∨ charAtByte (k + 3) line = some none
  deriving Decidable

/-- **A prompt cannot be cut out** if and only if its place splits a character. -/
theorem prompt_eq_none_iff {k : Nat} {line : List Char} (h : ¬ HasBlank k line) :
    (dropBytes k line).bind (takeBytes 3) = none ↔ IsSplit k line := by
  rw [HasBlank, not_or] at h
  obtain ⟨c, hc⟩ := Option.ne_none_iff_exists'.mp h.1
  obtain ⟨b, hb⟩ := Option.ne_none_iff_exists'.mp (charAtByte_ne_none 3 h.1)
  rw [IsSplit, hb, hc, Option.some_inj, Option.some_inj, Option.bind_eq_none_iff,
    ← dropBytes_eq_none_iff hb]
  cases hdrop : dropBytes k line with
  | none => simp
  | some rest =>
    have hrest : charAtByte 3 rest = some c := (charAtByte_of_dropBytes hdrop 3).symm.trans hc
    simp [takeBytes_eq_none_iff hrest]

/-- The place of the prompt of a prompt line splits no character. -/
theorem not_isSplit_prompt {prompt : List Char} {k : Nat} (h : promptIndent? prompt = some k) :
    ¬ IsSplit k prompt := by
  obtain ⟨rest, rfl⟩ := exists_of_promptIndent? h
  have hspaces : charAtByte k (indented k (['>', '>', '>'] ++ rest)) = some (some '>') := by
    have hlength : byteLength (List.replicate k ' ') = k := by
      rw [byteLength_of_ascii fun c hc => List.eq_of_mem_replicate hc ▸ rfl, List.length_replicate]
    have := charAtByte_append (List.replicate k ' ') (['>', '>', '>'] ++ rest)
    rwa [hlength] at this
  rw [IsSplit, hspaces, charAtByte_behind ascii_prompt rfl]
  cases rest <;> simp

theorem cutBlanks_of_blank {name : String} {k line : Nat} {text : List Char} {rest : List (List Char)}
    (hblank : HasBlank k text) : cutBlanks name k line (text :: rest) = cutBlanks name k (line + 1) rest := by
  rw [cutBlanks]
  rcases hblank with h | h <;> rw [h]
  rfl

/-- At a line without a blank, only the place of its prompt matters. -/
theorem cutBlanks_of_missing {name : String} {k line : Nat} {text : List Char} {rest : List (List Char)}
    (hblank : ¬ HasBlank k text) : cutBlanks name k line (text :: rest) = .error .cut ↔ IsSplit k text := by
  rw [← prompt_eq_none_iff hblank, cutBlanks]
  rw [HasBlank, not_or] at hblank
  obtain ⟨c, hc⟩ := Option.ne_none_iff_exists'.mp hblank.1
  have hc' : c ≠ some ' ' := by
    rintro rfl
    exact hblank.2 hc
  rw [hc]
  dsimp only
  rw [if_neg hc']
  cases (dropBytes k text).bind (takeBytes 3) with
  | none => exact iff_of_true rfl rfl
  | some prompt => exact iff_of_false (by rintro ⟨⟩) (Option.some_ne_none prompt)

/-- **The check for blanks fails at a cut** at the first line without a blank, if the place of its
prompt splits a character. -/
theorem cutBlanks_eq_cut_iff {name : String} {k line : Nat} {texts : List (List Char)} :
    cutBlanks name k line texts = .error .cut ↔
      ∃ done broken more, texts = done ++ broken :: more ∧ (∀ t ∈ done, HasBlank k t) ∧
        ¬ HasBlank k broken ∧ IsSplit k broken := by
  induction texts generalizing line with
  | nil => simp [cutBlanks]
  | cons text rest ih =>
    by_cases hblank : HasBlank k text
    · rw [cutBlanks_of_blank hblank, ih]
      constructor
      · rintro ⟨done, broken, more, rfl, hdone, hbroken⟩
        exact ⟨text :: done, broken, more, rfl, List.forall_mem_cons.mpr ⟨hblank, hdone⟩, hbroken⟩
      · rintro ⟨done, broken, more, htexts, hdone, hmissing, hsplit⟩
        cases done with
        | nil =>
          cases htexts
          exact absurd hblank hmissing
        | cons t done =>
          cases htexts
          exact ⟨done, broken, more, rfl, (List.forall_mem_cons.mp hdone).2, hmissing, hsplit⟩
    · rw [cutBlanks_of_missing hblank]
      constructor
      · intro hsplit
        exact ⟨[], text, rest, rfl, by simp, hblank, hsplit⟩
      · rintro ⟨done, broken, more, htexts, hdone, -, hsplit⟩
        cases done with
        | nil =>
          cases htexts
          exact hsplit
        | cons t done =>
          cases htexts
          exact absurd (List.forall_mem_cons.mp hdone).1 hblank

/-! ## Blocks before a prompt line -/

section

variable {α : Type} {p : α → Bool} {a : α} (ha : p a = false)
include ha

theorem takeWhile_append_cons (l rest : List α) : (l ++ a :: rest).takeWhile p = l.takeWhile p := by
  induction l with
  | nil => rw [List.nil_append, List.takeWhile_cons_of_neg (by simp [ha]), List.takeWhile_nil]
  | cons x xs ih => rw [List.cons_append, List.takeWhile_cons, List.takeWhile_cons, ih]

theorem dropWhile_append_cons (l rest : List α) :
    (l ++ a :: rest).dropWhile p = l.dropWhile p ++ a :: rest := by
  induction l with
  | nil => rw [List.nil_append, List.dropWhile_cons_of_neg (by simp [ha]), List.dropWhile_nil, List.nil_append]
  | cons x xs ih =>
    rw [List.cons_append, List.dropWhile_cons, List.dropWhile_cons, ih]
    split <;> rfl

end

section

variable {prompt : List Char} {k : Nat} (hp : promptIndent? prompt = some k)
include hp

/-- A block ends before a prompt line. -/
theorem blockAt_append_prompt (text : List Char) (lines rest : List (List Char)) :
    blockAt text (lines ++ prompt :: rest) =
      ((blockAt text lines).1, (blockAt text lines).2 ++ prompt :: rest) := by
  have hmore : isContinuation prompt = false := Bool.eq_false_iff.mpr fun h => by
    rw [promptIndent?_of_isContinuation h] at hp
    cases hp
  have hout : isOutput prompt = false := Bool.eq_false_iff.mpr fun h => by
    rw [promptIndent?_of_isOutput h] at hp
    cases hp
  unfold blockAt
  dsimp only
  rw [dropWhile_append_cons hmore, takeWhile_append_cons hmore, takeWhile_append_cons hout,
    dropWhile_append_cons hout]

/-- **Lines up to a prompt line are read on their own.** -/
theorem readLines_append_prompt (name : String) (line : Nat) (before rest : List (List Char)) :
    readLines name line (before ++ prompt :: rest) = do
      let first ← readLines name line before
      let second ← readLines name (line + before.length) (prompt :: rest)
      return first ++ second := by
  fun_induction readLines name line before with
  | case1 line =>
    rw [Except.ok_bind]
    exact (bind_pure _).symm
  | case2 line text more hnone ih =>
    rw [List.cons_append, readLines, hnone]
    dsimp only
    rw [ih, List.length_cons, Nat.add_right_comm, Nat.add_assoc line]
  | case3 line text more k' hp' block e he =>
    rw [List.cons_append, readLines, hp']
    dsimp only
    rw [blockAt_append_prompt hp, he]
    rfl
  | case4 line text more k' hp' block after found hfound e he ih =>
    rw [List.cons_append, readLines, hp']
    dsimp only
    rw [blockAt_append_prompt hp, hfound]
    dsimp only
    rw [ih, he]
    rfl
  | case5 line text more k' hp' block after found hfound examples hexamples ih =>
    have hlength : line + 1 + block.more.length + block.output.length + after.length =
        line + (text :: more).length := by
      have : block.more.length + block.output.length + after.length = more.length :=
        blockAt_lengths text more
      rw [List.length_cons]
      omega
    rw [List.cons_append, readLines, hp']
    dsimp only
    rw [blockAt_append_prompt hp, hfound]
    dsimp only
    rw [ih, hexamples, hlength, Except.ok_bind, Except.ok_bind]
    cases readLines name (line + (text :: more).length) (prompt :: rest) with
    | error e => rfl
    | ok second => rw [Except.ok_bind, Except.ok_bind, List.append_assoc]; rfl

end

/-- **The error of a session** is that of the first example in error. -/
theorem readLines_eq_error_iff {name : String} {line : Nat} {lines : List (List Char)} {err : Error} :
    readLines name line lines = .error err ↔
      ∃ before prompt rest k es, lines = before ++ prompt :: rest ∧ promptIndent? prompt = some k ∧
        readLines name line before = .ok es ∧
        readBlock name (blockAt prompt rest).1 (line + before.length) k = .error err := by
  constructor
  · induction hn : lines.length using Nat.strong_induction_on generalizing lines with
    | h n ih =>
      intro h
      obtain ⟨before, prompt, rest, k, rfl, hp, hblock⟩ := readLines_eq_error h
      cases hbefore : readLines name line before with
      | ok es => exact ⟨before, prompt, rest, k, es, rfl, hp, hbefore, hblock⟩
      | error e =>
        -- The lines before are in error, which is then the error of all lines.
        rw [readLines_append_prompt hp, hbefore] at h
        cases h
        have hlt : before.length < n := by
          rw [← hn, List.length_append, List.length_cons]
          omega
        obtain ⟨first, prompt', more, k', es, rfl, hp', hfirst, hblock'⟩ := ih _ hlt rfl hbefore
        refine ⟨first, prompt', more ++ prompt :: rest, k', es, by simp, hp', hfirst, ?_⟩
        rw [blockAt_append_prompt hp]
        exact hblock'
  · rintro ⟨before, prompt, rest, k, es, rfl, hp, hbefore, hblock⟩
    rw [readLines_append_prompt hp, hbefore, Except.ok_bind, readLines, hp]
    dsimp only
    rw [hblock]
    rfl

/-! ## Breaks -/

theorem mapError_of_eq_cut_iff {α : Type} {x : Except Error α} :
    x.mapError Stop.of = .error .cut ↔ ∃ line name text, x = .error (.brokenPrompt line name text) := by
  constructor
  · intro h
    cases x with
    | ok a => cases h
    | error e =>
      cases e with
      | brokenPrompt line name text => exact ⟨line, name, text, rfl⟩
      | _ => cases h
  · rintro ⟨line, name, text, rfl⟩
    rfl

/-- **An example stops the reading at a cut** only in the check for blanks. -/
theorem readBlock_eq_cut_iff {name : String} {b : Block} {line k : Nat} :
    (readBlock name b line k).mapError Stop.of = .error .cut ↔
      cutBlanks name k (line + 1) b.sources = .error .cut := by
  rw [cutBlanks_eq, mapError_of_eq_cut_iff, mapError_of_eq_cut_iff]
  refine exists_congr fun l => exists_congr fun n => exists_congr fun t => ?_
  rw [readBlock_eq]
  constructor
  · intro h
    rcases Except.bind_eq_error.mp h with h | ⟨⟨⟩, -, h⟩
    · exact h
    exfalso
    rcases Except.bind_eq_error.mp h with h | ⟨⟨⟩, -, h⟩
    · obtain ⟨_, _, -, -, herr⟩ := checkBeginnings_eq_error h
      cases herr
    rcases Except.bind_eq_error.mp h with h | ⟨⟨⟩, -, h⟩
    · obtain ⟨_, _, -, -, herr⟩ := checkBeginnings_eq_error h
      cases herr
    rcases Except.bind_eq_error.mp h with h | ⟨o, -, h⟩
    · obtain ⟨_, _, herr⟩ | ⟨_, _, herr⟩ := readOptions_eq_error h <;> cases herr
    · split_ifs at h <;> cases h
  · intro h
    exact Except.bind_eq_error.mpr (.inl h)

/-- **A break** of lines: a continuation line without a blank behind the place of its prompt, where this
place splits a character. Reading comes to it: the examples before are read, and the lines of its own
example before it have their blanks. -/
structure Break (name : String) (lines : List (List Char)) where
  /-- The lines before the example. -/
  before : List (List Char)
  /-- The prompt line of the example. -/
  prompt : List Char
  /-- The lines after the prompt line. -/
  rest : List (List Char)
  lines_eq : lines = before ++ prompt :: rest
  /-- The column of the prompt. -/
  indent : Nat
  prompt_at : promptIndent? prompt = some indent
  /-- The examples before. -/
  examples : List Example
  reached : readLines name 0 before = .ok examples
  /-- The continuation lines before the broken one. -/
  done : List (List Char)
  /-- The line that breaks. -/
  broken : List Char
  continued : done ++ [broken] <+: rest.takeWhile isContinuation
  blanks : ∀ t ∈ prompt :: done, HasBlank indent t
  missing : ¬ HasBlank indent broken
  split : IsSplit indent broken

/-- **Reading is stopped at a cut** if and only if the lines of the session have a break. -/
theorem cutRead_eq_cut_iff (text : List Char) (name : String) :
    cutRead text name = .error .cut ↔ Nonempty (Break name (dedentedLines text)) := by
  rw [cutRead_eq, mapError_of_eq_cut_iff]
  constructor
  · rintro ⟨line, name', broken, h⟩
    obtain ⟨before, prompt, rest, k, es, hlines, hp, hbefore, hblock⟩ := readLines_eq_error_iff.mp h
    have hcut := readBlock_eq_cut_iff.mp (mapError_of_eq_cut_iff.mpr ⟨line, name', broken, hblock⟩)
    obtain ⟨done, broken, more, hsources, hdone, hmissing, hsplit⟩ := cutBlanks_eq_cut_iff.mp hcut
    cases done with
    | nil =>
      cases hsources
      exact absurd hsplit (not_isSplit_prompt hp)
    | cons t done =>
      obtain ⟨rfl, hmore⟩ := List.cons.inj hsources
      refine ⟨⟨before, prompt, rest, hlines, k, hp, es, hbefore, done, broken, ⟨more, ?_⟩, hdone, hmissing,
        hsplit⟩⟩
      rw [List.append_assoc]
      exact hmore.symm
  · rintro ⟨b⟩
    obtain ⟨more, hmore⟩ := b.continued
    have hsources : (blockAt b.prompt b.rest).1.sources = (b.prompt :: b.done) ++ b.broken :: more := by
      rw [List.cons_append, List.append_cons, hmore]
      rfl
    have hcut : (readBlock name (blockAt b.prompt b.rest).1 (0 + b.before.length) b.indent).mapError Stop.of =
        .error .cut :=
      readBlock_eq_cut_iff.mpr (cutBlanks_eq_cut_iff.mpr
        ⟨_, b.broken, more, hsources, b.blanks, b.missing, b.split⟩)
    obtain ⟨line, name', text', hblock⟩ := mapError_of_eq_cut_iff.mp hcut
    exact ⟨line, name', text', readLines_eq_error_iff.mpr
      ⟨b.before, b.prompt, b.rest, b.indent, b.examples, b.lines_eq, b.prompt_at, b.reached, hblock⟩⟩

/-- **Reading gives examples or an error** if and only if the lines of the session have no break. -/
theorem cutRead_returns_iff (text : List Char) (name : String) :
    cutRead text name = (read text name).mapError .error ↔ IsEmpty (Break name (dedentedLines text)) := by
  rw [← not_nonempty_iff, ← cutRead_eq_cut_iff, cutRead_eq]
  cases read text name with
  | ok examples => exact iff_of_true rfl (by rintro ⟨⟩)
  | error e =>
    cases e with
    | brokenPrompt => exact iff_of_false (by rintro ⟨⟩) (not_not_intro rfl)
    | _ => exact iff_of_true rfl (by rintro ⟨⟩)

/-- Dots left of the prompt's column are taken for a continuation prompt, and the cut in its column
splits the character behind them. -/
theorem cutRead_left_of_prompt : cutRead " >>> x\n...é\n".toList "t" = .error .cut :=
  (cutRead_eq_cut_iff _ _).mpr
    ⟨{ before := []
       prompt := " >>> x".toList
       rest := ["...é".toList, []]
       lines_eq := by decide
       indent := 1
       prompt_at := by decide
       examples := []
       reached := by rw [readLines]
       done := []
       broken := "...é".toList
       continued := by decide
       blanks := by decide
       missing := by decide
       split := by decide }⟩

end Transcript.Session
