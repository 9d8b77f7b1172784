import Transcript.Proofs.Session.Cut
import Transcript.Proofs.Session.Prompt
import Transcript.Proofs.Text.Search

/-!
# Documented exceptions

An expected output documents an exception by the traceback that it starts with: a heading, the lines of
the stack, and the message, which begins with a word and goes on to the end. A pattern says how that
looks, in which the stack takes as few characters as it can.

Results:
* `search?_traceback`: the message is what the leftmost match of the pattern leaves at its mark.
* `documentedMessage?_endedLines`: line by line, the message starts at the first line behind the heading
  that begins with a word.
* `read_message`: the examples of a session have exactly these messages.
-/

namespace Transcript.Session

open Text

/-! ## Lines of a traceback -/

/-- What may stand between a heading and the end of its line. -/
def isGap (c : Char) : Bool := c == ' ' || c == '\t'

/-- **A line that heads a traceback:** nothing but spaces and tabs stands behind the heading. -/
def IsHeading (l : List Char) : Prop :=
  ∃ gap, (∀ c ∈ gap, c = ' ' ∨ c = '\t') ∧
    (l = "Traceback (most recent call last):".toList ++ gap ∨ l = "Traceback (innermost last):".toList ++ gap)

/-- Whether a line begins with a word. -/
def beginsWord (l : List Char) : Bool := l.head?.any isWord

/-! ## The pattern of a traceback -/

/-- The message from a mark on, which begins a line. -/
def messageParts : List PatternPart :=
  [.lineStart, .mark, .one isWord, .many isWord, .many fun _ => true, .textEnd]

/-- The end of the heading, the stack and the message. -/
def stackParts : List PatternPart :=
  .words ["):".toList] :: .many isGap :: .one (· == '\n') :: .few (fun _ => true) :: messageParts

/-- **The pattern of a traceback.** -/
def tracebackParts : List PatternPart :=
  .textStart :: .words ["Traceback (".toList] ::
    .words ["most recent call last".toList, "innermost last".toList] :: stackParts

/-- The message of a traceback, of which the text behind the colon of the heading is given. -/
def messageBehind? (rest : List Char) : Option (List Char) :=
  match rest.dropWhile isGap with
  | '\n' :: body => documentedMessage?.wordLine? true body
  | _ => none

theorem documentedMessage?_eq (want : List Char) :
    documentedMessage? want =
      ((afterBegin? "Traceback (most recent call last):".toList want).or
        (afterBegin? "Traceback (innermost last):".toList want)).bind messageBehind? := rfl

theorem beginsLine_concat (before : List Char) (c : Char) : beginsLine (before ++ [c]) = (c == '\n') := by
  rw [beginsLine, List.getLast?_concat]
  rfl

/-- A message goes on to the end of the text. -/
theorem match?_messageParts (before rest : List Char) :
    match? messageParts before rest = if beginsLine before && beginsWord rest then some [rest] else none := by
  have hend (before rest : List Char) : match? [.many fun _ => true, .textEnd] before rest = some [] := by
    refine match?_many_of_some ?_
    have hall : rest.dropWhile (fun _ => true) = [] := List.dropWhile_eq_nil_iff.mpr fun _ _ => rfl
    rw [hall, match?_textEnd]
    rfl
  have hword (before rest : List Char) :
      match? [.one isWord, .many isWord, .many fun _ => true, .textEnd] before rest =
        if beginsWord rest then some [] else none := by
    cases rest with
    | nil => rfl
    | cons c cs =>
      rw [match?_one_cons, match?_many_of_some (hend _ _)]
      rfl
  rw [messageParts, match?_lineStart, match?, hword]
  cases beginsLine before <;> cases beginsWord rest <;> rfl

/-- **The stack takes as few characters as it can,** so that the message starts at the first line that
begins with a word. -/
theorem match?_few_messageParts (before rest : List Char) :
    match? (.few (fun _ => true) :: messageParts) before rest =
      (documentedMessage?.wordLine? (beginsLine before) rest).map ([·]) := by
  induction rest generalizing before with
  | nil =>
    rw [match?_few_nil, match?_messageParts, documentedMessage?.wordLine?]
    simp [beginsWord]
  | cons c cs ih =>
    rw [match?_few_cons, match?_messageParts, if_pos rfl, ih, beginsLine_concat, documentedMessage?.wordLine?]
    change (if beginsLine before && isWord c then some [c :: cs] else none).or _ = _
    split_ifs <;> rfl

/-- The gap behind the colon is taken as a whole, since no line feed is in it. -/
theorem match?_stackParts (before rest : List Char) :
    match? stackParts before rest =
      ((afterBegin? "):".toList rest).bind messageBehind?).map ([·]) := by
  have hgap (before : List Char) (c : Char) (rest : List Char) (hc : isGap c = true) :
      match? (.one (· == '\n') :: .few (fun _ => true) :: messageParts) before (c :: rest) = none := by
    rw [match?_one_cons, if_neg]
    intro hfeed
    rw [eq_of_beq hfeed] at hc
    exact absurd hc (by decide)
  rw [stackParts, match?_word, Option.map_bind]
  refine Option.bind_congr fun rest _ => ?_
  rw [match?_many hgap, Function.comp, messageBehind?]
  cases rest.dropWhile isGap with
  | nil => rfl
  | cons c cs =>
    rw [match?_one_cons, match?_few_messageParts, beginsLine_concat]
    by_cases hc : c = '\n'
    · subst hc
      rfl
    · rw [if_neg (by simpa using hc)]
      split
      · rename_i heq
        cases heq
        exact absurd rfl hc
      · rfl

theorem afterBegin?_append_bind (p q s : List Char) :
    afterBegin? (p ++ q) s = (afterBegin? p s).bind (afterBegin? q) := by
  refine Option.ext fun r => ?_
  rw [Option.bind_eq_some_iff, afterBegin?_eq_some]
  simp only [afterBegin?_eq_some]
  constructor
  · rintro rfl
    exact ⟨q ++ r, List.append_assoc p q r, rfl⟩
  · rintro ⟨_, rfl, rfl⟩
    exact (List.append_assoc p q r).symm

/-- **The message is what the leftmost match leaves at its mark.** -/
theorem search?_traceback (want : List Char) :
    search? tracebackParts want = (documentedMessage? want).map ([·]) := by
  rw [tracebackParts, search?_textStart, match?_word, List.nil_append, documentedMessage?_eq]
  have hfirst : "Traceback (most recent call last):".toList =
      "Traceback (".toList ++ ("most recent call last".toList ++ "):".toList) := rfl
  have hsecond : "Traceback (innermost last):".toList =
      "Traceback (".toList ++ ("innermost last".toList ++ "):".toList) := rfl
  rw [hfirst, hsecond, afterBegin?_append_bind, afterBegin?_append_bind]
  cases afterBegin? "Traceback (".toList want with
  | none => rfl
  | some rest =>
    simp only [Option.bind_some, afterBegin?_append_bind, match?_words, List.findSome?_cons, List.findSome?_nil]
    -- The words differ in their first characters, so that one of them at most begins the rest.
    cases hrecent : afterBegin? "most recent call last".toList rest with
    | some after =>
      have hinner : afterBegin? "innermost last".toList rest = none := by
        rw [afterBegin?_eq_some.mp hrecent]
        rfl
      rw [hinner, Option.bind_some, Option.bind_some, Option.bind_none, Option.bind_none, Option.or_none,
        match?_stackParts]
      cases (afterBegin? "):".toList after).bind messageBehind? <;> rfl
    | none =>
      rw [Option.bind_none, Option.bind_none, Option.none_or]
      cases hinner : afterBegin? "innermost last".toList rest with
      | none => rfl
      | some after =>
        rw [Option.bind_some, Option.bind_some, match?_stackParts]
        cases (afterBegin? "):".toList after).bind messageBehind? <;> rfl

/-! ## Line by line -/

section

variable {lines stack : List (List Char)} {m : List Char}

/-- The first line that begins with a word is found. -/
theorem wordLine?_eq_some (hfeed : ∀ l ∈ lines, '\n' ∉ l) :
    documentedMessage?.wordLine? true (endedLines lines) = some m ↔
      ∃ stack line rest, lines = stack ++ line :: rest ∧ (∀ l ∈ stack, beginsWord l = false) ∧
        beginsWord line = true ∧ m = endedLines (line :: rest) := by
  induction lines with
  | nil =>
    constructor
    · intro h
      cases h
    · rintro ⟨stack, line, rest, hlines, -⟩
      exact absurd hlines.symm (List.append_ne_nil_of_right_ne_nil stack (List.cons_ne_nil line rest))
  | cons l ls ih =>
    obtain ⟨hl, hls⟩ := List.forall_mem_cons.mp hfeed
    cases hword : beginsWord l with
    | true =>
      obtain ⟨c, cs, rfl⟩ : ∃ c cs, l = c :: cs := List.exists_cons_of_ne_nil fun hnil => by
        rw [hnil] at hword
        cases hword
      have hfound : documentedMessage?.wordLine? true (endedLines ((c :: cs) :: ls)) =
          some (endedLines ((c :: cs) :: ls)) := by
        rw [endedLines_cons, List.cons_append, documentedMessage?.wordLine?, Bool.true_and]
        exact if_pos hword
      rw [hfound, Option.some_inj]
      constructor
      · rintro rfl
        exact ⟨[], c :: cs, ls, rfl, fun _ h => absurd h List.not_mem_nil, hword, rfl⟩
      · rintro ⟨stack, line, rest, hlines, hstack, hline, rfl⟩
        cases stack with
        | nil => rw [hlines, List.nil_append]
        | cons s stack =>
          cases hlines
          exact absurd ((hstack (c :: cs) List.mem_cons_self).symm.trans hword) Bool.false_ne_true
    | false =>
      have hquiet : ∀ c ∈ l.head?, isWord c = false := fun c hc => by
        rw [beginsWord, Option.mem_def.mp hc] at hword
        exact hword
      rw [endedLines_cons, wordLine?_append hl fun _ => hquiet, ih hls]
      constructor
      · rintro ⟨stack, line, rest, rfl, hstack, hline, rfl⟩
        exact ⟨l :: stack, line, rest, rfl, List.forall_mem_cons.mpr ⟨hword, hstack⟩, hline, rfl⟩
      · rintro ⟨stack, line, rest, hlines, hstack, hline, rfl⟩
        cases stack with
        | nil =>
          cases hlines
          rw [hword] at hline
          cases hline
        | cons s stack =>
          cases hlines
          exact ⟨stack, line, rest, rfl, fun x hx => hstack x (List.mem_cons_of_mem l hx), hline, rfl⟩

/-- **Where an output documents a message,** its first line heads a traceback. -/
theorem documentedMessage?_eq_some {want : List Char} :
    documentedMessage? want = some m ↔
      ∃ first body, want = first ++ '\n' :: body ∧ IsHeading first ∧
        documentedMessage?.wordLine? true body = some m := by
  have hgap (c : Char) : isGap c = true ↔ c = ' ' ∨ c = '\t' := by simp [isGap]
  rw [documentedMessage?_eq, Option.bind_eq_some_iff]
  constructor
  · rintro ⟨rest, hrest, hm⟩
    obtain ⟨body, hbody, hm⟩ : ∃ body, rest.dropWhile isGap = '\n' :: body ∧
        documentedMessage?.wordLine? true body = some m := by
      rw [messageBehind?] at hm
      split at hm
      · exact ⟨_, ‹_›, hm⟩
      · cases hm
    have hsplit : rest = rest.takeWhile isGap ++ '\n' :: body := by
      rw [← hbody, List.takeWhile_append_dropWhile]
    have hblank : ∀ c ∈ rest.takeWhile isGap, c = ' ' ∨ c = '\t' := fun c hc =>
      (hgap c).mp (List.mem_takeWhile_imp hc)
    rcases Option.or_eq_some_iff.mp hrest with hbegin | ⟨-, hbegin⟩
    · refine ⟨_, body, ?_, ⟨_, hblank, .inl rfl⟩, hm⟩
      rw [List.append_assoc, ← hsplit]
      exact afterBegin?_eq_some.mp hbegin
    · refine ⟨_, body, ?_, ⟨_, hblank, .inr rfl⟩, hm⟩
      rw [List.append_assoc, ← hsplit]
      exact afterBegin?_eq_some.mp hbegin
  · rintro ⟨first, body, rfl, ⟨gap, hblank, hfirst⟩, hm⟩
    have hbehind : messageBehind? (gap ++ '\n' :: body) = some m := by
      rw [messageBehind?, List.dropWhile_append_of_pos fun c hc => (hgap c).mpr (hblank c hc)]
      exact hm
    refine ⟨gap ++ '\n' :: body, ?_, hbehind⟩
    rcases hfirst with rfl | rfl
    · rw [List.append_assoc, afterBegin?_append, Option.some_or]
    · rw [List.append_assoc, afterBegin?_append]
      rfl

theorem IsHeading.feed_not_mem {l : List Char} (h : IsHeading l) : '\n' ∉ l := by
  obtain ⟨gap, hgap, hl⟩ := h
  have hfeed : '\n' ∉ gap := fun hmem => by
    rcases hgap _ hmem with h | h <;> exact absurd h (by decide)
  rcases hl with rfl | rfl
  all_goals
    rw [List.mem_append, not_or]
    exact ⟨by decide, hfeed⟩

/-- **Line by line,** the message starts at the first line behind the heading that begins with a word. -/
theorem documentedMessage?_endedLines (hfeed : ∀ l ∈ lines, '\n' ∉ l) :
    documentedMessage? (endedLines lines) = some m ↔
      ∃ first stack line rest, lines = first :: (stack ++ line :: rest) ∧ IsHeading first ∧
        (∀ l ∈ stack, beginsWord l = false) ∧ beginsWord line = true ∧ m = endedLines (line :: rest) := by
  rw [documentedMessage?_eq_some]
  cases lines with
  | nil =>
    constructor
    · rintro ⟨first, body, hwant, -⟩
      exact absurd hwant.symm (List.append_ne_nil_of_right_ne_nil first (List.cons_ne_nil '\n' body))
    · rintro ⟨first, stack, line, rest, hlines, -⟩
      cases hlines
  | cons l ls =>
    obtain ⟨hl, hls⟩ := List.forall_mem_cons.mp hfeed
    rw [endedLines_cons]
    constructor
    · rintro ⟨first, body, hwant, hfirst, hm⟩
      have hsegments := congrArg segments hwant
      rw [segments_append_feed hl, segments_append_feed hfirst.feed_not_mem] at hsegments
      obtain rfl : l = first := (List.cons.inj hsegments).1
      obtain rfl : endedLines ls = body := (List.cons.inj (List.append_cancel_left hwant)).2
      obtain ⟨stack, line, rest, rfl, hrest⟩ := (wordLine?_eq_some hls).mp hm
      exact ⟨l, stack, line, rest, rfl, hfirst, hrest⟩
    · rintro ⟨first, stack, line, rest, hlines, hfirst, hrest⟩
      cases hlines
      exact ⟨l, _, rfl, hfirst, (wordLine?_eq_some hls).mpr ⟨stack, line, rest, rfl, hrest⟩⟩

end

/-- The message of an example is the one that its expected output documents. -/
theorem message_of_mem_read {text : List Char} {name : String} {es : List Example} {e : Example}
    (h : read text name = .ok es) (he : e ∈ es) :
    ∃ lines, (∀ l ∈ lines, '\n' ∉ l) ∧ e.want = endedLines lines ∧
      e.message = documentedMessage? (endedLines lines) := by
  obtain ⟨before, prompt, rest, indent, -, -, hblock⟩ := mem_readLines h he
  obtain ⟨-, -, overrides, -, rfl⟩ := readBlock_eq_some.mp hblock
  have hends : (blockAt prompt rest).1.want indent = [] ∨
      ((blockAt prompt rest).1.want indent).getLast? = some '\n' := by
    rw [Block.want]
    split_ifs with hempty
    · exact .inl (List.isEmpty_iff.mp hempty)
    · exact .inr List.getLast?_concat
  obtain ⟨lines, hfeed, hwant, -⟩ := eq_endedLines hends
  rw [hwant]
  refine ⟨lines, hfeed, make_want_endedLines _ lines _ _ _ _, ?_⟩
  change (documentedMessage? (endedLines lines)).map endLine = _
  cases hm : documentedMessage? (endedLines lines) with
  | none => rfl
  | some m =>
    obtain ⟨-, -, line, rest, -, -, -, -, rfl⟩ := (documentedMessage?_endedLines hfeed).mp hm
    rw [Option.map_some, endLine, if_pos (endedLines_getLast? (List.cons_ne_nil line rest))]

/-- **The examples of a session have exactly the documented messages.** An example has a message if
the first line of its expected output heads a traceback and a later line begins with a word; the message
is the output from the first such line on. The pattern of a traceback finds the same. -/
theorem read_message {text : List Char} {name : String} {es : List Example} {e : Example}
    (h : read text name = .ok es) (he : e ∈ es) :
    search? tracebackParts e.want = e.message.map ([·]) ∧
      ∃ lines, (∀ l ∈ lines, '\n' ∉ l) ∧ e.want = endedLines lines ∧
        (e.message.isSome ↔
          ∃ first rest, lines = first :: rest ∧ IsHeading first ∧ ∃ l ∈ rest, beginsWord l = true) ∧
        ∀ m, e.message = some m ↔
          ∃ first stack line rest, lines = first :: (stack ++ line :: rest) ∧ IsHeading first ∧
            (∀ l ∈ stack, beginsWord l = false) ∧ beginsWord line = true ∧ m = endedLines (line :: rest) := by
  obtain ⟨lines, hfeed, hwant, hmessage⟩ := message_of_mem_read h he
  have hsome (m : List Char) := documentedMessage?_endedLines (m := m) hfeed
  rw [← hmessage] at hsome
  refine ⟨?_, lines, hfeed, hwant, ?_, hsome⟩
  · rw [search?_traceback, hwant, hmessage]
  · rw [Option.isSome_iff_exists]
    constructor
    · rintro ⟨m, hm⟩
      obtain ⟨first, stack, line, rest, hlines, hfirst, -, hline, -⟩ := (hsome m).mp hm
      exact ⟨first, stack ++ line :: rest, hlines, hfirst, line, List.mem_append_right stack List.mem_cons_self,
        hline⟩
    · rintro ⟨first, rest, hlines, hfirst, l, hl, hword⟩
      obtain ⟨line, hfound⟩ := Option.isSome_iff_exists.mp (List.find?_isSome.mpr ⟨l, hl, hword⟩)
      obtain ⟨hline, stack, after, rfl, hstack⟩ := List.find?_eq_some_iff_append.mp hfound
      exact ⟨_, (hsome _).mpr ⟨first, stack, line, after, hlines, hfirst, fun x hx => by simpa using hstack x hx,
        hline, rfl⟩⟩

/-- A message of several lines behind a stack of two. -/
theorem read_message_behind_stack :
    read ">>> f()\nTraceback (innermost last):  \n  File x\n    ?\nE: a\n  more\nlast\n".toList "t" =
        .ok [⟨"f()\n".toList, "Traceback (innermost last):  \n  File x\n    ?\nE: a\n  more\nlast\n".toList,
          some "E: a\n  more\nlast\n".toList, 0, 0, .empty⟩] ∧
      search? tracebackParts "Traceback (innermost last):  \n  File x\n    ?\nE: a\n  more\nlast\n".toList =
        some ["E: a\n  more\nlast\n".toList] := by
  have hread : read ">>> f()\nTraceback (innermost last):  \n  File x\n    ?\nE: a\n  more\nlast\n".toList "t" =
      .ok [⟨"f()\n".toList, "Traceback (innermost last):  \n  File x\n    ?\nE: a\n  more\nlast\n".toList,
        some "E: a\n  more\nlast\n".toList, 0, 0, .empty⟩] :=
    Except.toOption_eq_some.mp (by decide +kernel)
  exact ⟨hread, (read_message hread List.mem_cons_self).1⟩

end Transcript.Session
