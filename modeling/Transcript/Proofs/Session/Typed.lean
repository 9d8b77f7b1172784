import Transcript.Proofs.Session.Prompt

/-!
# Sessions as they are typed

A session is typed part by part: lines of prose and statements with their output. Reading it finds
the statements that were typed, in their order and nothing else.

Results:
* `optionComments_eq_nil`: where no line has an option comment.
* `IsPlain.isStatement`: lines that can be typed as a statement.
* `readLines_parts`: the parts are read one by one, whatever columns were taken off.
* `read_typed`: the session is read as the statements it was typed from.
-/

namespace Transcript.Session

open Text

/-! ## Lines without option comments -/

/-- A text without a line feed that stands in joined lines stands in one of them. -/
theorem infix_of_append_feed {m l rest : List Char} (hm : '\n' ∉ m)
    (h : m <:+: l ++ '\n' :: rest) : m <:+: l ∨ m <:+: rest := by
  obtain ⟨a, b, hab⟩ := h
  rw [List.append_assoc] at hab
  rcases List.append_eq_append_iff.mp hab with ⟨c, hl, hmb⟩ | ⟨c, ha, hfeed⟩
  · rcases List.append_eq_append_iff.mp hmb with ⟨d, hc, -⟩ | ⟨d, hmd, hfeed⟩
    · exact .inl ⟨a, d, by rw [hl, hc, List.append_assoc]⟩
    · cases d with
      | nil => exact .inl ⟨a, [], by rw [hl, hmd]; simp⟩
      | cons x xs =>
        cases hfeed
        exact absurd (hmd ▸ List.mem_append_right c List.mem_cons_self) hm
  · cases c with
    | nil =>
      cases m with
      | nil => exact .inl List.nil_infix
      | cons x xs =>
        cases hfeed
        exact absurd List.mem_cons_self hm
    | cons x xs =>
      cases hfeed
      exact .inr ⟨xs, b, List.append_assoc _ _ _⟩

theorem infix_of_joinLines {m : List Char} (hm : '\n' ∉ m) {ls : List (List Char)} (hne : ls ≠ [])
    (h : m <:+: joinLines ls) : ∃ l ∈ ls, m <:+: l := by
  induction ls with
  | nil => exact absurd rfl hne
  | cons l ls ih =>
    cases ls with
    | nil => exact ⟨l, List.mem_cons_self, h⟩
    | cons k ks =>
      rw [joinLines_cons_cons] at h
      rcases infix_of_append_feed hm h with h | h
      · exact ⟨l, List.mem_cons_self, h⟩
      · obtain ⟨x, hx, hmx⟩ := ih (List.cons_ne_nil k ks) h
        exact ⟨x, List.mem_cons_of_mem l hx, hmx⟩

theorem infix_of_optionsAfterHash? {s : List Char} (h : (optionsAfterHash? s).isSome) :
    "doctest:".toList <:+: s := by
  unfold optionsAfterHash? at h
  rw [List.span_eq_takeWhile_dropWhile] at h
  dsimp only at h
  cases hbegin : afterBegin? "doctest:".toList (s.dropWhile isBlank) with
  | none =>
    rw [hbegin] at h
    cases h
  | some t =>
    refine ⟨s.takeWhile isBlank, t, ?_⟩
    rw [List.append_assoc, ← afterBegin?_eq_some.mp hbegin, List.takeWhile_append_dropWhile]

/-- **Option comments name themselves:** without that word there are none. -/
theorem optionComments_eq_nil {source : List Char} (h : ¬ "doctest:".toList <:+: source) :
    optionComments source = [] := by
  have key : ∀ (n : Nat) (s : List Char), ¬ "doctest:".toList <:+: s →
      optionCommentsAfter 0 n s = [] := by
    intro n s
    induction s generalizing n with
    | nil => intro _; rfl
    | cons c cs ih =>
      intro h
      have hcs : ¬ "doctest:".toList <:+: cs := fun hi => h (hi.trans (List.suffix_cons c cs).isInfix)
      have hnone : optionsAfterHash? cs = none := by
        rw [← Option.not_isSome_iff_eq_none]
        exact fun hsome => hcs (infix_of_optionsAfterHash? hsome)
      rw [optionCommentsAfter, hnone]
      split_ifs
      · exact ih n hcs
      · exact ih _ hcs
      · exact ih _ hcs
  exact key 0 source h

/-! ## Statements that can be typed -/

/-- **Lines that can be typed as a statement:** no tabs and no option comments, a last line that is
not empty, and more than a single blank or comment line. -/
structure IsPlain (source : List (List Char)) : Prop where
  /-- There is a line. -/
  ne_nil : source ≠ []
  /-- No line holds a line feed. -/
  feed_not_mem : ∀ l ∈ source, '\n' ∉ l
  /-- No line holds a tab. -/
  tab_not_mem : ∀ l ∈ source, '\t' ∉ l
  /-- No line holds the word that begins options. -/
  no_options : ∀ l ∈ source, ¬ "doctest:".toList <:+: l
  /-- The last line is not empty. -/
  last : source.getLast? ≠ some []
  /-- A single line has something behind its spaces, and no comment. -/
  not_idle : ∀ l, source = [l] → ∃ c ∈ (l.dropWhile (· == ' ')).head?, c ≠ '#'

theorem IsPlain.getLast?_joinLines {source : List (List Char)} (h : IsPlain source) :
    (joinLines source).getLast? ≠ some '\n' := by
  intro hfeed
  obtain ⟨init, hinit⟩ := List.getLast?_eq_some_iff.mp hfeed
  have hsegments := segments_joinLines h.ne_nil h.feed_not_mem
  rw [hinit, segments_append_last] at hsegments
  exact h.last (by rw [← hsegments, List.getLast?_concat])

theorem IsPlain.isStatement {source : List (List Char)} (h : IsPlain source) :
    IsStatement source .empty where
  ne_nil := h.ne_nil
  feed_not_mem := h.feed_not_mem
  tab_not_mem := h.tab_not_mem
  not_comment := by
    unfold isBlankOrComment
    dsimp only
    rw [if_neg h.getLast?_joinLines]
    obtain ⟨l, ls, rfl⟩ := List.exists_cons_of_ne_nil h.ne_nil
    cases ls with
    | nil =>
      obtain ⟨c, hc, hne⟩ := h.not_idle l rfl
      obtain ⟨cs, hcs⟩ := List.head?_eq_some_iff.mp hc
      have hjoin : joinLines [l] = l := rfl
      rw [hjoin, hcs]
      simp [hne]
    | cons m ms =>
      have hmem : '\n' ∈ joinLines (l :: m :: ms) := by
        rw [joinLines_cons_cons]
        exact List.mem_append_right l List.mem_cons_self
      rw [List.contains_iff_mem.mpr hmem]
      rfl
  options := by
    refine ⟨0, "", readOptions_of_no_comment (optionComments_eq_nil ?_) 0 ""⟩
    intro hinfix
    obtain ⟨l, hl, hinfix⟩ := infix_of_joinLines (by decide) h.ne_nil hinfix
    exact h.no_options l hl hinfix

/-! ## Parts -/

/-- **A part of a session as it is typed:** a line of prose and the blank line after it, or a
statement with its output and a blank line after them, if there is one. -/
inductive Part
  | prose (line blank : List Char)
  | entry (source outs : List (List Char)) (gap : Option (List Char))

namespace Part

/-- The lines of a part, with statements in column `k`. -/
def lines (k : Nat) : Part → List (List Char)
  | prose line blank => [line, blank]
  | entry source outs gap => (promptedLines source ++ outs).map (indented k) ++ gap.toList

/-- A blank line that can be typed. -/
structure IsGap (line : List Char) : Prop where
  /-- It is blank. -/
  blank : allBlank line = true
  /-- It holds no line feed. -/
  feed_not_mem : '\n' ∉ line
  /-- It holds no tab. -/
  tab_not_mem : '\t' ∉ line

/-- A line of prose: it is not blank and starts with no prompt. -/
structure IsProse (line : List Char) : Prop where
  /-- It is not blank. -/
  not_blank : allBlank line = false
  /-- No prompt stands behind its spaces. -/
  not_prompt : promptIndent? line = none
  /-- It holds no line feed. -/
  feed_not_mem : '\n' ∉ line
  /-- It holds no tab. -/
  tab_not_mem : '\t' ∉ line

/-- A part that can be typed. -/
def IsTyped : Part → Prop
  | prose line blank => IsProse line ∧ IsGap blank
  | entry source outs gap => IsPlain source ∧ IsShowable outs ∧ ∀ line ∈ gap, IsGap line

/-- Which parts may follow one another: between an output and prose stands a blank line. -/
def MayPrecede : Part → Part → Prop
  | entry _ _ none, prose _ _ => False
  | _, _ => True

/-- The column where a part starts. -/
def column (k : Nat) : Part → Nat
  | prose line _ => leadingSpaces line
  | entry _ _ _ => k

/-- The example that a statement and its output are typed for. -/
def typedExample (source outs : List (List Char)) (line indent : Nat) : Example where
  source := joinLines source ++ ['\n']
  want := endedLines outs
  message := (documentedMessage? (endedLines outs)).map endLine
  line := line
  indent := indent
  overrides := .empty

/-- The examples of parts, the first of which starts at line `n`: each statement gives one, at the
line of its prompt. -/
def examples (k indent : Nat) : Nat → List Part → List Example
  | _, [] => []
  | n, prose line blank :: parts =>
    examples k indent (n + ((prose line blank).lines k).length) parts
  | n, entry source outs gap :: parts =>
    typedExample source outs n indent ::
      examples k indent (n + ((entry source outs gap).lines k).length) parts

theorem length_entry_lines {source : List (List Char)} (hne : source ≠ []) (k : Nat)
    (outs : List (List Char)) (gap : Option (List Char)) :
    ((entry source outs gap).lines k).length =
      source.length + outs.length + gap.toList.length := by
  obtain ⟨l, ls, rfl⟩ := List.exists_cons_of_ne_nil hne
  unfold lines promptedLines
  rw [List.length_append, List.length_map, List.length_append, List.length_cons, List.length_map,
    List.length_cons]

end Part

/-! ## Lines between statements -/

theorem readLines_skip {l : List Char} (h : promptIndent? l = none) (name : String) (n : Nat)
    (rest : List (List Char)) : readLines name n (l :: rest) = readLines name (n + 1) rest := by
  rw [readLines, h]

theorem promptIndent?_of_allBlank {l : List Char} (h : allBlank l = true) :
    promptIndent? l = none := by
  unfold promptIndent?
  rw [if_neg]
  intro hprompt
  obtain ⟨rest, hrest⟩ := List.isPrefixOf_iff_prefix.mp hprompt
  have hmem : '>' ∈ l.dropWhile (· == ' ') := by
    rw [← hrest]
    exact List.mem_cons_self
  exact absurd (List.all_eq_true.mp h _ ((List.dropWhile_suffix _).subset hmem)) (by decide)

theorem readLines_blanks {tail : List (List Char)} (h : ∀ l ∈ tail, allBlank l = true)
    (name : String) (n : Nat) : readLines name n tail = .ok [] := by
  induction tail generalizing n with
  | nil => rw [readLines]
  | cons l ls ih =>
    rw [readLines_skip (promptIndent?_of_allBlank (h l List.mem_cons_self))]
    exact ih (fun x hx => h x (List.mem_cons_of_mem l hx)) (n + 1)

/-! ## Parts read one by one -/

theorem isOutput_typed (k : Nat) (l : List Char) :
    isOutput (indented k (">>> ".toList ++ l)) = false := by
  unfold isOutput
  rw [promptIndent?_typed, Option.isNone_some, Bool.and_false]

namespace Part

theorem entry_lines_outdented {d k : Nat} (h : d ≤ k) (source outs : List (List Char))
    (gap : Option (List Char)) :
    ((entry source outs gap).lines k).map (outdented d) =
      (promptedLines source ++ outs).map (indented (k - d)) ++ gap.toList.map (outdented d) := by
  unfold lines
  rw [List.map_append, List.map_map]
  congr 1
  exact List.map_congr_left fun x _ => outdented_indented h x

/-- A typed line is what was typed, in a column further left. -/
theorem readLines_entry {source outs rest : List (List Char)} {gap : Option (List Char)}
    (hplain : IsPlain source) (houts : IsShowable outs) (hgap : ∀ line ∈ gap, IsGap line)
    {d k : Nat} (hd : d ≤ k) (hrest : gap = none → ∀ x ∈ rest.head?, isOutput x = false)
    {name : String} {n : Nat} {es : List Example}
    (h : readLines name (n + ((entry source outs gap).lines k).length) rest = .ok es) :
    readLines name n (((entry source outs gap).lines k).map (outdented d) ++ rest) =
      .ok (typedExample source outs n (k - d) :: es) := by
  have hexample : typedExample source outs n (k - d) =
      .make (joinLines source) (endedLines outs) (documentedMessage? (endedLines outs)) n (k - d)
        .empty := by
    have hsource : endLine (joinLines source) = joinLines source ++ ['\n'] :=
      if_neg hplain.getLast?_joinLines
    have hwant := make_want_endedLines (joinLines source) outs
      (documentedMessage? (endedLines outs)) n (k - d) .empty
    exact congrArg₂ (fun s w => (⟨s, w, (documentedMessage? (endedLines outs)).map endLine, n, k - d,
      .empty⟩ : Example)) hsource.symm hwant.symm
  rw [length_entry_lines hplain.ne_nil, ← Nat.add_assoc, ← Nat.add_assoc] at h
  rw [entry_lines_outdented hd, List.append_assoc, hexample]
  cases gap with
  | none => exact readLines_typed hplain.isStatement houts (hrest rfl) h
  | some line =>
    have hblank : allBlank (outdented d line) = true := allBlank_outdented (hgap line rfl).blank
    have hstop : ∀ x ∈ (outdented d line :: rest).head?, isOutput x = false := by
      intro x hx
      cases hx
      exact isOutput_of_allBlank hblank
    refine readLines_typed hplain.isStatement houts hstop ?_
    rw [readLines_skip (promptIndent?_of_allBlank hblank)]
    exact h

theorem readLines_prose {line blank : List Char} (hline : IsProse line) (hblank : IsGap blank)
    {d : Nat} (hd : d ≤ leadingSpaces line) (name : String) (k n : Nat)
    (rest : List (List Char)) :
    readLines name n (((prose line blank).lines k).map (outdented d) ++ rest) =
      readLines name (n + 2) rest := by
  have hnone : (promptIndent? (outdented d line)).isNone = true := by
    rw [eq_indented line, outdented_indented hd, isNone_promptIndent?_indented,
      ← isNone_promptIndent?_indented (leadingSpaces line), ← eq_indented, hline.not_prompt]
    rfl
  have hgap : promptIndent? (outdented d blank) = none :=
    promptIndent?_of_allBlank (allBlank_outdented hblank.blank)
  change readLines name n (outdented d line :: outdented d blank :: rest) = _
  rw [readLines_skip (Option.isNone_iff_eq_none.mp hnone), readLines_skip hgap]

/-- What follows an output without a blank line does not belong to it. -/
theorem head_not_isOutput {source outs : List (List Char)} {parts : List Part} {d k : Nat}
    {tail : List (List Char)} (hparts : ∀ p ∈ parts, p.IsTyped)
    (hchain : (entry source outs none :: parts).IsChain MayPrecede)
    (hd : ∀ p ∈ parts, d ≤ p.column k) (htail : ∀ l ∈ tail, allBlank l = true) :
    ∀ x ∈ ((parts.flatMap (lines k)).map (outdented d) ++ tail).head?, isOutput x = false := by
  cases parts with
  | nil => exact fun x hx => isOutput_of_allBlank (htail x (List.mem_of_mem_head? hx))
  | cons p ps =>
    cases p with
    | prose line blank => exact (List.isChain_cons_cons.mp hchain).1.elim
    | entry source' outs' gap =>
      obtain ⟨hplain, -, -⟩ := hparts _ List.mem_cons_self
      obtain ⟨l, ls, rfl⟩ := List.exists_cons_of_ne_nil hplain.ne_nil
      have hdk : d ≤ k := hd _ List.mem_cons_self
      intro x hx
      cases hx
      rw [outdented_indented hdk]
      exact isOutput_typed (k - d) l

/-- **The parts are read one by one,** whatever columns were taken off before. -/
theorem readLines_parts {parts : List Part} {d k : Nat} {tail : List (List Char)}
    (hparts : ∀ p ∈ parts, p.IsTyped) (hchain : parts.IsChain MayPrecede)
    (hd : ∀ p ∈ parts, d ≤ p.column k) (htail : ∀ l ∈ tail, allBlank l = true) (name : String)
    (n : Nat) :
    readLines name n ((parts.flatMap (lines k)).map (outdented d) ++ tail) =
      .ok (examples k (k - d) n parts) := by
  induction parts generalizing n with
  | nil => exact readLines_blanks htail name n
  | cons p ps ih =>
    have hps := fun q hq => hparts q (List.mem_cons_of_mem p hq)
    have hdps := fun q hq => hd q (List.mem_cons_of_mem p hq)
    have ih := ih hps hchain.of_cons hdps
    have hcolumn := hd p List.mem_cons_self
    rw [List.flatMap_cons, List.map_append, List.append_assoc]
    cases p with
    | prose line blank =>
      obtain ⟨hline, hblank⟩ := hparts _ List.mem_cons_self
      rw [readLines_prose hline hblank hcolumn]
      exact ih (n + 2)
    | entry source outs gap =>
      obtain ⟨hplain, houts, hgap⟩ := hparts _ List.mem_cons_self
      refine readLines_entry hplain houts hgap hcolumn ?_ (ih _)
      rintro rfl
      exact head_not_isOutput hps hchain hdps htail

/-! ## Whole sessions -/

theorem mem_lines {p : Part} (hp : p.IsTyped) {k : Nat} {l : List Char} (hl : l ∈ p.lines k) :
    '\n' ∉ l ∧ '\t' ∉ l := by
  cases p with
  | prose line blank =>
    obtain ⟨hline, hblank⟩ := hp
    rcases List.mem_cons.mp hl with rfl | hl
    · exact ⟨hline.feed_not_mem, hline.tab_not_mem⟩
    · rw [List.mem_singleton.mp hl]
      exact ⟨hblank.feed_not_mem, hblank.tab_not_mem⟩
  | entry source outs gap =>
    obtain ⟨hplain, houts, hgap⟩ := hp
    have clean {c : Char} (hspace : c ≠ ' ') (hmarks : c ∉ ">>> ".toList ++ "... ".toList)
        (hsource : ∀ x ∈ source, c ∉ x) (houts : ∀ x ∈ outs, c ∉ x) (hgap : ∀ x ∈ gap, c ∉ x) :
        c ∉ l := by
      intro hc
      rcases List.mem_append.mp hl with hl | hl
      · obtain ⟨x, hx, rfl⟩ := List.mem_map.mp hl
        exact not_mem_session hmarks hsource houts x hx (mem_indented hc hspace)
      · exact hgap l (Option.mem_toList.mp hl) hc
    exact ⟨clean (by decide) (by decide) hplain.feed_not_mem houts.feed_not_mem
        fun x hx => (hgap x hx).feed_not_mem,
      clean (by decide) (by decide) hplain.tab_not_mem houts.tab_not_mem
        fun x hx => (hgap x hx).tab_not_mem⟩

/-- No part starts left of what the lines have in common. -/
theorem commonIndent_le_column {parts : List Part} (hparts : ∀ p ∈ parts, p.IsTyped) (k : Nat)
    {p : Part} (hp : p ∈ parts) : commonIndent (parts.flatMap (lines k)) ≤ p.column k := by
  have le_of_mem {l : List Char} (hl : l ∈ p.lines k) (hb : allBlank l = false) :
      commonIndent (parts.flatMap (lines k)) ≤ leadingSpaces l :=
    commonIndent_le (List.mem_flatMap.mpr ⟨p, hp, hl⟩) hb
  cases p with
  | prose line blank =>
    obtain ⟨hline, -⟩ := hparts _ hp
    exact le_of_mem List.mem_cons_self hline.not_blank
  | entry source outs gap =>
    obtain ⟨hplain, -, -⟩ := hparts _ hp
    obtain ⟨l, ls, rfl⟩ := List.exists_cons_of_ne_nil hplain.ne_nil
    have hprompt : indented k (">>> ".toList ++ l) ∈ (entry (l :: ls) outs gap).lines k :=
      List.mem_cons_self
    have hle := le_of_mem hprompt (by rw [allBlank_indented]; rfl)
    rw [leadingSpaces_indented] at hle
    exact hle

end Part

/-- **Sessions are read as they were typed.** Parts of prose and statements, all statements in
column `k`, give the examples of the statements in their order, each at the line of its prompt,
whether or not the last line is ended. -/
theorem read_typed {parts : List Part} (hparts : ∀ p ∈ parts, p.IsTyped)
    (hchain : parts.IsChain Part.MayPrecede) (k : Nat) (name : String) :
    let lines := parts.flatMap (Part.lines k)
    let found := Part.examples k (k - commonIndent lines) 0 parts
    read (joinLines lines) name = .ok found ∧ read (endedLines lines) name = .ok found := by
  intro lines found
  have hclean : ∀ l ∈ lines, '\n' ∉ l ∧ '\t' ∉ l := by
    intro l hl
    obtain ⟨p, hp, hl⟩ := List.mem_flatMap.mp hl
    exact Part.mem_lines (hparts p hp) hl
  have hd : ∀ p ∈ parts, commonIndent lines ≤ p.column k :=
    fun p hp => Part.commonIndent_le_column hparts k hp
  have hread (tail : List (List Char)) (htail : ∀ l ∈ tail, allBlank l = true) :=
    Part.readLines_parts hparts hchain hd htail name 0
  have hended : read (endedLines lines) name = .ok found := by
    have hdedent : dedentedLines (endedLines lines) =
        lines.map (outdented (commonIndent lines)) ++ [outdented (commonIndent lines) []] := by
      have htab : ∀ l ∈ lines ++ [[]], '\t' ∉ l := by
        intro l hl
        rcases List.mem_append.mp hl with hl | hl
        · exact (hclean l hl).2
        · simp [List.mem_singleton.mp hl]
      rw [dedentedLines_eq (segments_endedLines fun l hl => (hclean l hl).1) htab,
        commonIndent_append_blank, List.map_append]
      rfl
    have hblank : ∀ l ∈ [outdented (commonIndent lines) []], allBlank l = true := by
      intro l hl
      rw [List.mem_singleton.mp hl]
      exact allBlank_outdented rfl
    unfold read
    rw [hdedent]
    exact hread _ hblank
  refine ⟨?_, hended⟩
  by_cases hne : lines = []
  · rw [hne] at hended ⊢
    exact hended
  · unfold read
    rw [dedentedLines_eq (segments_joinLines hne fun l hl => (hclean l hl).1)
      fun l hl => (hclean l hl).2]
    have hnil := hread [] (by simp)
    rw [List.append_nil] at hnil
    exact hnil

/-- Prose, a statement of two lines without output, and one with output right behind it. -/
theorem read_typed_mixed :
    read "Text:\n\n  >>> def f():\n  ...     return 1\n  >>> f()\n  1\n".toList "t" =
      .ok [⟨"def f():\n    return 1\n".toList, [], none, 2, 2, .empty⟩,
        ⟨"f()\n".toList, "1\n".toList, none, 4, 2, .empty⟩] := by
  have hparts : ∀ p ∈ [Part.prose "Text:".toList [],
      .entry ["def f():".toList, "    return 1".toList] [] none,
      .entry ["f()".toList] ["1".toList] none], p.IsTyped := by
    intro p hp
    simp only [List.mem_cons, List.not_mem_nil, or_false] at hp
    rcases hp with rfl | rfl | rfl
    · exact ⟨⟨rfl, rfl, by decide, by decide⟩, ⟨rfl, by decide, by decide⟩⟩
    · refine ⟨⟨by decide, by decide, by decide, by decide +kernel, by decide, ?_⟩,
        ⟨by decide, by decide, by decide, by decide⟩, fun _ h => nomatch h⟩
      intro l hl
      cases hl
    · refine ⟨⟨by decide, by decide, by decide, by decide +kernel, by decide, ?_⟩,
        ⟨by decide, by decide, by decide, by decide⟩, fun _ h => nomatch h⟩
      intro l hl
      cases hl
      exact ⟨'f', rfl, by decide⟩
  have hchain : [Part.prose "Text:".toList [],
      .entry ["def f():".toList, "    return 1".toList] [] none,
      .entry ["f()".toList] ["1".toList] none].IsChain Part.MayPrecede :=
    .cons_cons trivial (.cons_cons trivial (.singleton _))
  exact (read_typed hparts hchain 2 "t").2

end Transcript.Session
