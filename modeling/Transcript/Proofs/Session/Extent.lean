import Transcript.Proofs.Session.Position
import Mathlib.Data.List.Forall2
import Mathlib.Data.List.Nodup

/-!
# What examples take of a session

Each example takes a range of lines of the session: its statement behind prompts and its output.
The ranges do not overlap, end where something else must begin, and leave out no prompt but those
of statements that are blank or a comment.

A bare continuation prompt at the end of a statement adds nothing to it, and is in the range of the
example all the same.

Results:
* `Extent`: the lines of an example, and what they have to do with it.
* `exists_extent`: each block that gives an example has an extent.
* `readLines_extents`: the extents of a session follow one another.
* `readLines_prompt`: which prompt lines begin an example.
* `read_extents`: the extents of the examples that are read, and the prompts left out.
-/

namespace Transcript.Session

open Text

/-! ## Extents -/

/-- **The lines of an example** in a session. -/
structure Extent (lines : List (List Char)) (e : Example) where
  /-- What is typed behind the first prompt. -/
  first : List Char
  /-- What is typed behind continuation prompts. -/
  more : List (List Char)
  /-- The lines of the expected output. -/
  want : List (List Char)
  /-- The prompt line. -/
  prompt : List Char
  /-- The continuation lines. -/
  continued : List (List Char)
  /-- A bare continuation prompt that ends the statement, if there is one. -/
  bare : Option (List Char)
  /-- The lines after the example. -/
  after : List (List Char)
  /-- The lines stand where the example says. -/
  lines_eq : lines.drop e.line =
    prompt :: continued ++ bare.toList ++ want.map (indented e.indent) ++ after
  /-- The statement stands behind prompts. -/
  prompt_eq : IsBehind e.indent ['>', '>', '>'] first prompt
  /-- It goes on behind continuation prompts. -/
  continued_eq : List.Forall₂ (IsBehind e.indent ['.', '.', '.']) more continued
  /-- Nothing stands behind the bare prompt. -/
  bare_eq : ∀ line ∈ bare, IsBehind e.indent ['.', '.', '.'] [] line
  /-- The statement is made of what is typed. -/
  source_eq : e.source = endedLines (first :: more)
  /-- The expected output is made of its lines. -/
  want_eq : e.want = endedLines want
  /-- A blank line or a prompt ends the example, if not the end of the session. -/
  stop : ∀ line ∈ after.head?, allBlank line = true ∨ (promptIndent? line).isSome

/-- The number of lines of an example. -/
def Extent.height {lines : List (List Char)} {e : Example} (x : Extent lines e) : Nat :=
  1 + x.continued.length + x.bare.toList.length + x.want.length

/-! ## Statements that end with a bare prompt -/

theorem joinLines_concat_nil {ls : List (List Char)} (h : ls ≠ []) :
    joinLines (ls ++ [[]]) = endedLines ls := by
  induction ls with
  | nil => exact absurd rfl h
  | cons l ls ih =>
    cases ls with
    | nil => rfl
    | cons m ms =>
      rw [List.cons_append, joinLines_cons (by simp), ih (List.cons_ne_nil m ms)]
      exact (endedLines_cons l (m :: ms)).symm

/-- Ending the last line of joined lines: nothing is added if the last of several lines is empty. -/
theorem endLine_joinLines {l : List Char} {ls : List (List Char)} (hl : '\n' ∉ l)
    (hls : ∀ x ∈ ls, '\n' ∉ x) :
    endLine (joinLines (l :: ls)) = endedLines (l :: ls) ∨
      ∃ init, ls = init ++ [[]] ∧ endLine (joinLines (l :: ls)) = endedLines (l :: init) := by
  have hfeed : ∀ x ∈ l :: ls, '\n' ∉ x := List.forall_mem_cons.mpr ⟨hl, hls⟩
  have hne : l :: ls ≠ [] := List.cons_ne_nil l ls
  by_cases hlast : (joinLines (l :: ls)).getLast? = some '\n'
  · right
    obtain ⟨body, hbody⟩ := List.getLast?_eq_some_iff.mp hlast
    have hsegments := segments_joinLines hne hfeed
    rw [hbody, segments_append_last] at hsegments
    obtain ⟨f, init, hinit⟩ := List.exists_cons_of_ne_nil (segments_ne_nil body)
    rw [hinit, List.cons_append, List.cons.injEq] at hsegments
    refine ⟨init, hsegments.2.symm, ?_⟩
    rw [endLine, if_pos hlast, ← hsegments.2, ← List.cons_append,
      joinLines_concat_nil (List.cons_ne_nil l init)]
  · left
    rw [endLine, if_neg hlast, joinLines_append_feed hne]

/-! ## The extent of a block -/

section Blocks

variable {name : String} {lines rest : List (List Char)} {prompt : List Char} {n k : Nat}

theorem continuation_isBehind {b : Block} (hb : b.Readable k) {line : List Char}
    (hline : line ∈ b.more) (hdots : isContinuation line = true) :
    IsBehind k ['.', '.', '.'] (outdented (k + 4) line) line := by
  obtain ⟨more, hmore⟩ := List.isPrefixOf_iff_prefix.mp hdots
  have hspaces : leadingSpaces line = k := by
    rcases hb.more line hline with rfl | ⟨tail, htail⟩
    · cases hdots
    · rw [← htail, List.append_assoc]
      exact leadingSpaces_indented k _
  have hline' : line = indented k (['.', '.', '.'] ++ more) := by
    rw [hmore, ← hspaces]
    exact eq_indented line
  have hblank := hb.blanks line (List.mem_cons_of_mem _ hline)
  rw [hline'] at hblank ⊢
  exact isBehind_of_blank ascii_continuation rfl hblank

theorem prompt_isBehind {b : Block} (hb : b.Readable k) (hp : promptIndent? b.prompt = some k) :
    IsBehind k ['>', '>', '>'] (outdented (k + 4) b.prompt) b.prompt := by
  obtain ⟨more, hmore⟩ := exists_of_promptIndent? hp
  have hblank := hb.blanks b.prompt List.mem_cons_self
  rw [hmore] at hblank ⊢
  exact isBehind_of_blank ascii_prompt rfl hblank

/-- The expected output of a block is made of the lines in the column of its prompt. -/
theorem want_eq_endedLines {b : Block} (hb : b.Readable k)
    (hout : ∀ line ∈ b.output, isOutput line = true) :
    b.output = (b.output.map (outdented k)).map (indented k) ∧
      b.want k = endedLines (b.output.map (outdented k)) := by
  have hkeep : ∀ line ∈ b.output, line = indented k (outdented k line) := by
    intro line hline
    rcases hb.output line hline with rfl | ⟨tail, htail⟩
    · exact absurd (hout [] hline) (by decide)
    · have hcut := outdented_indented (Nat.le_refl k) tail
      rw [Nat.sub_self] at hcut
      rw [← htail]
      exact congrArg (indented k) hcut.symm
  have hne : ∀ line ∈ b.output, outdented k line ≠ [] := by
    intro line hline hempty
    have hl := hout line hline
    rw [hkeep line hline, hempty, isOutput_indented] at hl
    exact absurd hl (by decide)
  constructor
  · rw [List.map_map]
    conv_lhs => rw [← List.map_id b.output]
    exact List.map_congr_left hkeep
  · refine Block.want_eq rfl fun l hl => ?_
    obtain ⟨line, hline, rfl⟩ := List.mem_map.mp hl
    exact hne line hline

theorem feed_not_mem_outdented {ls : List (List Char)} (h : ∀ l ∈ ls, '\n' ∉ l) (d : Nat) :
    ∀ l ∈ ls.map (outdented d), '\n' ∉ l := by
  intro l hl hf
  obtain ⟨line, hline, rfl⟩ := List.mem_map.mp hl
  exact h line hline (mem_of_mem_dropBytes hf)

/-- A bare continuation prompt at the end of a statement adds nothing to it. -/
theorem exists_bare {b : Block} (hfeed : ∀ line ∈ b.sources, '\n' ∉ line) :
    ∃ (continued : List (List Char)) (bare : Option (List Char)),
      b.more = continued ++ bare.toList ∧ (∀ line ∈ bare, outdented (k + 4) line = []) ∧
        endLine (b.source k) =
          endedLines (outdented (k + 4) b.prompt :: continued.map (outdented (k + 4))) := by
  obtain ⟨hfirst, hmore⟩ := List.forall_mem_cons.mp (feed_not_mem_outdented hfeed (k + 4))
  rcases endLine_joinLines hfirst hmore with h | ⟨init, hinit, h⟩
  · exact ⟨b.more, none, (List.append_nil _).symm, (fun _ hline => nomatch hline), h⟩
  · obtain ⟨continued, last, hsplit, hcontinued, hlast⟩ := List.map_eq_append_iff.mp hinit
    obtain ⟨line, hline, hempty⟩ := List.map_eq_singleton_iff.mp hlast
    refine ⟨continued, some line, by rw [hsplit, hline]; rfl, ?_, ?_⟩
    · rintro _ ⟨⟩
      exact hempty
    · rw [hcontinued]
      exact h

/-- **A block that gives an example** has an extent, and it is all of the block. -/
theorem exists_extent {e : Example} (hlines : lines.drop n = prompt :: rest)
    (hfeed : ∀ line ∈ lines, '\n' ∉ line) (hp : promptIndent? prompt = some k)
    (hblock : readBlock name (blockAt prompt rest).1 n k = .ok (some e)) :
    e.line = n ∧ ∃ x : Extent lines e,
      x.height = 1 + (blockAt prompt rest).1.more.length + (blockAt prompt rest).1.output.length := by
  have hmem : ∀ line ∈ prompt :: rest, '\n' ∉ line :=
    fun line hline => hfeed line ((List.drop_suffix n lines).subset (hlines ▸ hline))
  have happend := blockAt_append prompt rest
  have hstop : ∀ line ∈ (blockAt prompt rest).2.head?, isOutput line = false := by
    intro line hline
    have := List.head?_dropWhile_not isOutput (rest.dropWhile isContinuation)
    change line ∈ ((rest.dropWhile isContinuation).dropWhile isOutput).head? at hline
    rw [Option.mem_def.mp hline] at this
    simpa using this
  obtain ⟨hreadable, -, overrides, -, rfl⟩ := readBlock_eq_some.mp hblock
  have hdots : ∀ line ∈ (blockAt prompt rest).1.more, isContinuation line = true :=
    fun line hline => List.mem_takeWhile_imp hline
  have hout : ∀ line ∈ (blockAt prompt rest).1.output, isOutput line = true :=
    fun line hline => List.mem_takeWhile_imp hline
  obtain ⟨continued, bare, hmore, hbare, hsource⟩ :=
    exists_bare (k := k) fun line hline => hmem line (mem_of_mem_sources hline)
  obtain ⟨houtput, hwant⟩ := want_eq_endedLines hreadable hout
  have hbehind : ∀ line ∈ (blockAt prompt rest).1.more,
      IsBehind k ['.', '.', '.'] (outdented (k + 4) line) line :=
    fun line hline => continuation_isBehind hreadable hline (hdots line hline)
  refine ⟨rfl, ⟨outdented (k + 4) prompt, continued.map (outdented (k + 4)),
    (blockAt prompt rest).1.output.map (outdented k), prompt, continued, bare,
    (blockAt prompt rest).2, ?_, prompt_isBehind hreadable hp, ?_, ?_, hsource, ?_, ?_⟩, ?_⟩
  · change lines.drop n = prompt :: continued ++ bare.toList ++
      ((blockAt prompt rest).1.output.map (outdented k)).map (indented k) ++ (blockAt prompt rest).2
    rw [hlines, ← houtput, List.cons_append, ← hmore, List.cons_append, List.cons_append, happend]
  · rw [List.forall₂_map_left_iff, List.forall₂_same]
    exact fun line hline => hbehind line (by rw [hmore]; exact List.mem_append_left _ hline)
  · intro line hline
    have := hbehind line (by
      rw [hmore]
      exact List.mem_append_right _ (Option.mem_toList.mpr hline))
    rw [hbare line hline] at this
    exact this
  · rw [hwant]
    exact make_want_endedLines _ _ _ _ _ _
  · intro line hline
    have hend := hstop line hline
    unfold isOutput at hend
    cases hblank : allBlank line with
    | true => exact .inl rfl
    | false =>
      right
      rw [hblank, Bool.not_false, Bool.true_and] at hend
      rw [← Option.not_isNone, hend]
      rfl
  · have hlength := congrArg List.length hmore
    rw [List.length_append] at hlength
    unfold Extent.height
    dsimp only
    rw [List.length_map, hlength, ← Nat.add_assoc]

theorem drop_after_prompt (hlines : lines.drop n = prompt :: rest) : lines.drop (n + 1) = rest := by
  rw [← List.tail_drop, hlines, List.tail_cons]

theorem drop_after_block (hlines : lines.drop n = prompt :: rest) :
    lines.drop (n + 1 + (blockAt prompt rest).1.more.length +
      (blockAt prompt rest).1.output.length) = (blockAt prompt rest).2 := by
  have hdrop : ((blockAt prompt rest).1.more ++ (blockAt prompt rest).1.output ++
      (blockAt prompt rest).2).drop
        ((blockAt prompt rest).1.more ++ (blockAt prompt rest).1.output).length =
      (blockAt prompt rest).2 := List.drop_left
  rw [blockAt_append, List.length_append] at hdrop
  rw [Nat.add_assoc, ← List.drop_drop, drop_after_prompt hlines]
  exact hdrop

end Blocks

/-! ## The extents of a session -/

/-- Examples stand behind the line where reading starts. -/
theorem le_line_of_mem_readLines {name : String} {n : Nat} {rest : List (List Char)}
    {es : List Example} {e : Example} (h : readLines name n rest = .ok es) (he : e ∈ es) :
    n ≤ e.line := by
  obtain ⟨before, prompt, more, k, -, -, hblock⟩ := mem_readLines h he
  obtain ⟨-, -, overrides, -, rfl⟩ := readBlock_eq_some.mp hblock
  exact Nat.le_add_right n before.length

/-- **The extents of a session** follow one another. -/
theorem readLines_extents {name : String} {lines rest : List (List Char)} {n : Nat}
    {es : List Example} (hfeed : ∀ line ∈ lines, '\n' ∉ line)
    (h : readLines name n rest = .ok es) (hlines : lines.drop n = rest) :
    ∃ xs : List (Σ e, Extent lines e), xs.map Sigma.fst = es ∧
      xs.Pairwise fun x y => x.1.line + x.2.height ≤ y.1.line := by
  fun_induction readLines name n rest generalizing es with
  | case1 n =>
    cases h
    exact ⟨[], rfl, .nil⟩
  | case2 n text rest hp ih => exact ih h (drop_after_prompt hlines)
  | case3 => cases h
  | case4 => cases h
  | case5 =>
    rename_i n text rest k hp block after found hfound examples hexamples ih
    cases h
    obtain ⟨xs, rfl, hpairs⟩ := ih hexamples (drop_after_block hlines)
    cases found with
    | none => exact ⟨xs, rfl, hpairs⟩
    | some e =>
      obtain ⟨hline, x, hheight⟩ := exists_extent hlines hfeed hp hfound
      refine ⟨⟨e, x⟩ :: xs, rfl, List.pairwise_cons.mpr ⟨fun y hy => ?_, hpairs⟩⟩
      have hle := le_line_of_mem_readLines hexamples (List.mem_map_of_mem hy)
      change e.line + x.height ≤ y.1.line
      rw [hline, hheight, ← Nat.add_assoc, ← Nat.add_assoc]
      exact hle

/-! ## Prompts that begin no example -/

/-- **A statement that gives no example:** a single line, blank or a comment, or such a line with
one bare continuation prompt behind it. -/
def IsIdle (k : Nat) (prompt : List Char) (more : List (List Char)) : Prop :=
  (∀ c ∈ ((outdented (k + 4) prompt).dropWhile (· == ' ')).head?, c = '#') ∧
    (more = [] ∨ ∃ line, more = [line] ∧ outdented (k + 4) line = [])

theorem isBlankOrComment_line {l : List Char} (hl : '\n' ∉ l) :
    isBlankOrComment l = true ↔ ∀ c ∈ (l.dropWhile (· == ' ')).head?, c = '#' := by
  have hlast : l.getLast? ≠ some '\n' := fun hf => hl (List.mem_of_getLast? hf)
  have hnone : l.contains '\n' = false := by simpa using hl
  unfold isBlankOrComment
  rw [if_neg hlast]
  dsimp only
  rw [hnone, Bool.not_false, Bool.true_and]
  cases l.dropWhile (· == ' ') with
  | nil => simp
  | cons c cs => simp

/-- Several lines, the second of which is not the end, are no comment. -/
theorem isBlankOrComment_joinLines {l : List Char} {ls : List (List Char)} (hl : '\n' ∉ l)
    (hls : ∀ x ∈ ls, '\n' ∉ x) :
    isBlankOrComment (joinLines (l :: ls)) = true ↔
      (∀ c ∈ (l.dropWhile (· == ' ')).head?, c = '#') ∧ (ls = [] ∨ ls = [[]]) := by
  cases ls with
  | nil =>
    rw [← isBlankOrComment_line hl]
    exact ⟨fun h => ⟨h, .inl rfl⟩, fun h => h.1⟩
  | cons m ms =>
    have hlast : l.getLast? ≠ some '\n' := fun hf => hl (List.mem_of_getLast? hf)
    by_cases hempty : m :: ms = [[]]
    · have hjoin : joinLines (l :: m :: ms) = l ++ ['\n'] := by
        rw [hempty, joinLines_cons_cons]
        rfl
      rw [hjoin, isBlankOrComment_append_feed hlast, isBlankOrComment_line hl]
      exact ⟨fun h => ⟨h, .inr hempty⟩, fun h => h.1⟩
    · -- One line feed stands inside, whether or not one more ends the text.
      have hinside : isBlankOrComment (joinLines (l :: m :: ms)) = false := by
        have hmem : '\n' ∈ (joinLines (l :: m :: ms)).dropLast := by
          have hrest : joinLines (m :: ms) ≠ [] := by
            intro hnil
            have hsegments := segments_joinLines (List.cons_ne_nil m ms) hls
            rw [hnil] at hsegments
            exact hempty hsegments.symm
          rw [joinLines_cons_cons, List.dropLast_append_of_ne_nil (List.cons_ne_nil _ _),
            List.dropLast_cons_of_ne_nil hrest]
          exact List.mem_append_right l List.mem_cons_self
        unfold isBlankOrComment
        dsimp only
        split_ifs
        · rw [List.contains_iff_mem.mpr hmem]
          rfl
        · rw [List.contains_iff_mem.mpr (List.dropLast_subset _ hmem)]
          rfl
      rw [hinside]
      constructor
      · intro h
        cases h
      · rintro ⟨-, h | h⟩
        · cases h
        · exact absurd h hempty

theorem source_isIdle {b : Block} {k : Nat} (hfeed : ∀ line ∈ b.sources, '\n' ∉ line) :
    isBlankOrComment (b.source k) = true ↔ IsIdle k b.prompt b.more := by
  obtain ⟨hfirst, hmore⟩ := List.forall_mem_cons.mp (feed_not_mem_outdented hfeed (k + 4))
  have hsource : b.source k =
      joinLines (outdented (k + 4) b.prompt :: b.more.map (outdented (k + 4))) := rfl
  rw [hsource, isBlankOrComment_joinLines hfirst hmore, List.map_eq_nil_iff,
    List.map_eq_singleton_iff]
  rfl

theorem promptIndent?_of_isContinuation {line : List Char} (h : isContinuation line = true) :
    promptIndent? line = none := by
  obtain ⟨more, hmore⟩ := List.isPrefixOf_iff_prefix.mp h
  unfold promptIndent?
  rw [← hmore]
  rfl

theorem promptIndent?_of_isOutput {line : List Char} (h : isOutput line = true) :
    promptIndent? line = none := by
  unfold isOutput at h
  exact Option.isNone_iff_eq_none.mp (Bool.and_eq_true_iff.mp h).2

/-- No line of a block after its first is a prompt line. -/
theorem promptIndent?_in_block {lines rest : List (List Char)} {text line : List Char} {n i : Nat}
    (hlines : lines.drop n = text :: rest) (hlt : n < i)
    (hle : i < n + 1 + (blockAt text rest).1.more.length + (blockAt text rest).1.output.length)
    (hline : lines[i]? = some line) : promptIndent? line = none := by
  obtain ⟨j, rfl⟩ : ∃ j, i = n + 1 + j := ⟨i - (n + 1), by omega⟩
  have hj : j < ((blockAt text rest).1.more ++ (blockAt text rest).1.output).length := by
    rw [List.length_append]
    omega
  rw [← List.getElem?_drop, drop_after_prompt hlines, ← blockAt_append text rest,
    List.getElem?_append_left hj] at hline
  rcases List.mem_append.mp (List.mem_of_getElem? hline) with hmem | hmem
  · exact promptIndent?_of_isContinuation (List.mem_takeWhile_imp hmem)
  · exact promptIndent?_of_isOutput (List.mem_takeWhile_imp hmem)

/-- **A prompt line begins an example,** unless its statement gives none. -/
theorem readLines_prompt {name : String} {lines rest : List (List Char)} {n i k : Nat}
    {es : List Example} {prompt : List Char} (hfeed : ∀ line ∈ lines, '\n' ∉ line)
    (h : readLines name n rest = .ok es) (hlines : lines.drop n = rest) (hi : n ≤ i)
    (hline : lines[i]? = some prompt) (hp : promptIndent? prompt = some k) :
    (∃ e ∈ es, e.line = i) ↔
      ¬ IsIdle k prompt ((lines.drop (i + 1)).takeWhile isContinuation) := by
  fun_induction readLines name n rest generalizing es with
  | case1 n =>
    have hlength : lines.length ≤ n := List.drop_eq_nil_iff.mp hlines
    rw [List.getElem?_eq_none (hlength.trans hi)] at hline
    cases hline
  | case2 n text rest hnone ih =>
    refine ih h (drop_after_prompt hlines) (Nat.lt_of_le_of_ne hi ?_)
    rintro rfl
    rw [← List.head?_drop, hlines] at hline
    cases hline
    rw [hnone] at hp
    cases hp
  | case3 => cases h
  | case4 => cases h
  | case5 =>
    rename_i n text rest k' hp' block after found hfound examples hexamples ih
    cases h
    have hafter : ∀ e ∈ examples, n < e.line := by
      intro e he
      have := le_line_of_mem_readLines hexamples he
      omega
    have hfirst : ∀ e, found = some e → e.line = n := by
      rintro e rfl
      exact (exists_extent hlines hfeed hp' hfound).1
    by_cases hin : n = i
    · subst hin
      rw [← List.head?_drop, hlines] at hline
      cases hline
      cases hp'.symm.trans hp
      have hmore : (lines.drop (n + 1)).takeWhile isContinuation = block.more := by
        rw [drop_after_prompt hlines]
        rfl
      have hmem : ∀ line ∈ block.sources, '\n' ∉ line := by
        intro line hl
        have := mem_of_mem_sources hl
        exact hfeed line ((List.drop_suffix n lines).subset (hlines ▸ this))
      have hidle : isBlankOrComment (block.source k) = true ↔ IsIdle k prompt block.more :=
        source_isIdle hmem
      rw [hmore, ← hidle]
      cases found with
      | none =>
        constructor
        · rintro ⟨e, he, hline⟩
          exact absurd hline (Nat.ne_of_gt (hafter e he))
        · intro hcomment
          exact absurd (readBlock_eq_none hfound) hcomment
      | some e =>
        obtain ⟨-, hcomment, -⟩ := readBlock_eq_some.mp hfound
        constructor
        · rintro -
          rw [hcomment]
          exact Bool.false_ne_true
        · intro _
          exact ⟨e, List.mem_append_left _ (Option.mem_toList.mpr rfl), hfirst e rfl⟩
    · have hle : n + 1 + block.more.length + block.output.length ≤ i := by
        by_contra hlt
        have hnone := promptIndent?_in_block hlines (Nat.lt_of_le_of_ne hi hin)
          (Nat.lt_of_not_le hlt) hline
        rw [hnone] at hp
        cases hp
      rw [← ih hexamples (drop_after_block hlines) hle]
      constructor
      · rintro ⟨e, he, rfl⟩
        rcases List.mem_append.mp he with he | he
        · exact absurd (hfirst e (Option.mem_toList.mp he)).symm hin
        · exact ⟨e, he, rfl⟩
      · rintro ⟨e, he, hline⟩
        exact ⟨e, List.mem_append_right _ he, hline⟩

/-- **What the examples take of a session:** their extents follow one another, and a prompt line
begins exactly one of them unless its statement is blank or a comment. -/
theorem read_extents {text : List Char} {name : String} {es : List Example}
    (h : read text name = .ok es) :
    es.Pairwise (fun e e' => e.line < e'.line) ∧
      (∃ xs : List (Σ e, Extent (dedentedLines text) e), xs.map Sigma.fst = es ∧
        xs.Pairwise fun x y => x.1.line + x.2.height ≤ y.1.line) ∧
      ∀ i prompt k, (dedentedLines text)[i]? = some prompt → promptIndent? prompt = some k →
        ((∃! e, e ∈ es ∧ e.line = i) ↔
          ¬ IsIdle k prompt (((dedentedLines text).drop (i + 1)).takeWhile isContinuation)) := by
  have hfeed : ∀ line ∈ dedentedLines text, '\n' ∉ line :=
    fun line hline => feed_not_mem_of_mem_dedentedLines hline
  obtain ⟨xs, rfl, hpairs⟩ := readLines_extents hfeed h rfl
  have hincreasing : (xs.map Sigma.fst).Pairwise (fun e e' => e.line < e'.line) := by
    rw [List.pairwise_map]
    refine hpairs.imp fun {x y} hle => ?_
    unfold Extent.height at hle
    omega
  refine ⟨hincreasing, ⟨xs, rfl, hpairs⟩, fun i prompt k hline hp => ?_⟩
  rw [← readLines_prompt hfeed h rfl (Nat.zero_le i) hline hp]
  constructor
  · rintro ⟨e, ⟨he, hi⟩, -⟩
    exact ⟨e, he, hi⟩
  · rintro ⟨e, he, hi⟩
    refine ⟨e, ⟨he, hi⟩, ?_⟩
    rintro e' ⟨he', hi'⟩
    have hnodup : ((xs.map Sigma.fst).map Example.line).Nodup :=
      List.pairwise_map.mpr (hincreasing.imp Nat.ne_of_lt)
    exact List.inj_on_of_nodup_map hnodup he' he (hi'.trans hi.symm)

/-- The second prompt line of a session begins its only example: the first is a comment. -/
theorem read_extents_comment :
    ∃! e, e ∈ [(⟨"x\n".toList, "1\n".toList, none, 1, 0, .empty⟩ : Example)] ∧ e.line = 1 := by
  have hread : read ">>> # note\n>>> x\n1\n".toList "t" =
      .ok [⟨"x\n".toList, "1\n".toList, none, 1, 0, .empty⟩] :=
    Except.toOption_eq_some.mp (by decide +kernel)
  have hprompt : (dedentedLines ">>> # note\n>>> x\n1\n".toList)[1]? = some ">>> x".toList := by decide +kernel
  refine ((read_extents hread).2.2 1 ">>> x".toList 0 hprompt rfl).mpr ?_
  rintro ⟨hcomment, -⟩
  exact absurd (hcomment 'x' rfl) (by decide)

/-- **A bare continuation prompt is lost.** No lines that are the statement of this example alone,
with its output right behind them, stand where it was read. -/
theorem bare_continuation_lost :
    ∃ e, read ">>> x\n...\n1\n".toList "t" = .ok [e] ∧
      ∀ x : Extent (dedentedLines ">>> x\n...\n1\n".toList) e, x.bare ≠ none := by
  refine ⟨⟨"x\n".toList, "1\n".toList, none, 0, 0, .empty⟩,
    Except.toOption_eq_some.mp (by decide +kernel), fun x hbare => ?_⟩
  have hdedented : dedentedLines ">>> x\n...\n1\n".toList =
      [">>> x".toList, "...".toList, "1".toList, []] := by decide +kernel
  have hlines := hdedented.symm.trans x.lines_eq
  have hsource := x.source_eq
  have hwant := x.want_eq
  have hcontinued := x.continued_eq
  have hmore : x.more = [] := by
    cases hm : x.more with
    | nil => rfl
    | cons l ls =>
      have hcount := congrArg (List.count '\n') hsource
      rw [hm, endedLines_cons, endedLines_cons, List.count_append, List.count_cons_self,
        List.count_append, List.count_cons_self] at hcount
      have hone : "x\n".toList.count '\n' = 1 := rfl
      dsimp only at hcount
      omega
  rw [hmore] at hcontinued
  rw [List.forall₂_nil_left_iff.mp hcontinued, hbare] at hlines
  cases hw : x.want with
  | nil =>
    rw [hw] at hwant
    cases hwant
  | cons w ws =>
    rw [hw] at hwant hlines
    injection hlines with _ hlines
    injection hlines with hfirst _
    have hw' : w = "...".toList := hfirst.symm
    rw [hw', endedLines_cons] at hwant
    injection hwant with hchar _
    exact absurd hchar (by decide)

end Transcript.Session
