import Transcript.Proofs.Session.Indent
import Mathlib.Data.List.TakeDrop

/-!
# Typing a statement again

A statement that was read from a session can be put behind prompts again. Together with an output
that keeps clear of blank lines and prompts it is a session that reads back as one example.

Results:
* `mem_read_source`: what the statement of an example is made of.
* `readOptions_anywhere`: the options of a statement do not depend on where it stands.
* `readLines_typed`: a statement behind prompts and its output are read, wherever they stand.
* `read_prompted`: a statement behind prompts and its output are read back.
-/

namespace Transcript.Session

open Text

/-! ## The statements of a session -/

theorem tab_not_mem_of_mem_dedentedLines {text line : List Char} (h : line ∈ dedentedLines text) :
    '\t' ∉ line := by
  unfold dedentedLines at h
  obtain ⟨expanded, hexpanded, rfl⟩ := List.mem_map.mp h
  obtain ⟨segment, -, rfl⟩ := List.mem_map.mp hexpanded
  exact fun ht => tab_not_mem_expandTabs segment (mem_of_mem_dropBytes ht)

theorem feed_not_mem_of_mem_dedentedLines {text line : List Char} (h : line ∈ dedentedLines text) :
    '\n' ∉ line := by
  unfold dedentedLines at h
  obtain ⟨expanded, hexpanded, rfl⟩ := List.mem_map.mp h
  obtain ⟨segment, hsegment, rfl⟩ := List.mem_map.mp hexpanded
  intro hf
  exact feed_not_mem_of_mem_segments hsegment (feed_mem_expandTabsFrom (mem_of_mem_dropBytes hf))

/-- The lines of a block are lines of the text. -/
theorem mem_of_mem_sources {prompt : List Char} {rest : List (List Char)} {t : List Char}
    (h : t ∈ (blockAt prompt rest).1.sources) : t ∈ prompt :: rest := by
  rcases List.mem_cons.mp h with rfl | h
  · exact List.mem_cons_self
  · exact List.mem_cons_of_mem prompt ((List.takeWhile_prefix isContinuation).subset h)

/-- **What the statement of an example is made of:** lines without tabs that are more than blanks
and comments and whose options can be read. -/
structure IsStatement (lines : List (List Char)) (overrides : Overrides) : Prop where
  /-- There is a line. -/
  ne_nil : lines ≠ []
  /-- No line holds a line feed. -/
  feed_not_mem : ∀ l ∈ lines, '\n' ∉ l
  /-- No line holds a tab. -/
  tab_not_mem : ∀ l ∈ lines, '\t' ∉ l
  /-- It is no blank line and no comment. -/
  not_comment : isBlankOrComment (joinLines lines) = false
  /-- Its options can be read. -/
  options : ∃ line name, readOptions (joinLines lines) line name = .ok overrides

theorem mem_read_source {text : List Char} {name : String} {es : List Example} {e : Example}
    (h : read text name = .ok es) (he : e ∈ es) :
    ∃ lines, IsStatement lines e.overrides ∧ e.source = endLine (joinLines lines) := by
  obtain ⟨before, prompt, rest, indent, hlines, -, hblock⟩ := mem_readLines h he
  obtain ⟨-, hcomment, overrides, hoptions, rfl⟩ := readBlock_eq_some.mp hblock
  have mem_lines {t : List Char} (ht : t ∈ (blockAt prompt rest).1.sources) :
      t ∈ dedentedLines text := by
    rw [hlines]
    exact List.mem_append_right before (mem_of_mem_sources ht)
  refine ⟨(blockAt prompt rest).1.sources.map fun t => (dropBytes (indent + 4) t).getD [],
    ⟨by simp [Block.sources], ?_, ?_, hcomment, _, _, hoptions⟩, rfl⟩
  · intro l hl
    obtain ⟨t, ht, rfl⟩ := List.mem_map.mp hl
    exact fun hf => feed_not_mem_of_mem_dedentedLines (mem_lines ht) (mem_of_mem_dropBytes hf)
  · intro l hl
    obtain ⟨t, ht, rfl⟩ := List.mem_map.mp hl
    exact fun hf => tab_not_mem_of_mem_dedentedLines (mem_lines ht) (mem_of_mem_dropBytes hf)

/-- **The options of a statement** do not depend on where it stands. -/
theorem readOptions_anywhere {source : List Char} {line line' : Nat} {name name' : String}
    {overrides : Overrides} (h : readOptions source line name = .ok overrides) :
    readOptions source line' name' = .ok overrides := by
  unfold readOptions at h ⊢
  obtain ⟨o, hfold, hcheck⟩ := Except.bind_eq_ok.mp h
  refine Except.bind_eq_ok.mpr ⟨o, ?_, ?_⟩
  · clear hcheck
    generalize Overrides.empty = o₀ at hfold ⊢
    generalize optionComments source = comments at hfold ⊢
    induction comments generalizing o₀ with
    | nil => exact hfold
    | cons c cs ih =>
      rw [List.foldlM_cons] at hfold ⊢
      obtain ⟨o₁, hone, hrest⟩ := Except.bind_eq_ok.mp hfold
      refine Except.bind_eq_ok.mpr ⟨o₁, ?_, ih o₁ hrest⟩
      dsimp only at hone ⊢
      split at hone
      · exact hone
      · cases hone
  · split_ifs at hcheck ⊢
    exact hcheck

/-! ## Option comments -/

theorem dropWhile_append_feed {p : Char → Bool} {s t : List Char} (h : s.dropWhile p = t)
    (hne : t ≠ []) : (s ++ ['\n']).dropWhile p = t ++ ['\n'] := by
  rw [List.dropWhile_append, h, if_neg (by simpa using hne)]

theorem takeWhile_append_feed {p : Char → Bool} {s : List Char} (h : s.dropWhile p ≠ []) :
    (s ++ ['\n']).takeWhile p = s.takeWhile p := by
  rw [List.takeWhile_append, if_neg]
  intro hlen
  have hall := congrArg List.length (List.takeWhile_append_dropWhile (p := p) (l := s))
  rw [List.length_append, hlen, Nat.add_eq_left, List.length_eq_zero_iff] at hall
  exact h hall

/-- Ending the line of an option comment keeps it. -/
theorem optionsAfterHash?_append_feed {s : List Char} (h : (optionsAfterHash? s).isSome) :
    (optionsAfterHash? (s ++ ['\n'])).isSome := by
  unfold optionsAfterHash? at h ⊢
  rw [List.span_eq_takeWhile_dropWhile] at h ⊢
  dsimp only at h ⊢
  cases hbegin : afterBegin? "doctest:".toList (s.dropWhile isBlank) with
  | none =>
    rw [hbegin] at h
    cases h
  | some t =>
    have ht := afterBegin?_eq_some.mp hbegin
    have hlater : afterBegin? "doctest:".toList ((s ++ ['\n']).dropWhile isBlank) =
        some (t ++ ['\n']) := by
      rw [dropWhile_append_feed ht (by simp), List.append_assoc]
      exact afterBegin?_eq_some.mpr rfl
    rw [hbegin, Option.bind_some, List.span_eq_takeWhile_dropWhile] at h
    rw [hlater, Option.bind_some, List.span_eq_takeWhile_dropWhile]
    dsimp only at h ⊢
    -- The options run to the end of the comment, or end at a character that stays there.
    cases hoptions : t.dropWhile isBlank with
    | nil =>
      have hblank : (t ++ ['\n']).dropWhile isBlank = [] := by
        rw [List.dropWhile_append, hoptions]
        decide
      rw [hblank]
      rfl
    | cons c cs =>
      rw [dropWhile_append_feed hoptions (by simp),
        takeWhile_append_feed (s := t) (by rw [hoptions]; simp)]
      rw [hoptions] at h
      cases hrest : (c :: cs).dropWhile isOptionChar with
      | nil =>
        have hfeed : (c :: cs ++ ['\n']).dropWhile isOptionChar = ['\n'] := by
          rw [List.dropWhile_append, hrest]
          decide
        rw [hfeed]
        rfl
      | cons d ds =>
        rw [dropWhile_append_feed hrest (by simp)]
        rw [hrest] at h
        by_cases hd : d = '\n'
        · rw [hd]
          rfl
        · have hkeep : (t.takeWhile isBlank).contains '\n' = true := by
            split at h
            · rename_i heq
              cases heq
            · rename_i heq
              cases heq
              exact absurd rfl hd
            · split_ifs at h with hc
              · exact hc
              · cases h
          rw [List.cons_append]
          split
          · rfl
          · rfl
          · rw [if_pos hkeep]
            rfl

/-- A statement without option comments has none without its last line end. -/
theorem optionComments_of_append_feed {s : List Char} (h : optionComments (s ++ ['\n']) = []) :
    optionComments s = [] := by
  have key : ∀ (n m : Nat) (s : List Char), optionCommentsAfter 0 n (s ++ ['\n']) = [] →
      optionCommentsAfter 0 m s = [] := by
    intro n m s
    induction s generalizing n m with
    | nil => intro _; rfl
    | cons c cs ih =>
      intro h
      rw [List.cons_append, optionCommentsAfter] at h
      rw [optionCommentsAfter]
      split_ifs at h ⊢ with hc
      · cases hcs : optionsAfterHash? (cs ++ ['\n']) with
        | some r =>
          rw [hcs] at h
          cases h
        | none =>
          rw [hcs] at h
          have hnone : optionsAfterHash? cs = none := by
            rw [← Option.not_isSome_iff_eq_none]
            intro hsome
            have := optionsAfterHash?_append_feed hsome
            rw [hcs] at this
            cases this
          rw [hnone]
          exact ih n m h
      · exact ih _ _ h
      · exact ih _ _ h
  exact key 0 0 s h

theorem readOptions_of_no_comment {source : List Char} (h : optionComments source = []) (line : Nat)
    (name : String) : readOptions source line name = .ok .empty := by
  unfold readOptions
  rw [h]
  rfl

/-! ## Statements behind prompts -/

/-- The lines of a statement behind prompts. -/
def promptedLines : List (List Char) → List (List Char)
  | [] => []
  | l :: ls => (">>> ".toList ++ l) :: ls.map ("... ".toList ++ ·)

theorem mem_promptedLines {lines : List (List Char)} {x : List Char} (h : x ∈ promptedLines lines) :
    ∃ y ∈ lines, x = ">>> ".toList ++ y ∨ x = "... ".toList ++ y := by
  cases lines with
  | nil => cases h
  | cons l ls =>
    rcases List.mem_cons.mp h with rfl | h
    · exact ⟨l, List.mem_cons_self, .inl rfl⟩
    · obtain ⟨y, hy, rfl⟩ := List.mem_map.mp h
      exact ⟨y, List.mem_cons_of_mem l hy, .inr rfl⟩

/-- What stands in no statement and no output stands nowhere in their session. -/
theorem not_mem_session {c : Char} (hmarks : c ∉ ">>> ".toList ++ "... ".toList)
    {lines outs : List (List Char)} (hlines : ∀ l ∈ lines, c ∉ l) (houts : ∀ l ∈ outs, c ∉ l) :
    ∀ x ∈ promptedLines lines ++ outs, c ∉ x := by
  intro x hx hc
  rcases List.mem_append.mp hx with hx | hx
  · obtain ⟨l, hl, hmark⟩ := mem_promptedLines hx
    have hcl := hlines l hl
    rcases hmark with rfl | rfl
    · rcases List.mem_append.mp hc with hc | hc
      · exact hmarks (List.mem_append_left _ hc)
      · exact hcl hc
    · rcases List.mem_append.mp hc with hc | hc
      · exact hmarks (List.mem_append_right _ hc)
      · exact hcl hc
  · exact houts x hx hc

/-- **A statement behind prompts,** as it is typed. -/
def prompted (source : List Char) : List Char :=
  endedLines (promptedLines (segments (if source.getLast? = some '\n' then source.dropLast else source)))

/-- **An output that can stand behind a statement:** lines without tabs that are not blank and no
prompts, the first of which is no continuation. -/
structure IsShowable (outs : List (List Char)) : Prop where
  /-- No line holds a line feed. -/
  feed_not_mem : ∀ l ∈ outs, '\n' ∉ l
  /-- No line holds a tab. -/
  tab_not_mem : ∀ l ∈ outs, '\t' ∉ l
  /-- Each line may belong to the output. -/
  isOutput : ∀ l ∈ outs, isOutput l = true
  /-- The first line does not go on with the statement. -/
  first : ∀ l ∈ outs.head?, isContinuation l = false

/-- Lines without tabs, the first of which starts in the first column, are kept. -/
theorem dedentedLines_endedLines {l : List Char} {ls : List (List Char)}
    (hfeed : ∀ x ∈ l :: ls, '\n' ∉ x) (htab : ∀ x ∈ l :: ls, '\t' ∉ x)
    (hb : allBlank l = false) (hl : leadingSpaces l = 0) :
    dedentedLines (endedLines (l :: ls)) = l :: ls ++ [[]] := by
  have htab' : ∀ x ∈ l :: ls ++ [[]], '\t' ∉ x := by
    intro x hx
    rcases List.mem_append.mp hx with hx | hx
    · exact htab x hx
    · simp [List.mem_singleton.mp hx]
  have hcommon : commonIndent (l :: ls ++ [[]]) = 0 := by
    have hle : commonIndent (l :: ls ++ [[]]) ≤ leadingSpaces l :=
      commonIndent_le List.mem_cons_self hb
    rw [hl] at hle
    exact Nat.le_zero.mp hle
  rw [dedentedLines_eq (segments_endedLines hfeed) htab', hcommon, funext outdented_zero]
  exact List.map_id _

/-! ## Blocks as they are typed -/

/-- The block of a statement behind prompts and its output, all in column `k`. -/
def typedBlock (k : Nat) (l : List Char) (ls outs : List (List Char)) : Block where
  prompt := indented k (">>> ".toList ++ l)
  more := (ls.map ("... ".toList ++ ·)).map (indented k)
  output := outs.map (indented k)

section TypedBlock

variable {k : Nat} {l : List Char} {ls outs rest : List (List Char)}

theorem promptIndent?_typed (k : Nat) (l : List Char) :
    promptIndent? (indented k (">>> ".toList ++ l)) = some k := by
  have hmark : ['>', '>', '>'].isPrefixOf (">>> ".toList ++ l) = true := rfl
  have hspaces : leadingSpaces (">>> ".toList ++ l) = 0 := rfl
  unfold promptIndent?
  rw [dropWhile_indented, leadingSpaces_indented, hspaces, Nat.add_zero]
  exact if_pos hmark

/-- A block ends before a line that belongs to no output. -/
theorem blockAt_typed (ho : IsShowable outs) (hrest : ∀ x ∈ rest.head?, isOutput x = false) :
    blockAt (indented k (">>> ".toList ++ l))
        ((ls.map ("... ".toList ++ ·)).map (indented k) ++ (outs.map (indented k) ++ rest)) =
      (typedBlock k l ls outs, rest) := by
  have hmore : ∀ x ∈ (ls.map ("... ".toList ++ ·)).map (indented k), isContinuation x = true := by
    intro x hx
    obtain ⟨y, hy, rfl⟩ := List.mem_map.mp hx
    obtain ⟨z, -, rfl⟩ := List.mem_map.mp hy
    rw [isContinuation_indented]
    rfl
  have houts : ∀ x ∈ outs.map (indented k), isOutput x = true := by
    intro x hx
    obtain ⟨y, hy, rfl⟩ := List.mem_map.mp hx
    rw [isOutput_indented]
    exact ho.isOutput y hy
  have hfirst : ∀ x ∈ (outs.map (indented k) ++ rest).head?, isContinuation x = false := by
    cases outs with
    | nil => exact fun x hx => isContinuation_of_not_isOutput (hrest x hx)
    | cons y ys =>
      intro x hx
      cases hx
      rw [isContinuation_indented]
      exact ho.first y rfl
  have hstop : (outs.map (indented k) ++ rest).takeWhile isContinuation = [] ∧
      (outs.map (indented k) ++ rest).dropWhile isContinuation = outs.map (indented k) ++ rest := by
    cases hlines : outs.map (indented k) ++ rest with
    | nil => exact ⟨rfl, rfl⟩
    | cons x xs =>
      have hx : isContinuation x = false := hfirst x (by rw [hlines]; rfl)
      simp [hx]
  have hafter : rest.takeWhile isOutput = [] ∧ rest.dropWhile isOutput = rest := by
    cases rest with
    | nil => exact ⟨rfl, rfl⟩
    | cons x xs =>
      have hx : isOutput x = false := hrest x rfl
      simp [hx]
  unfold blockAt typedBlock
  rw [List.takeWhile_append_of_pos hmore, List.dropWhile_append_of_pos hmore, hstop.1, hstop.2,
    List.append_nil]
  dsimp only
  rw [List.takeWhile_append_of_pos houts, List.dropWhile_append_of_pos houts, hafter.1, hafter.2,
    List.append_nil]

/-- Taking the prompts off gives the statement back. -/
theorem source_typedBlock : (typedBlock k l ls outs).source k = joinLines (l :: ls) := by
  have hmap : ((ls.map ("... ".toList ++ ·)).map (indented k)).map (outdented (k + 4)) = ls := by
    rw [List.map_map, List.map_map]
    conv_rhs => rw [← List.map_id ls]
    exact List.map_congr_left fun x _ => outdented_behind ascii_continuation rfl k x
  have hprompt := outdented_behind ascii_prompt rfl k l
  have hlines : (typedBlock k l ls outs).sources.map (outdented (k + 4)) = l :: ls := by
    change outdented (k + 4) (indented k (">>> ".toList ++ l)) :: _ = _
    exact congrArg₂ List.cons hprompt hmap
  exact congrArg joinLines hlines

/-- An output in the column of the prompt is the expectation. -/
theorem want_typedBlock (h : IsShowable outs) :
    (typedBlock k l ls outs).want k = endedLines outs := by
  refine Block.want_eq ?_ fun x hx => ne_nil_of_isOutput (h.isOutput x hx)
  change (outs.map (indented k)).map (outdented k) = outs
  rw [List.map_map]
  conv_rhs => rw [← List.map_id outs]
  refine List.map_congr_left fun x _ => ?_
  have hout := outdented_indented (Nat.le_refl k) x
  rw [Nat.sub_self] at hout
  exact hout

theorem readable_typedBlock : (typedBlock k l ls outs).Readable k where
  blanks := by
    intro t ht
    right
    rcases List.mem_cons.mp ht with rfl | ht
    · exact charAtByte_behind ascii_prompt rfl k (' ' :: l)
    · obtain ⟨y, hy, rfl⟩ := List.mem_map.mp ht
      obtain ⟨x, -, rfl⟩ := List.mem_map.mp hy
      exact charAtByte_behind ascii_continuation rfl k (' ' :: x)
  more := by
    intro t ht
    right
    obtain ⟨y, hy, rfl⟩ := List.mem_map.mp ht
    obtain ⟨x, -, rfl⟩ := List.mem_map.mp hy
    exact ⟨"..".toList ++ ' ' :: x, List.append_assoc _ _ _⟩
  output := by
    intro t ht
    right
    obtain ⟨x, -, rfl⟩ := List.mem_map.mp ht
    exact List.prefix_append _ _

end TypedBlock

/-- **A statement behind prompts and its output are read** as one example, in any column and
wherever they stand. -/
theorem readLines_typed {lines outs rest : List (List Char)} {overrides : Overrides}
    (hs : IsStatement lines overrides) (ho : IsShowable outs)
    (hrest : ∀ x ∈ rest.head?, isOutput x = false) {name : String} {k line : Nat}
    {es : List Example}
    (h : readLines name (line + lines.length + outs.length) rest = .ok es) :
    readLines name line ((promptedLines lines ++ outs).map (indented k) ++ rest) =
      .ok (.make (joinLines lines) (endedLines outs) (documentedMessage? (endedLines outs)) line k
        overrides :: es) := by
  obtain ⟨l, ls, rfl⟩ := List.exists_cons_of_ne_nil hs.ne_nil
  obtain ⟨line', name', hoptions⟩ := hs.options
  have hlines : (promptedLines (l :: ls) ++ outs).map (indented k) ++ rest =
      indented k (">>> ".toList ++ l) ::
        ((ls.map ("... ".toList ++ ·)).map (indented k) ++ (outs.map (indented k) ++ rest)) := by
    rw [List.map_append, List.append_assoc]
    rfl
  have hblock : readBlock name (typedBlock k l ls outs) line k =
      .ok (some (.make (joinLines (l :: ls)) (endedLines outs)
        (documentedMessage? (endedLines outs)) line k overrides)) := by
    refine readBlock_eq_some.mpr ⟨readable_typedBlock, ?_, overrides, ?_, ?_⟩
    · rw [source_typedBlock]
      exact hs.not_comment
    · rw [source_typedBlock]
      exact readOptions_anywhere hoptions
    · rw [source_typedBlock, want_typedBlock ho]
  have hafter : line + 1 + (typedBlock k l ls outs).more.length +
      (typedBlock k l ls outs).output.length = line + (l :: ls).length + outs.length := by
    simp only [typedBlock, List.length_map, List.length_cons]
    omega
  rw [hlines, readLines, promptIndent?_typed]
  dsimp only
  rw [blockAt_typed ho hrest, hblock]
  dsimp only
  rw [hafter, h]
  rfl

/-- **A statement behind prompts and its output are read back** as one example. -/
theorem read_prompted {lines outs : List (List Char)} {overrides : Overrides}
    (hs : IsStatement lines overrides) (ho : IsShowable outs) (name : String) :
    read (endedLines (promptedLines lines ++ outs)) name =
      .ok [.make (joinLines lines) (endedLines outs) (documentedMessage? (endedLines outs)) 0 0
        overrides] := by
  obtain ⟨l, ls, hl⟩ := List.exists_cons_of_ne_nil hs.ne_nil
  have hdedent : dedentedLines (endedLines (promptedLines lines ++ outs)) =
      (promptedLines lines ++ outs).map (indented 0) ++ [[]] := by
    have hfeed := not_mem_session (by decide) hs.feed_not_mem ho.feed_not_mem
    have htab := not_mem_session (by decide) hs.tab_not_mem ho.tab_not_mem
    have hzero : (promptedLines lines ++ outs).map (indented 0) = promptedLines lines ++ outs :=
      List.map_id _
    rw [hzero]
    subst hl
    exact dedentedLines_endedLines hfeed htab rfl rfl
  have hblank (n : Nat) : readLines name n [[]] = .ok [] := by
    rw [readLines, readLines]
    rfl
  unfold read
  rw [hdedent]
  exact readLines_typed hs ho (by decide) (hblank _)

/-- An expectation made of ended lines is kept. -/
theorem make_want_endedLines (source : List Char) (ls : List (List Char))
    (message : Option (List Char)) (line indent : Nat) (o : Overrides) :
    (Example.make source (endedLines ls) message line indent o).want = endedLines ls := by
  unfold Example.make
  dsimp only
  split_ifs with h
  · exact (List.isEmpty_iff.mp h).symm
  · have hne : ls ≠ [] := by
      rintro rfl
      exact h rfl
    rw [endLine, if_pos (endedLines_getLast? hne)]

/-! ## Documented messages -/

/-- A line that starts with no word character is skipped. -/
theorem wordLine?_append {atStart : Bool} {l : List Char} (hfeed : '\n' ∉ l)
    (hquiet : atStart = true → ∀ c ∈ l.head?, isWord c = false) (rest : List Char) :
    documentedMessage?.wordLine? atStart (l ++ '\n' :: rest) =
      documentedMessage?.wordLine? true rest := by
  induction l generalizing atStart with
  | nil =>
    rw [List.nil_append, documentedMessage?.wordLine?, if_neg]
    · rfl
    · rw [show isWord '\n' = false from by decide, Bool.and_false]
      exact Bool.false_ne_true
  | cons c cs ih =>
    rw [List.mem_cons, not_or] at hfeed
    have hc : (c == '\n') = false := by simpa using Ne.symm hfeed.1
    have hskip : (atStart && isWord c) = false := by
      cases atStart with
      | false => rfl
      | true => exact hquiet rfl c (by simp)
    rw [List.cons_append, documentedMessage?.wordLine?, hskip, if_neg Bool.false_ne_true, hc]
    exact ih hfeed.2 (fun h => absurd h Bool.false_ne_true)

theorem wordLine?_endedLines {ls : List (List Char)} (hfeed : ∀ l ∈ ls, '\n' ∉ l)
    (hquiet : ∀ l ∈ ls, ∀ c ∈ l.head?, isWord c = false) {c : Char} (hc : isWord c = true)
    (cs : List Char) :
    documentedMessage?.wordLine? true (endedLines ls ++ c :: cs) = some (c :: cs) := by
  induction ls with
  | nil => simp [documentedMessage?.wordLine?, hc]
  | cons l ls ih =>
    rw [endedLines_cons, List.append_assoc, List.cons_append,
      wordLine?_append (hfeed l List.mem_cons_self) (fun _ => hquiet l List.mem_cons_self)]
    exact ih (fun x hx => hfeed x (List.mem_cons_of_mem l hx))
      (fun x hx => hquiet x (List.mem_cons_of_mem l hx))

/-- **The message of a documented exception** starts at the first line behind the heading that
begins with a word character. -/
theorem documentedMessage?_traceback {heading : List Char} {ls : List (List Char)}
    (hheading : heading = "Traceback (most recent call last):".toList) (hfeed : ∀ l ∈ ls, '\n' ∉ l)
    (hquiet : ∀ l ∈ ls, ∀ c ∈ l.head?, isWord c = false) {c : Char} (hc : isWord c = true)
    (cs : List Char) :
    documentedMessage? (heading ++ '\n' :: (endedLines ls ++ c :: cs)) = some (c :: cs) := by
  rw [hheading]
  unfold documentedMessage?
  rw [afterBegin?_eq_some.mpr rfl]
  exact wordLine?_endedLines hfeed hquiet hc cs

/-! ## Typing a statement again -/

theorem mem_joinLines {ls : List (List Char)} {c : Char} (h : c ∈ joinLines ls) :
    c = '\n' ∨ ∃ l ∈ ls, c ∈ l := by
  induction ls with
  | nil => exact absurd h (by simp [joinLines, joinWith])
  | cons l ls ih =>
    cases ls with
    | nil => exact .inr ⟨l, List.mem_cons_self, h⟩
    | cons m ms =>
      rw [joinLines_cons_cons] at h
      rcases List.mem_append.mp h with h | h
      · exact .inr ⟨l, List.mem_cons_self, h⟩
      · rcases List.mem_cons.mp h with h | h
        · exact .inl h
        · rcases ih h with hfeed | ⟨x, hx, hc⟩
          · exact .inl hfeed
          · exact .inr ⟨x, List.mem_cons_of_mem l hx, hc⟩

theorem isBlankOrComment_append_feed {s : List Char} (h : s.getLast? ≠ some '\n') :
    isBlankOrComment (s ++ ['\n']) = isBlankOrComment s := by
  unfold isBlankOrComment
  rw [if_pos List.getLast?_concat, List.dropLast_concat, if_neg h]

/-- **The statement of an example can be typed again,** if its last line is not empty and it has no
option comment. -/
theorem isStatement_of_mem_read {text : List Char} {name : String} {es : List Example} {e : Example}
    (h : read text name = .ok es) (he : e ∈ es)
    (hlast : (segments e.source.dropLast).getLast? ≠ some [])
    (hoptions : optionComments e.source = []) :
    IsStatement (segments e.source.dropLast) .empty ∧
      e.source = endLine (joinLines (segments e.source.dropLast)) ∧
      prompted e.source = endedLines (promptedLines (segments e.source.dropLast)) := by
  obtain ⟨lines, hlines, hsource⟩ := mem_read_source h he
  have hends : e.source.getLast? = some '\n' := by
    rw [hsource]
    exact endLine_ends _
  obtain ⟨body, hbody⟩ := List.getLast?_eq_some_iff.mp hends
  rw [hbody, List.dropLast_concat] at hlast ⊢
  have hne : body.getLast? ≠ some '\n' := by
    intro hfeed
    obtain ⟨init, rfl⟩ := List.getLast?_eq_some_iff.mp hfeed
    rw [segments_append_last, List.getLast?_concat] at hlast
    exact hlast rfl
  have hjoined : joinLines lines = body ∨ joinLines lines = body ++ ['\n'] := by
    rw [hbody, endLine] at hsource
    split_ifs at hsource
    · exact .inr hsource.symm
    · exact .inl (List.append_cancel_right hsource.symm)
  refine ⟨⟨segments_ne_nil body, fun l hl => feed_not_mem_of_mem_segments hl, ?_, ?_, 0, name, ?_⟩,
    ?_, ?_⟩
  · intro l hl ht
    have hmem : '\t' ∈ joinLines lines := by
      rcases hjoined with hj | hj
      · rw [hj]
        exact mem_of_mem_segments hl ht
      · rw [hj]
        exact List.mem_append_left _ (mem_of_mem_segments hl ht)
    rcases mem_joinLines hmem with hc | ⟨x, hx, hc⟩
    · exact absurd hc (by decide)
    · exact hlines.tab_not_mem x hx hc
  · rw [joinLines_segments]
    rcases hjoined with hj | hj
    · rw [← hj]
      exact hlines.not_comment
    · rw [← isBlankOrComment_append_feed hne, ← hj]
      exact hlines.not_comment
  · rw [joinLines_segments]
    rw [hbody] at hoptions
    exact readOptions_of_no_comment (optionComments_of_append_feed hoptions) 0 name
  · rw [joinLines_segments, endLine, if_neg hne]
  · rw [prompted, if_pos List.getLast?_concat, List.dropLast_concat]

end Transcript.Session
