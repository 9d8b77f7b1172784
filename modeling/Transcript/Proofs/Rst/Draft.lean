import Transcript.Proofs.Doc.Draft
import Transcript.Proofs.Rst.Block
import Transcript.Proofs.Session.Indent

/-!
# Directives in reStructuredText

The name of a directive stands behind two points, its body is indented below it. The common indentation is
taken off, once for the body and once for its content, so it does not matter how far the body is indented.

Results:
* `commonIndent_eq`, `dedent_behind`: the indentation that lines have in common, and lines without it.
* `explicitMarkup_draft`: a directive with an indented body is read as it was meant.
* `nextBlock_draft`: nothing else is read of its text.
-/

namespace Transcript.Rst

open Doc Text
open Session (indented outdented_indented allBlank_indented leadingSpaces_indented)

/-! ## Blank ends -/

theorem dropBlankEnd_of_last {lines : List Line} (h : ∀ l ∈ lines.getLast?, l.isBlank = false) :
    dropBlankEnd lines = lines := dropWhile_reverse_of_last h

theorem trimBlank_of_ends {lines : List Line} (hfirst : ∀ l ∈ lines.head?, l.isBlank = false)
    (hlast : ∀ l ∈ lines.getLast?, l.isBlank = false) : trimBlank lines = lines := by
  cases lines with
  | nil => rfl
  | cons l ls =>
    unfold trimBlank
    rw [List.dropWhile_cons_of_neg (by simp [hfirst l rfl]), dropBlankEnd_of_last hlast]

theorem trimBlank_blank_cons {l : Line} (h : l.isBlank = true) (ls : List Line) :
    trimBlank (l :: ls) = trimBlank ls := by
  unfold trimBlank
  rw [List.dropWhile_cons_of_pos h]

theorem trimBlank_map {f : Line → Line} (hf : ∀ l, (f l).isBlank = l.isBlank) (lines : List Line) :
    trimBlank (lines.map f) = (trimBlank lines).map f := by
  have hf' : Line.isBlank ∘ f = Line.isBlank := funext hf
  unfold trimBlank dropBlankEnd
  rw [List.dropWhile_map, hf', ← List.map_reverse, List.dropWhile_map, hf', List.map_reverse]

/-! ## Lines behind spaces -/

/-- A line behind `k` spaces; a line without text stays as it is. -/
def behind (k : Nat) (l : Line) : Line := ⟨l.number, if l.text.isEmpty then [] else indented k l.text⟩

theorem isBlank_behind (k : Nat) (l : Line) : (behind k l).isBlank = l.isBlank := by
  unfold behind Line.isBlank
  split_ifs with h
  · rw [List.isEmpty_iff.mp h]
  · exact allBlank_indented k l.text

theorem indent_behind (k : Nat) {l : Line} (h : l.isBlank = false) : (behind k l).indent = k + l.indent := by
  have hne : l.text.isEmpty = false := by
    cases htext : l.text with
    | nil => rw [Line.isBlank, htext] at h; cases h
    | cons c cs => rfl
  unfold behind Line.indent
  rw [hne]
  exact leadingSpaces_indented k l.text

theorem cut_behind (k : Nat) (l : Line) : (behind k l).cut k = l := by
  unfold behind Line.cut
  split_ifs with h
  · obtain ⟨n, text⟩ := l
    cases List.isEmpty_iff.mp h
    cases k with
    | zero => rfl
    | succ k => rfl
  · have hcut : Session.outdented k (indented k l.text) = l.text := by
      rw [outdented_indented (Nat.le_refl k), Nat.sub_self]
      rfl
    exact congrArg (Line.mk l.number) hcut

/-- **The common indentation** is the least one of the lines that are not blank. -/
theorem commonIndent_eq {lines : List Line} {n : Nat} (hle : ∀ l ∈ lines, l.isBlank = false → n ≤ l.indent)
    (hmem : ∃ l ∈ lines, l.isBlank = false ∧ l.indent = n) : commonIndent lines = n := by
  obtain ⟨l, hl, hb, hn⟩ := hmem
  have hmin : ((lines.filter fun l => !l.isBlank).map Line.indent).min? = some n := by
    rw [List.min?_eq_some_iff]
    refine ⟨List.mem_map.mpr ⟨l, List.mem_filter.mpr ⟨hl, by simp [hb]⟩, hn⟩, fun m hm => ?_⟩
    obtain ⟨l', hl', rfl⟩ := List.mem_map.mp hm
    obtain ⟨hmem, hb'⟩ := List.mem_filter.mp hl'
    exact hle l' hmem (by simpa using hb')
  unfold commonIndent
  rw [hmin]
  rfl

/-- **Taking off what was put before:** lines of which one has no indentation are what is left of them
behind spaces. -/
theorem dedent_behind {lines : List Line} (h : ∃ l ∈ lines, l.isBlank = false ∧ l.indent = 0) (k : Nat) :
    dedent (lines.map (behind k)) = lines := by
  have hcommon : commonIndent (lines.map (behind k)) = k := by
    refine commonIndent_eq ?_ ?_
    · intro l hl hb
      obtain ⟨m, -, rfl⟩ := List.mem_map.mp hl
      rw [isBlank_behind] at hb
      rw [indent_behind k hb]
      exact Nat.le_add_right k _
    · obtain ⟨l, hl, hb, hn⟩ := h
      exact ⟨behind k l, List.mem_map_of_mem hl, by rw [isBlank_behind, hb], by rw [indent_behind k hb, hn]; rfl⟩
  unfold dedent
  rw [hcommon, List.map_map]
  exact (List.map_congr_left fun l _ => cut_behind k l).trans (List.map_id lines)

/-- Such lines stay as they are. -/
theorem dedent_flush {lines : List Line} (h : ∃ l ∈ lines, l.isBlank = false ∧ l.indent = 0) :
    dedent lines = lines := by
  have hzero : lines.map (behind 0) = lines := by
    refine (List.map_congr_left fun l _ => ?_).trans (List.map_id lines)
    obtain ⟨n, text⟩ := l
    cases text with
    | nil => rfl
    | cons c cs => rfl
  calc dedent lines = dedent (lines.map (behind 0)) := by rw [hzero]
    _ = lines := dedent_behind h 0

/-- A line that is not blank stays when blank lines are taken away at the ends. -/
theorem mem_trimBlank {lines : List Line} {l : Line} (hl : l ∈ lines) (hb : l.isBlank = false) :
    l ∈ trimBlank lines := by
  have hdrop (ls : List Line) (hl : l ∈ ls) : l ∈ ls.dropWhile Line.isBlank := by
    induction ls with
    | nil => cases hl
    | cons m ms ih =>
      by_cases hm : m.isBlank = true
      · rw [List.dropWhile_cons_of_pos hm]
        rcases List.mem_cons.mp hl with rfl | hl
        · rw [hb] at hm
          cases hm
        · exact ih hl
      · rw [List.dropWhile_cons_of_neg hm]
        exact hl
  unfold trimBlank dropBlankEnd
  rw [List.mem_reverse]
  exact hdrop _ (List.mem_reverse.mpr (hdrop _ hl))

/-- A block behind spaces goes on to its end. -/
theorem indentedBlock_behind {lines : List Line} {k : Nat} (hk : 0 < k)
    (hlast : ∀ l ∈ lines.getLast?, l.isBlank = false) :
    indentedBlock 1 (lines.map (behind k)) = lines.map (behind k) := by
  have hwithin : ∀ l ∈ lines.map (behind k), l.within 1 = true := by
    intro l hl
    obtain ⟨m, -, rfl⟩ := List.mem_map.mp hl
    unfold Line.within
    rw [isBlank_behind]
    by_cases hb : m.isBlank = true
    · rw [hb]
      rfl
    · rw [indent_behind k (by simpa using hb)]
      simp only [Bool.or_eq_true, decide_eq_true_eq]
      exact .inr (by omega)
  unfold indentedBlock
  rw [List.takeWhile_eq_self_iff.mpr hwithin]
  refine dropBlankEnd_of_last fun l hl => ?_
  rw [List.getLast?_map, Option.mem_def, Option.map_eq_some_iff] at hl
  obtain ⟨m, hm, rfl⟩ := hl
  rw [isBlank_behind]
  exact hlast m hm

/-! ## The head of a directive -/

theorem nameTail_colons (rest : List Char) :
    nameTail (':' :: ':' :: rest) = ([], ':' :: ':' :: rest) := by
  rw [nameTail]
  rfl

/-- A name ends where two colons follow it. -/
theorem nameTail_append {name : List Char} (h : nameTail name = (name, [])) (hne : name ≠ [])
    (rest : List Char) : nameTail (name ++ ':' :: ':' :: rest) = (name, ':' :: ':' :: rest) := by
  induction name with
  | nil => exact absurd rfl hne
  | cons c cs ih =>
    cases cs with
    | nil =>
      rw [nameTail] at h
      split_ifs at h with hc
      · rw [List.cons_append, List.nil_append, nameTail, nameTail_colons, hc]
        rfl
      · cases h
    | cons d ds =>
      rw [nameTail] at h
      split_ifs at h with hc
      · have hrest : nameTail (d :: ds) = (d :: ds, []) := by
          obtain ⟨hname, hleft⟩ := Prod.mk.inj h
          exact Prod.ext (List.cons.inj hname).2 hleft
        have happend := ih hrest (List.cons_ne_nil d ds)
        rw [List.cons_append] at happend
        rw [List.cons_append, List.cons_append, nameTail, if_pos hc, happend]
      · cases h

/-- **A name with two colons and an argument** is read as it is written. -/
theorem directiveHead?_append {name : String} (hname : Draft.IsName name.toList) {argument : List Char}
    (h : IsTight argument) :
    directiveHead? (name.toList ++ [':', ':'] ++ gapped argument) =
      some (name, if argument.isEmpty then none else some argument) := by
  obtain ⟨c, cs, hcs, halnum⟩ := hname.exists_head
  have hne : name.toList ≠ [] := by
    rw [hcs]
    exact List.cons_ne_nil c cs
  have hassoc : name.toList ++ [':', ':'] ++ gapped argument =
      name.toList ++ ':' :: ':' :: gapped argument := by
    rw [List.append_assoc]
    rfl
  have hhead : (name.toList ++ ':' :: ':' :: gapped argument).head? = some c := by
    rw [hcs]
    rfl
  have hspace : afterBegin? [' '] (':' :: ':' :: gapped argument) = none := rfl
  have hcolons : afterBegin? [':', ':'] (':' :: ':' :: gapped argument) = some (gapped argument) :=
    afterBegin?_eq_some.mpr rfl
  unfold directiveHead?
  rw [hassoc, hhead, nameTail_append hname.whole hne]
  simp only [Option.bind_eq_bind, Option.bind_some, halnum, hspace, Option.getD_none, hcolons, if_pos (gapped_ends _),
    trim_gapped h, String.ofList_toList]
  rfl

/-! ## The text of a directive -/

theorem numberedLines_eq (text : List Char) (first : Nat) :
    numberedLines text first =
      numberedFrom (fun n l => ⟨n, expandTabs (trimEnd l)⟩) first (Text.lines text) :=
  map_zipIdx_eq_numberedFrom (fun n l => (⟨n, expandTabs (trimEnd l)⟩ : Line)) first (Text.lines text)

/-- The name of a directive and its argument. -/
def headline (w : Draft) : List Char := w.name.toList ++ [':', ':'] ++ w.argumentText

/-- A line of a body that is indented by `k` spaces. A line without text may hold some spaces, too. -/
def padded (k pad : Nat) (l : List Char) : List Char :=
  if l.isEmpty then List.replicate pad ' ' else indented k l

/-- **The lines of a directive** with a body that is indented by `k` spaces. -/
def sourceLines (w : Draft) (k pad : Nat) : List (List Char) :=
  (['.', '.', ' '] ++ headline w) :: w.body.map (padded k pad)

/-- **The text of a directive.** -/
def source (w : Draft) (k pad : Nat) : List Char := endedLines (sourceLines w k pad)

theorem feed_tab_not_mem_replicate (k : Nat) : '\n' ∉ List.replicate k ' ' ∧ '\t' ∉ List.replicate k ' ' :=
  ⟨fun h => absurd (List.eq_of_mem_replicate h) (by decide),
    fun h => absurd (List.eq_of_mem_replicate h) (by decide)⟩

theorem isPlain_indented {l : List Char} (h : IsPlain l) (hne : l ≠ []) (k : Nat) : IsPlain (indented k l) :=
  .append (feed_tab_not_mem_replicate k) h hne

/-- What a reader sees of a line of the body. -/
theorem expandTabs_padded {l : List Char} (h : IsPlain l) (k pad : Nat) :
    expandTabs (trimEnd (padded k pad l)) = if l.isEmpty then [] else indented k l := by
  unfold padded
  split_ifs with hl
  · have hblank : (List.replicate pad ' ').all isBlank = true := by
      rw [List.all_eq_true]
      intro c hc
      rw [List.eq_of_mem_replicate hc]
      rfl
    unfold trimEnd
    rw [dropEndWhile_of_all _ _ hblank]
    rfl
  · exact (isPlain_indented h (by simpa using hl) k).expandTabs_trimEnd

theorem padded_feed {l : List Char} (h : IsPlain l) (k pad : Nat) :
    '\n' ∉ padded k pad l ∧ (padded k pad l).getLast? ≠ some '\r' := by
  unfold padded
  split_ifs with hl
  · refine ⟨(feed_tab_not_mem_replicate pad).1, fun hlast => ?_⟩
    exact absurd (List.eq_of_mem_replicate (List.mem_of_getLast? hlast)) (by decide)
  · have hplain := isPlain_indented h (by simpa using hl) k
    exact ⟨hplain.feed_not_mem, hplain.getLast?_ne⟩

theorem map_text_numberedFrom (n : Nat) (ls : List (List Char)) :
    (numberedFrom Line.mk n ls).map Line.text = ls :=
  (map_numberedFrom _ _ n ls).trans (numberedFrom_text n ls)

theorem isBlank_head {ls : List (List Char)} (h : ∀ l ∈ ls.head?, allBlank l = false) (n : Nat) :
    ∀ l ∈ (numberedFrom Line.mk n ls).head?, l.isBlank = false := by
  intro l hl
  refine h l.text ?_
  rw [← map_text_numberedFrom n ls, List.head?_map, Option.mem_def.mp hl]
  rfl

theorem isBlank_getLast {ls : List (List Char)} (h : ∀ l ∈ ls.getLast?, allBlank l = false) (n : Nat) :
    ∀ l ∈ (numberedFrom Line.mk n ls).getLast?, l.isBlank = false := by
  intro l hl
  refine h l.text ?_
  rw [← map_text_numberedFrom n ls, List.getLast?_map, Option.mem_def.mp hl]
  rfl

/-- The options of a directive are the lines at the beginning of its body that give one. -/
theorem invocationOf_eq (first : Line) (name : String) (argument : Option (List Char)) {body : List Line}
    {options : List (List Char)}
    (h : (body.map Line.text).takeWhile (fun l => (optionLine? l).isSome) = options) {content : List Line}
    (hcontent : dedent (trimBlank (body.drop options.length)) = content) :
    invocationOf first name argument body =
      ⟨name, argument, options.filterMap optionLine?, joinedText content, first.number,
        (content.head?.map Line.number).getD (first.number + 1)⟩ := by
  have hoptions : (body.map fun l => optionLine? l.text).takeWhile Option.isSome = options.map optionLine? :=
    calc (body.map fun l => optionLine? l.text).takeWhile Option.isSome
        = ((body.map Line.text).map optionLine?).takeWhile Option.isSome := by rw [List.map_map]; rfl
      _ = options.map optionLine? := by rw [List.takeWhile_map, ← h]; rfl
  unfold invocationOf
  dsimp only
  rw [hoptions, List.length_map, hcontent, List.filterMap_map]
  rfl

section

variable {w : Draft} (hw : w.WellFormed)

include hw

theorem isTight_headline : IsTight (headline w) := by
  have hname := Draft.isName_of_registered hw.registered
  have hblank : (w.name.toList ++ [':', ':']).any isBlank = false := by
    rw [List.any_append, hname.blank]
    rfl
  exact isTight_append_gapped (isTight_of_any hblank) (by simp) (Draft.isTight_argument hw)

theorem isPlain_first : IsPlain (['.', '.', ' '] ++ headline w) :=
  .append (by decide) (isTight_headline hw).toIsPlain (by simp [headline])

theorem lines_source (k pad : Nat) : Text.lines (source w k pad) = sourceLines w k pad := by
  have hall : ∀ l ∈ sourceLines w k pad, '\n' ∉ l ∧ l.getLast? ≠ some '\r' := by
    intro l hl
    rcases List.mem_cons.mp hl with rfl | hl
    · exact ⟨(isPlain_first hw).feed_not_mem, (isPlain_first hw).getLast?_ne⟩
    · obtain ⟨m, hm, rfl⟩ := List.mem_map.mp hl
      exact padded_feed (Draft.isPlain_of_mem_body hw hm) k pad
  exact lines_endedLines (fun l hl => (hall l hl).1) fun l hl => (hall l hl).2

/-- The lines that are read. -/
theorem numberedLines_source (k pad first : Nat) :
    numberedLines (source w k pad) first =
      ⟨first, ['.', '.', ' '] ++ headline w⟩ ::
        (numberedFrom Line.mk (first + 1) w.body).map (behind k) := by
  rw [numberedLines_eq, lines_source hw, sourceLines, numberedFrom, (isPlain_first hw).expandTabs_trimEnd,
    numberedFrom_map, map_numberedFrom]
  refine congrArg _ (numberedFrom_congr (fun l hl n => ?_) _)
  rw [expandTabs_padded (Draft.isPlain_of_mem_body hw hl)]
  rfl

/-! ## Reading a directive -/

/-- A line of the content that is not indented. -/
theorem exists_flush {ls : List (List Char)} (hsub : w.content ⊆ ls) (n : Nat) :
    ∃ l ∈ numberedFrom Line.mk n ls, l.isBlank = false ∧ l.indent = 0 := by
  obtain ⟨l, hl, hb, hspace⟩ := hw.flush
  obtain ⟨i, hi⟩ := List.mem_iff_getElem?.mp (hsub hl)
  refine ⟨⟨n + i, l⟩, mem_numberedFrom.mpr ⟨i, l, hi, rfl⟩, hb, ?_⟩
  cases l with
  | nil => rfl
  | cons c cs =>
    have hc : ¬(c == ' ') = true := by simpa using hspace
    have hspaces : (c :: cs).takeWhile (· == ' ') = [] := List.takeWhile_cons_of_neg hc
    exact congrArg List.length hspaces

/-- No blank line is at the ends of the content. -/
theorem trimBlank_content (n : Nat) :
    trimBlank (numberedFrom Line.mk n w.content) = numberedFrom Line.mk n w.content :=
  trimBlank_of_ends (isBlank_head (fun l hl => (hw.first l hl).1) n) (isBlank_getLast hw.last n)

/-- **The body of a directive** gives its options and its content. Blank lines at its ends may be gone. -/
theorem invocationOf_body (first : Line) (n : Nat) :
    invocationOf first w.name w.argument (trimBlank (numberedFrom Line.mk n w.body)) =
      { w.invocation first.number with contentLine := n + w.options.length + 1 } := by
  obtain ⟨l, ls, hcontent⟩ := List.exists_cons_of_ne_nil hw.ne_nil
  have hblank (n : Nat) : trimBlank (numberedFrom Line.mk n ([] :: w.content)) =
      numberedFrom Line.mk (n + 1) w.content :=
    (trimBlank_blank_cons rfl _).trans (trimBlank_content hw _)
  have hflush (n : Nat) : dedent (numberedFrom Line.mk n w.content) = numberedFrom Line.mk n w.content :=
    dedent_flush (exists_flush hw (List.Subset.refl _) n)
  have hline (n m : Nat) : ((numberedFrom Line.mk n w.content).head?.map Line.number).getD m = n := by
    rw [hcontent]
    rfl
  have htext (n : Nat) : joinedText (numberedFrom Line.mk n w.content) = joinLines w.content :=
    congrArg joinLines (map_text_numberedFrom n w.content)
  cases hoptions : w.options with
  | nil =>
    -- without options the blank line before the content is the first one, and gone
    have hbody : w.body = [] :: w.content := by
      rw [Draft.body, hoptions]
      rfl
    have hfirst : optionLine? l = none := (hw.first l (by rw [hcontent]; rfl)).2
    have hnone : ((numberedFrom Line.mk (n + 1) w.content).map Line.text).takeWhile
        (fun l => (optionLine? l).isSome) = [] := by
      rw [map_text_numberedFrom, hcontent]
      exact List.takeWhile_cons_of_neg (by simp [hfirst])
    rw [hbody, hblank, invocationOf_eq first w.name w.argument hnone
      ((congrArg dedent (trimBlank_content hw _)).trans (hflush _)), hline, htext]
    simp [Draft.invocation, hoptions]
  | cons o os =>
    have hends : trimBlank (numberedFrom Line.mk n w.body) = numberedFrom Line.mk n w.body := by
      refine trimBlank_of_ends (isBlank_head (fun l hl => ?_) n) (isBlank_getLast (Draft.last_body hw) n)
      rw [Draft.body, hoptions] at hl
      cases hl
      rfl
    have htake : ((numberedFrom Line.mk n w.body).map Line.text).takeWhile
        (fun l => (optionLine? l).isSome) = w.options.map fun o => optionText o.1 o.2 := by
      rw [map_text_numberedFrom]
      exact Draft.takeWhile_body hw
    have hdrop : (numberedFrom Line.mk n w.body).drop (w.options.map fun o => optionText o.1 o.2).length =
        numberedFrom Line.mk (n + w.options.length) ([] :: w.content) := by
      rw [Draft.body, numberedFrom_append, List.length_map]
      exact List.drop_left' (by rw [length_numberedFrom, List.length_map])
    rw [hends, invocationOf_eq first w.name w.argument htake
      ((congrArg (fun ls => dedent (trimBlank ls)) hdrop).trans ((congrArg dedent (hblank _)).trans (hflush _))),
      hline, htext, Draft.filterMap_options hw, hoptions]
    simp [Draft.invocation, hoptions]

/-- **A directive with an indented body** is read as it was meant. -/
theorem explicitMarkup_draft {k : Nat} (hk : 0 < k) (first : Nat) :
    explicitMarkup ⟨first, ['.', '.', ' '] ++ headline w⟩
        ((numberedFrom Line.mk (first + 1) w.body).map (behind k)) =
      ([.directive (w.invocation first)], []) := by
  have hblock := indentedBlock_behind hk (isBlank_getLast (Draft.last_body hw) (first + 1))
  have hhead : directiveHead? (trim ((['.', '.', ' '] ++ headline w).drop 2)) = some (w.name, w.argument) := by
    have htrim : trim (' ' :: headline w) = headline w := (isTight_headline hw).trim
    calc directiveHead? (trim ((['.', '.', ' '] ++ headline w).drop 2))
        = directiveHead? (headline w) := congrArg directiveHead? htrim
      _ = some (w.name, w.argument) := by
        rw [headline, Draft.argumentText,
          directiveHead?_append (Draft.isName_of_registered hw.registered) (Draft.isTight_argument hw),
          Draft.argument_eq hw]
  have hbody : dedent (trimBlank ((numberedFrom Line.mk (first + 1) w.body).map (behind k))) =
      trimBlank (numberedFrom Line.mk (first + 1) w.body) := by
    have hsub : w.content ⊆ w.body := fun l hl => List.mem_append_right _ (List.mem_cons_of_mem [] hl)
    obtain ⟨l, hl, hb, hi⟩ := exists_flush hw hsub (first + 1)
    rw [trimBlank_map (isBlank_behind k)]
    exact dedent_behind ⟨l, mem_trimBlank hl hb, hb, hi⟩ k
  have hline : first + 1 + w.options.length + 1 = first + w.options.length + 2 := by omega
  unfold explicitMarkup
  dsimp only
  rw [hblock, hhead, hbody, List.drop_length]
  dsimp only
  rw [invocationOf_body hw, hline]
  rfl

/-- **Nothing else is read of its text.** -/
theorem nextBlock_draft {k : Nat} (hk : 0 < k) (first : Nat) :
    nextBlock ⟨first, ['.', '.', ' '] ++ headline w⟩
        ((numberedFrom Line.mk (first + 1) w.body).map (behind k)) =
      ([.directive (w.invocation first)], []) := by
  have hmarkup : isExplicitMarkup (['.', '.', ' '] ++ headline w) = true := by
    unfold isExplicitMarkup
    rw [afterBegin?_eq_some.mpr rfl]
    exact Bool.or_true _
  have hindent : ¬0 < (⟨first, ['.', '.', ' '] ++ headline w⟩ : Line).indent := Nat.lt_irrefl 0
  unfold nextBlock
  rw [if_neg hindent, if_pos hmarkup]
  exact explicitMarkup_draft hw hk first

end

end Transcript.Rst
