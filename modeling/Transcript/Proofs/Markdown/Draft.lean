import Transcript.Proofs.Markdown.Place
import Transcript.Proofs.Rst.Draft

/-!
# Directives in Markdown

A directive stands between fences of colons. Its body is not indented: it ends at the fence that closes it,
its options are its first lines, and blank lines at the ends of what is left are not content.

Results:
* `chunks_source`: a directive between fences is read as it was meant.
* `readers_agree`: both formats give the same invocation.
-/

namespace Transcript.Markdown

open Doc Text

/-! ## Lines that are no fences -/

/-- A line that gives an option is no fence. -/
theorem unfenced_optionText {key value : List Char} (hkey : IsKey key) (hvalue : IsTight value) :
    colonFence? (optionText key value) = none ∧ closingWidth? (optionText key value) = none := by
  obtain ⟨c, cs, rfl⟩ := List.exists_cons_of_ne_nil hkey.ne_nil
  have hc : (c == ':') = false := beq_false_of_ne fun h => hkey.colon_not_mem (h ▸ List.mem_cons_self)
  constructor
  · have hrun : runLength ':' (optionText (c :: cs) value) = 1 := by
      simp [runLength, optionText, hc]
    have hmargin : dropMargin (optionText (c :: cs) value) = optionText (c :: cs) value :=
      dropMargin_cons (by decide) _
    unfold colonFence?
    dsimp only
    rw [hmargin, hrun]
    rfl
  · unfold closingWidth?
    rw [(isTight_optionText hkey hvalue).trim]
    simp [optionText, hc]

/-- A body without fences goes on to the fence that closes it. -/
theorem bodyOf_unfenced {width : Nat} {lines : List Numbered}
    (h : ∀ l ∈ lines, colonFence? l.text = none ∧ closingWidth? l.text = none) {closing : Numbered}
    (hcolon : colonFence? closing.text = none) (hclosing : closingWidth? closing.text = some width) :
    bodyOf width [] (lines ++ [closing]) = lines := by
  induction lines with
  | nil =>
    have hnone : innerAfter? width [] closing.text = none := by
      unfold innerAfter?
      rw [hcolon, hclosing]
      exact if_pos (Nat.le_refl width)
    rw [List.nil_append, bodyOf_cons, hnone]
  | cons l ls ih =>
    obtain ⟨⟨hl, hl'⟩, hls⟩ := List.forall_mem_cons.mp h
    have hsome : innerAfter? width [] l.text = some [] := by
      unfold innerAfter?
      rw [hl, hl']
    rw [List.cons_append, bodyOf_cons, hsome]
    exact congrArg _ (ih hls)

/-! ## The text of a directive -/

/-- The line that opens a directive. -/
def opening (w : Draft) : List Char :=
  [':', ':', ':', '\x7b'] ++ w.name.toList ++ ['\x7d'] ++ w.argumentText

/-- The line that closes a directive. -/
def closing : List Char := [':', ':', ':']

/-- **The lines of a directive** between fences of colons. -/
def sourceLines (w : Draft) : List (List Char) := opening w :: w.body ++ [closing]

/-- **The text of a directive.** -/
def source (w : Draft) : List Char := endedLines (sourceLines w)

section

variable {w : Draft} (hw : w.WellFormed)

include hw

theorem isTight_opening : IsTight (opening w) := by
  have hname := Draft.isName_of_registered hw.registered
  have hblank : ([':', ':', ':', '\x7b'] ++ w.name.toList ++ ['\x7d']).any isBlank = false := by
    rw [List.any_append, List.any_append, hname.blank]
    rfl
  exact isTight_append_gapped (isTight_of_any hblank) (by simp) (Draft.isTight_argument hw)

theorem isPlain_of_mem_sourceLines {l : List Char} (h : l ∈ sourceLines w) : IsPlain l := by
  rcases List.mem_cons.mp h with rfl | h
  · exact (isTight_opening hw).toIsPlain
  · rcases List.mem_append.mp h with h | h
    · exact Draft.isPlain_of_mem_body hw h
    · rw [List.mem_singleton.mp h]
      exact (isTight_of_any (by decide)).toIsPlain

theorem lines_source : Text.lines (source w) = sourceLines w :=
  lines_endedLines (fun _ hl => (isPlain_of_mem_sourceLines hw hl).feed_not_mem)
    fun _ hl => (isPlain_of_mem_sourceLines hw hl).getLast?_ne

/-- **The line that opens a directive** is read as it is written. -/
theorem colonFence?_opening :
    codeFence? (opening w) = none ∧
      colonFence? (opening w) = some (3, w.name.toList, w.argument.getD []) := by
  have hname := Draft.isName_of_registered hw.registered
  obtain ⟨c, cs, hcs, -⟩ := hname.exists_head
  have hne : w.name.toList.isEmpty = false := by
    rw [hcs]
    rfl
  have hmargin : dropMargin (opening w) = opening w := dropMargin_cons (by decide) _
  have hopening : opening w = ':' :: ':' :: ':' :: '\x7b' :: (w.name.toList ++ '\x7d' :: w.argumentText) := by
    simp [opening]
  constructor
  · unfold codeFence?
    rw [hmargin, hopening]
    rfl
  · have hinside : ∀ d ∈ w.name.toList, (d != '\x7d' && !isBlank d) = true := by
      intro d hd
      have hblank : isBlank d = false := by simpa using List.any_eq_false.mp hname.blank d hd
      have hbrace : d ≠ '\x7d' := fun h => hname.brace (h ▸ hd)
      simp [hblank, hbrace]
    have htake : (w.name.toList ++ '\x7d' :: w.argumentText).takeWhile
        (fun c => c != '\x7d' && !isBlank c) = w.name.toList := by
      rw [List.takeWhile_append_of_pos hinside, List.takeWhile_cons_of_neg (by simp), List.append_nil]
    have hbegin (s : List Char) (d : Char) : afterBegin? [d] (d :: s) = some s := afterBegin?_eq_some.mpr rfl
    have hrun : runLength ':' (opening w) = 3 := by
      rw [hopening]
      rfl
    have hdrop : ((opening w).drop 3).dropWhile isGap =
        '\x7b' :: (w.name.toList ++ '\x7d' :: w.argumentText) := by
      rw [hopening]
      rfl
    unfold colonFence?
    dsimp only
    rw [hmargin, hrun, hdrop, hbegin]
    simp only [Option.bind_eq_bind, Option.bind_some, htake, List.drop_left, hbegin, hne]
    rw [Draft.argumentText, trim_gapped (Draft.isTight_argument hw)]
    rfl

theorem unfenced_body {l : List Char} (h : l ∈ w.body) : colonFence? l = none ∧ closingWidth? l = none := by
  rcases List.mem_append.mp h with h | h
  · obtain ⟨o, ho, rfl⟩ := List.mem_map.mp h
    exact unfenced_optionText (hw.keys o ho) (hw.values o ho)
  · rcases List.mem_cons.mp h with rfl | h
    · exact ⟨rfl, rfl⟩
    · exact hw.unfenced l h

/-! ## Reading a directive -/

/-- Entries between fences are no options of a directive: its body begins with an option or a blank line. -/
theorem bodyOptions_body :
    bodyOptions w.body = (w.options.map fun o => (String.ofList o.1, o.2), w.options.length) := by
  have hmatter : ∀ l ∈ w.body.head?, isMatterFence l = false := by
    intro l hl
    cases hoptions : w.options with
    | nil =>
      rw [Draft.body, hoptions] at hl
      cases hl
      rfl
    | cons o os =>
      rw [Draft.body, hoptions] at hl
      cases hl
      have ho : o ∈ w.options := hoptions ▸ List.mem_cons_self
      unfold isMatterFence
      rw [(isTight_optionText (hw.keys o ho) (hw.values o ho)).trim]
      rfl
  have htake := Draft.takeWhile_body hw
  obtain ⟨l, ls, hbody⟩ := List.exists_cons_of_ne_nil (l := w.body) (by simp [Draft.body])
  rw [hbody] at hmatter htake ⊢
  unfold bodyOptions
  dsimp only
  rw [if_neg (by simp [hmatter l rfl]), htake, Draft.filterMap_options hw, List.length_map]

/-- **The body of a directive** gives its options and its content. -/
theorem invocationOf_body (line : Nat) :
    invocationOf w.name.toList (w.argument.getD []) w.body line = w.invocation line := by
  have hfirst : ([] :: w.content).dropWhile allBlank = w.content := by
    obtain ⟨l, ls, hcontent⟩ := List.exists_cons_of_ne_nil hw.ne_nil
    have hl : allBlank l = false := (hw.first l (by rw [hcontent]; rfl)).1
    rw [List.dropWhile_cons_of_pos rfl, hcontent, List.dropWhile_cons_of_neg (by simp [hl])]
  have hlast : (w.content.reverse.dropWhile allBlank).reverse = w.content := dropWhile_reverse_of_last hw.last
  have hdrop : w.body.drop w.options.length = [] :: w.content := List.drop_left' (List.length_map _)
  unfold invocationOf
  rw [bodyOptions_body hw]
  dsimp only
  rw [hdrop, hfirst, hlast, Draft.argument_eq hw, List.length_cons, String.ofList_toList]
  have hline : line + 1 + w.options.length + (w.content.length + 1 - w.content.length) =
      line + w.options.length + 2 := by omega
  rw [hline]
  rfl

/-- **A directive between fences** is read as it was meant, and nothing else. -/
theorem chunks_source (first : Nat) :
    (chunks (numbered (source w) first)).flatMap Chunk.parts = [.directive (w.invocation first)] := by
  obtain ⟨hcode, hcolon⟩ := colonFence?_opening hw
  have hunfenced : ∀ l ∈ numberedFrom Numbered.mk (first + 1) w.body,
      colonFence? l.text = none ∧ closingWidth? l.text = none := by
    intro l hl
    obtain ⟨i, text, htext, rfl⟩ := mem_numberedFrom.mp hl
    exact unfenced_body hw (List.mem_of_getElem? htext)
  have hlast : numberedFrom Numbered.mk (first + 1 + w.body.length) [closing] =
      [⟨first + 1 + w.body.length, closing⟩] := rfl
  have hbody : bodyOf 3 [] (numberedFrom Numbered.mk (first + 1) w.body ++
      [⟨first + 1 + w.body.length, closing⟩]) = numberedFrom Numbered.mk (first + 1) w.body :=
    bodyOf_unfenced hunfenced rfl rfl
  have hnil (n : Nat) : chunksFrom n [] none [] = [] := by
    cases n with
    | zero => rfl
    | succ n => rfl
  rw [numbered_eq, lines_source hw, sourceLines, List.cons_append, numberedFrom, numberedFrom_append, hlast]
  unfold chunks
  rw [List.length_cons, chunksFrom]
  dsimp only
  rw [hcode, hcolon]
  dsimp only
  rw [hbody, List.drop_left]
  change (plainChunk [] ++ Chunk.directive w.name.toList (w.argument.getD []) _ _ _ ::
    chunksFrom _ [] none []).flatMap Chunk.parts = _
  rw [hnil]
  change [Part.directive (invocationOf w.name.toList (w.argument.getD [])
    ((numberedFrom Numbered.mk (first + 1) w.body).map Numbered.text) first)] = _
  rw [map_text_numberedFrom, invocationOf_body hw]

/-! ## Both formats -/

/-- **Both formats give the same invocation,** with the same name, argument, options and content, however far
the body is indented in reStructuredText and whatever spaces blank lines hold there. Nothing else is read of
either text, and the content begins in both at the line that the invocation tells. -/
theorem readers_agree {k : Nat} (hk : 0 < k) (pad first : Nat) :
    (∃ l ls, numberedLines (Rst.source w k pad) first = l :: ls ∧ l.isBlank = false ∧
      Rst.nextBlock l ls = ([.directive (w.invocation first)], [])) ∧
    (chunks (numbered (source w) first)).flatMap Chunk.parts = [.directive (w.invocation first)] ∧
    (Text.lines (Rst.source w k pad)).drop ((w.invocation first).contentLine - first) =
      w.content.map (Rst.padded k pad) ∧
    (Text.lines (source w)).drop ((w.invocation first).contentLine - first) = w.content ++ [closing] := by
  have hline : (w.invocation first).contentLine - first = (w.options.length + 1) + 1 := by
    have hcontent : (w.invocation first).contentLine = first + w.options.length + 2 := rfl
    omega
  have hcontent : w.body.drop (w.options.length + 1) = w.content := by
    have hdrop := w.drop_body []
    rwa [List.append_nil, List.append_nil] at hdrop
  refine ⟨⟨_, _, Rst.numberedLines_source hw k pad first, rfl, Rst.nextBlock_draft hw hk first⟩,
    chunks_source hw first, ?_, ?_⟩
  · rw [Rst.lines_source hw, hline, Rst.sourceLines, List.drop_succ_cons, ← List.map_drop, hcontent]
  · rw [lines_source hw, hline, sourceLines, List.cons_append, List.drop_succ_cons, w.drop_body]

end

/-- A tested block with an argument, options and a blank line in its content. -/
def testDraft : Draft where
  name := "doctest"
  argument := some "shell".toList
  options := [("options".toList, "+SKIP".toList), ("hide".toList, [])]
  content := [">>> one".toList, [], "  1".toList]

theorem wellFormed_testDraft : testDraft.WellFormed where
  registered := by decide
  argument := by
    rintro a ⟨⟩
    exact ⟨by decide, isTight_of_any (by decide)⟩
  keys := by
    have hkey (key : List Char) (hne : key ≠ []) (hcolon : ':' ∉ key) (h : key.any isBlank = false) :
        IsKey key :=
      have htight := isTight_of_any h
      ⟨hne, hcolon, htight.feed_not_mem, htight.tab_not_mem, htight.starts⟩
    refine List.forall_mem_cons.mpr ⟨hkey _ (by decide) (by decide) (by decide), ?_⟩
    exact List.forall_mem_singleton.mpr (hkey _ (by decide) (by decide) (by decide))
  values := List.forall_mem_cons.mpr
    ⟨isTight_of_any (by decide), List.forall_mem_singleton.mpr isTight_nil⟩
  ne_nil := by decide
  plain := by
    have hplain (l : List Char) (hfeed : '\n' ∉ l) (htab : '\t' ∉ l) (hlast : l.getLast?.any isBlank = false) :
        IsPlain l :=
      ⟨hfeed, htab, fun c hc => by simpa [Option.mem_def.mp hc] using hlast⟩
    refine List.forall_mem_cons.mpr ⟨hplain _ (by decide) (by decide) (by decide), ?_⟩
    refine List.forall_mem_cons.mpr ⟨isPlain_nil, ?_⟩
    exact List.forall_mem_singleton.mpr (hplain _ (by decide) (by decide) (by decide))
  first := by
    rintro l ⟨⟩
    decide
  last := by
    rintro l ⟨⟩
    decide
  flush := by decide
  unfenced := by decide

theorem readers_agree_testDraft :
    testDraft.WellFormed ∧ 0 < 3 ∧
      Rst.source testDraft 3 0 =
        ".. doctest:: shell\n   :options: +SKIP\n   :hide:\n\n   >>> one\n\n     1\n".toList ∧
      source testDraft =
        ":::\x7bdoctest\x7d shell\n:options: +SKIP\n:hide:\n\n>>> one\n\n  1\n:::\n".toList ∧
      (∃ l ls, numberedLines (Rst.source testDraft 3 0) 1 = l :: ls ∧ l.isBlank = false ∧
        Rst.nextBlock l ls = ([.directive (testDraft.invocation 1)], [])) ∧
      (chunks (numbered (source testDraft) 1)).flatMap Chunk.parts = [.directive (testDraft.invocation 1)] ∧
      (testDraft.invocation 1).contentLine = 5 := by
  obtain ⟨hread, hchunks, -⟩ := readers_agree wellFormed_testDraft (by decide : 0 < 3) 0 1
  exact ⟨wellFormed_testDraft, by decide, by decide, by decide, hread, hchunks, rfl⟩

end Transcript.Markdown
