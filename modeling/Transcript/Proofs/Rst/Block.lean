import Transcript.Proofs.Doc.Part
import Transcript.Rst.Reader

/-!
# Blocks and their lines

A block takes lines from the beginning of a text. Whatever it is read as, its parts come from the
lines it has taken: their texts stand in the document where the parts say they do.

Results:
* `nextBlock_takes`: a block takes its first line and some of the lines after it, and its parts come
  from these.
-/

namespace Transcript.Rst

open Doc

/-- **A part comes from lines** if its text does. -/
def Piece.Fits (lines : List Line) : Piece → Prop
  | .node n => n.Fits lines
  | .trouble .. => True
  | .container _ body => IsPart lines body
  | .directive inv => HasText lines inv.content inv.contentLine

theorem Piece.Fits.mono {lines lines' : List Line} (hsub : lines ⊆ lines') {p : Piece}
    (h : p.Fits lines) : p.Fits lines' := by
  cases p with
  | node n => exact Node.Fits.mono hsub h
  | trouble => trivial
  | container => exact IsPart.mono hsub h
  | directive => exact HasText.mono hsub h

/-- Consecutive plain lines, as readers get them. -/
structure AreLines (lines : List Line) : Prop where
  /-- They are plain. -/
  plain : ArePlain lines
  /-- They are consecutive. -/
  consecutive : lines.IsChain fun a b => b.number = a.number + 1

theorem AreLines.isPart {lines : List Line} (h : AreLines lines) : IsPart lines lines :=
  isPart_self h.consecutive

theorem AreLines.of_isPart {doc lines : List Line} (hdoc : ArePlain doc) (h : IsPart doc lines) :
    AreLines lines :=
  ⟨h.arePlain hdoc, h.consecutive⟩

theorem AreLines.of_isInfix {lines part : List Line} (h : AreLines lines) (hp : part <:+: lines) :
    AreLines part :=
  ⟨fun l hl => h.plain l (hp.subset hl), List.IsChain.infix h.consecutive hp⟩

/-- Numbers count up. -/
theorem AreLines.pairwise {lines : List Line} (h : AreLines lines) :
    lines.Pairwise fun a b => a.number < b.number := by
  have hstep : lines.IsChain fun a b => a.number < b.number := h.consecutive.imp fun a b hab => by omega
  exact hstep.pairwise

/-- Lines before and after a line have other numbers. -/
theorem AreLines.number_ne (before : List Line) {after : List Line} {l : Line}
    (h : AreLines (before ++ l :: after)) :
    (∀ p ∈ before, p.number ≠ l.number) ∧ ∀ p ∈ after, p.number ≠ l.number := by
  obtain ⟨-, hafter, hbefore⟩ := List.pairwise_append.mp h.pairwise
  refine ⟨fun p hp => ?_, fun p hp => ?_⟩
  · exact Nat.ne_of_lt (hbefore p hp l List.mem_cons_self)
  · exact Nat.ne_of_gt ((List.pairwise_cons.mp hafter).1 p hp)

/-- The node of a text that begins on its first line. -/
theorem fits_atLine {lines : List Line} (h : AreLines lines) {first : Line}
    (hf : lines.head? = some first) {kind : NodeKind}
    (hkind : kind ≠ .section) : (Node.atLine kind (joinedText lines) first.number).Fits lines where
  children := rfl
  text := fun _ => h.isPart.hasText h.plain hf
  title := fun hsection => absurd hsection hkind

/-- A node that shows nothing of the document and is no title comes from anywhere. -/
theorem fits_of_not_verbatim (lines : List Line) {n : Node} (h : n.isVerbatim = false)
    (hkind : n.kind ≠ .section) (hchildren : n.children = []) : n.Fits lines where
  children := hchildren
  text := by
    intro hn
    rw [h] at hn
    cases hn
  title := fun hsection => absurd hsection hkind

/-- A title comes from its line. -/
theorem fits_title {lines : List Line} {l : Line} (h : l ∈ lines) (hb : l.isBlank = false)
    (text : List Char) : (titleNode text l.number).Fits lines where
  children := rfl
  text := fun hn => by cases hn
  title := fun _ => ⟨l, h, Line.text_ne_nil hb, rfl⟩

/-! ## Indented blocks -/

theorem dropBlankEnd_cons {first : Line} (hb : first.isBlank = false) (rest : List Line) :
    dropBlankEnd (first :: rest) = first :: dropBlankEnd rest := by
  have hone : [first].dropWhile Line.isBlank = [first] := by simp [hb]
  have hdrop : (rest.reverse ++ [first]).dropWhile Line.isBlank =
      rest.reverse.dropWhile Line.isBlank ++ [first] := by
    rw [List.dropWhile_append, hone]
    split_ifs with h
    · rw [List.isEmpty_iff.mp h, List.nil_append]
    · rfl
  unfold dropBlankEnd
  rw [List.reverse_cons, hdrop, List.reverse_append]
  rfl

theorem indentedBlock_cons {indent : Nat} {first : Line} (hb : first.isBlank = false)
    (hi : indent ≤ first.indent) (rest : List Line) :
    ∃ more, indentedBlock indent (first :: rest) = first :: more ∧ more <+: rest := by
  have hw : first.within indent = true := by
    unfold Line.within
    simp [hi]
  unfold indentedBlock
  rw [List.takeWhile_cons_of_pos hw, dropBlankEnd_cons hb]
  exact ⟨_, rfl, (dropBlankEnd_isPrefix _).trans (List.takeWhile_prefix _)⟩

theorem trimBlank_cons {first : Line} (hb : first.isBlank = false) (rest : List Line) :
    trimBlank (first :: rest) = first :: dropBlankEnd rest := by
  unfold trimBlank
  rw [List.dropWhile_cons_of_neg (by simp [hb]), dropBlankEnd_cons hb]

theorem textBlock_cons {first : Line} (hb : first.isBlank = false) (rest : List Line) :
    textBlock (first :: rest) = first :: textBlock rest := by
  unfold textBlock
  exact List.takeWhile_cons_of_pos (by simp [hb])

/-! ## The kinds of blocks -/

section

variable {first : Line} {rest : List Line} (hlines : AreLines (first :: rest))
  (hb : first.isBlank = false)

/-- **A block takes its first line** and lines after it, and all parts come from them. -/
def TakesFrom (first : Line) (rest : List Line) (taken : Taken) : Prop :=
  ∃ block, rest = block ++ taken.2 ∧ ∀ p ∈ taken.1, p.Fits (first :: block)

include hlines hb in
theorem blockQuote_takes (hi : 0 < first.indent) : TakesFrom first rest (blockQuote first rest) := by
  obtain ⟨more, hblock, hmore⟩ := indentedBlock_cons hb hi rest
  have hlines' : AreLines (first :: more) :=
    hlines.of_isInfix (List.cons_prefix_cons.mpr ⟨rfl, hmore⟩).isInfix
  obtain ⟨after, rfl⟩ := hmore
  unfold blockQuote
  rw [hblock]
  refine ⟨more, by simp, fun p hp => ?_⟩
  rw [List.mem_singleton.mp hp]
  exact (hlines'.isPart.of_isInfix (trimBlank_isInfix _)).dedent

include hlines in
theorem listItem_takes (width : Nat) : TakesFrom first rest (listItem width first rest) := by
  have hprefix : indentedBlock width rest <+: rest := indentedBlock_isPrefix width rest
  have hlines' : AreLines (first :: indentedBlock width rest) :=
    hlines.of_isInfix (List.cons_prefix_cons.mpr ⟨rfl, hprefix⟩).isInfix
  unfold listItem
  refine ⟨indentedBlock width rest, (List.prefix_iff_eq_append.mp hprefix).symm, fun p hp => ?_⟩
  rw [List.mem_singleton.mp hp]
  exact (hlines'.isPart.cut width).of_isInfix (trimBlank_isInfix _)

/-- The content of a directive comes from its body, where the directive says. -/
theorem invocationOf_fits {lines body : List Line} (hplain : ArePlain lines)
    (hbody : IsPart lines body) (first : Line) (name : String) (argument : Option (List Char)) :
    HasText lines (invocationOf first name argument body).content
      (invocationOf first name argument body).contentLine := by
  unfold invocationOf
  dsimp only
  generalize ((body.map fun l => optionLine? l.text).takeWhile Option.isSome).length = skipped
  have hcontent : IsPart lines (dedent (trimBlank (body.drop skipped))) :=
    (hbody.of_isInfix ((trimBlank_isInfix _).trans (List.drop_suffix skipped body).isInfix)).dedent
  cases hhead : (dedent (trimBlank (body.drop skipped))).head? with
  | none =>
    rw [List.head?_eq_none_iff.mp hhead]
    exact hasText_nil lines _
  | some l => exact hcontent.hasText hplain hhead

include hlines in
theorem explicitMarkup_takes : TakesFrom first rest (explicitMarkup first rest) := by
  have hprefix : indentedBlock 1 rest <+: rest := indentedBlock_isPrefix 1 rest
  have hlines' : AreLines (first :: indentedBlock 1 rest) :=
    hlines.of_isInfix (List.cons_prefix_cons.mpr ⟨rfl, hprefix⟩).isInfix
  have hbody : IsPart (first :: indentedBlock 1 rest) (dedent (trimBlank (indentedBlock 1 rest))) :=
    (hlines'.isPart.of_isInfix ((trimBlank_isInfix _).trans (List.suffix_cons first _).isInfix)).dedent
  unfold explicitMarkup
  refine ⟨indentedBlock 1 rest, (List.prefix_iff_eq_append.mp hprefix).symm, fun p hp => ?_⟩
  rw [List.mem_singleton.mp hp]
  split
  · exact fits_of_not_verbatim _ rfl (by simp [Node.atLine, Node.make]) rfl
  · exact invocationOf_fits hlines'.plain hbody first _ _

include hb in
theorem overlined?_takes {taken : Taken} (h : overlined? first rest = some taken) :
    TakesFrom first rest taken := by
  unfold overlined? at h
  obtain ⟨c, -, h⟩ := Option.bind_eq_some_iff.mp h
  rcases rest with _ | ⟨title, _ | ⟨under, after⟩⟩
  · cases h
  · cases h
  · dsimp only at h
    split_ifs at h with hunder
    · cases h
      rw [Bool.and_eq_true, Bool.not_eq_true'] at hunder
      refine ⟨[title, under], rfl, fun p hp => ?_⟩
      rw [List.mem_singleton.mp hp]
      exact fits_title List.mem_cons_self hb _

include hb in
theorem underlined?_takes {taken : Taken} (h : underlined? first rest = some taken) :
    TakesFrom first rest taken := by
  unfold underlined? at h
  rcases rest with _ | ⟨under, after⟩
  · cases h
  · dsimp only at h
    split at h
    · split at h
      · cases h
        refine ⟨[under], rfl, fun p hp => ?_⟩
        rw [List.mem_singleton.mp hp]
        exact fits_title List.mem_cons_self hb _
      · split at h
        · cases h
        · cases h
          refine ⟨[under], rfl, fun p hp => ?_⟩
          rcases List.mem_cons.mp hp with rfl | hp
          · trivial
          · rw [List.mem_singleton.mp hp]
            exact fits_title List.mem_cons_self hb _
    · cases h

include hb in
theorem section?_takes {taken : Taken} (h : section? first rest = some taken) :
    TakesFrom first rest taken := by
  unfold section? at h
  split at h
  · rename_i hover
    cases h
    exact overlined?_takes hb hover
  · split_ifs at h
    · cases h
      exact ⟨[], rfl, fun p hp => absurd hp List.not_mem_nil⟩
    · exact underlined?_takes hb h

include hlines in
theorem doctestBlock_takes : TakesFrom first rest (doctestBlock first rest) := by
  have hprefix : textBlock rest <+: rest := textBlock_isPrefix rest
  have hlines' : AreLines (first :: textBlock rest) :=
    hlines.of_isInfix (List.cons_prefix_cons.mpr ⟨rfl, hprefix⟩).isInfix
  unfold doctestBlock
  refine ⟨textBlock rest, (List.prefix_iff_eq_append.mp hprefix).symm, fun p hp => ?_⟩
  rw [List.mem_singleton.mp hp]
  exact fits_atLine hlines' rfl (by decide)

/-- A literal block takes lines from the beginning of a text. -/
theorem literalBlock_takes {lines : List Line} (h : AreLines lines) (last : Nat) :
    ∃ block, lines = block ++ (literalBlock last lines).2 ∧
      ∀ p ∈ (literalBlock last lines).1, p.Fits block := by
  have htrouble (block : List Line) (l : Nat) (t : Trouble) : ∀ p ∈ [Piece.trouble l t], p.Fits block := by
    intro p hp
    rw [List.mem_singleton.mp hp]
    trivial
  unfold literalBlock
  cases hdrop : lines.dropWhile Line.isBlank with
  | nil => exact ⟨lines, (List.append_nil lines).symm, htrouble lines _ _⟩
  | cons first rest =>
    obtain ⟨blanks, hblanks⟩ := List.dropWhile_suffix Line.isBlank (l := lines)
    rw [hdrop] at hblanks
    have hb : first.isBlank = false := by
      have := List.head?_dropWhile_not Line.isBlank lines
      rw [hdrop] at this
      simpa using this
    have hlines : AreLines (first :: rest) := h.of_isInfix ⟨blanks, [], by simpa using hblanks⟩
    have take_block {more : List Line} (hmore : more <+: rest) {pieces : List Piece}
        (hp : ∀ p ∈ pieces, p.Fits (first :: more)) :
        ∃ block, lines = block ++ (first :: rest).drop (first :: more).length ∧
          ∀ p ∈ pieces, p.Fits block := by
      refine ⟨blanks ++ first :: more, ?_, fun p hpiece => ?_⟩
      · rw [← hblanks, List.length_cons, List.drop_succ_cons, List.append_assoc, List.cons_append,
          List.prefix_iff_eq_append.mp hmore]
      · exact (hp p hpiece).mono (List.subset_append_right _ _)
    dsimp only
    split_ifs with hi
    · obtain ⟨more, hblock, hmore⟩ := indentedBlock_cons hb hi rest
      have hlines' : AreLines (first :: more) :=
        hlines.of_isInfix (List.cons_prefix_cons.mpr ⟨rfl, hmore⟩).isInfix
      rw [hblock]
      refine take_block hmore fun p hp => ?_
      rw [List.mem_singleton.mp hp]
      have hpart : IsPart (first :: more) (dedent (trimBlank (first :: more))) :=
        (hlines'.isPart.of_isInfix (trimBlank_isInfix _)).dedent
      refine ⟨rfl, fun _ => ?_, fun hsection => by cases hsection⟩
      refine hpart.hasText hlines'.plain (l := first.cut (commonIndent (trimBlank (first :: more)))) ?_
      rw [trimBlank_cons hb]
      rfl
    · split
      · exact ⟨blanks, hblanks.symm, htrouble blanks _ _⟩
      · have hmore : textBlock rest <+: rest := textBlock_isPrefix rest
        have hlines' : AreLines (first :: textBlock rest) :=
          hlines.of_isInfix (List.cons_prefix_cons.mpr ⟨rfl, hmore⟩).isInfix
        rw [textBlock_cons hb]
        refine take_block hmore fun p hp => ?_
        rcases List.mem_append.mp hp with hp | hp
        · split_ifs at hp
          · exact htrouble _ _ _ p hp
          · exact absurd hp List.not_mem_nil
        · rw [List.mem_singleton.mp hp]
          exact fits_atLine hlines' rfl (by decide)

include hlines in
theorem paragraph_takes : TakesFrom first rest (paragraph first rest) := by
  have hprefix := List.takeWhile_prefix (fun l : Line => !l.isBlank && l.indent == 0) (l := rest)
  obtain ⟨after, hafter⟩ := hprefix
  unfold paragraph
  generalize rest.takeWhile (fun l : Line => !l.isBlank && l.indent == 0) = more at hafter ⊢
  subst hafter
  dsimp only
  rw [List.drop_left]
  have hnode (block : List Line) (text : List Char) : ∀ p ∈ (if text.isEmpty then []
      else [Piece.node (.atLine .paragraph text first.number)]), p.Fits block := by
    intro p hp
    split_ifs at hp
    · exact absurd hp List.not_mem_nil
    · rw [List.mem_singleton.mp hp]
      exact fits_of_not_verbatim _ rfl (by simp [Node.atLine, Node.make]) rfl
  split
  · exact ⟨more, rfl, hnode _ _⟩
  · have hafter : AreLines after :=
      hlines.of_isInfix ((List.suffix_append more after).trans (List.suffix_cons first _)).isInfix
    obtain ⟨block, hblock, hpieces⟩ :=
      literalBlock_takes hafter (((first :: (more ++ after)).getLast?.map Line.number).getD 1)
    refine ⟨more ++ block, ?_, fun p hp => ?_⟩
    · rw [List.append_assoc, ← hblock]
    · rcases List.mem_append.mp hp with hp | hp
      · exact hnode _ _ p hp
      · exact (hpieces p hp).mono fun l hl =>
          List.mem_cons_of_mem first (List.mem_append_right more hl)

include hlines hb in
/-- **The block that begins with a line** takes it and lines after it, and all its parts come from
them. -/
theorem nextBlock_takes : TakesFrom first rest (nextBlock first rest) := by
  unfold nextBlock
  split
  · exact blockQuote_takes hlines hb ‹_›
  · split
    · exact explicitMarkup_takes hlines
    · split
      · exact section?_takes hb ‹_›
      · split
        · exact listItem_takes hlines _
        · split
          · exact doctestBlock_takes hlines
          · exact paragraph_takes hlines

end

end Transcript.Rst
