import Transcript.Proofs.Doc.Outline
import Transcript.Proofs.Rst.Index
import Transcript.Proofs.Rst.Opening

/-!
# Reading comes to an end

A text is read block by block, and what is in a block quote, a list item or a directive is read in its turn. Each
block ends behind its first line, and what is read in its turn has less text than the lines it was cut out of: an
indentation, a marker or the line that names the directive is gone. So reading ends for every text, and without any
bound on its steps.

Results:
* `nextBlock_lighter`: what is read in its turn has less text.
* `readFrom_eq`: reading with all cuts checked, and all steps, is reading.
* `reading_ends`: both for every text.
-/

namespace Transcript.Rst

open Doc

/-! ## The amount of text -/

/-- The amount of text of lines is the length of the text that ends each of them. -/
theorem weight_eq (lines : List Line) : weight lines = (Text.endedLines (lines.map Line.text)).length := by
  induction lines with
  | nil => rfl
  | cons l ls ih =>
    rw [weight_cons, List.map_cons, Text.endedLines_cons, List.length_append, List.length_cons, ← ih]
    omega

theorem weight_cut_le (n : Nat) (lines : List Line) : weight (lines.map (Line.cut n)) ≤ weight lines := by
  induction lines with
  | nil => exact Nat.le_refl _
  | cons l ls ih =>
    have hl := (l.cut_suffix n).length_le
    rw [List.map_cons, weight_cons, weight_cons]
    omega

/-- A line with something on it is shorter without its beginning. -/
theorem length_cut_lt {n : Nat} (hn : 0 < n) {l : Line} (hl : l.isBlank = false) :
    (l.cut n).text.length < l.text.length := by
  obtain ⟨k, rfl⟩ := Nat.exists_eq_add_one_of_ne_zero (Nat.ne_of_gt hn)
  obtain ⟨number, text⟩ := l
  cases text with
  | nil => cases hl
  | cons c cs =>
    change ((Text.dropBytes (k + 1) (c :: cs)).getD []).length < cs.length + 1
    rw [Text.dropBytes]
    split_ifs with hc
    · cases hrest : Text.dropBytes (k + 1 - c.utf8Size) cs with
      | none => exact Nat.succ_pos _
      | some rest => exact Nat.lt_succ_of_le (Text.dropBytes_suffix hrest).length_le
    · exact Nat.succ_pos _

/-- **Lines without their beginnings** have less text if something was on the first one. -/
theorem weight_cut_lt {n : Nat} (hn : 0 < n) {first : Line} (hb : first.isBlank = false) (rest : List Line) :
    weight ((first :: rest).map (Line.cut n)) < weight (first :: rest) := by
  have hfirst := length_cut_lt hn hb
  have hrest := weight_cut_le n rest
  rw [List.map_cons, weight_cons, weight_cons]
  omega

theorem weight_dedent_le (lines : List Line) : weight (dedent lines) ≤ weight lines := weight_cut_le _ lines

/-- Lines that are indented have an indentation in common. -/
theorem commonIndent_pos {lines : List Line} (hne : ∃ l ∈ lines, l.isBlank = false)
    (h : ∀ l ∈ lines, l.isBlank = false → 0 < l.indent) : 0 < commonIndent lines := by
  obtain ⟨l, hl, hb⟩ := hne
  unfold commonIndent
  cases hmin : ((lines.filter fun l => !l.isBlank).map Line.indent).min? with
  | none =>
    have hmem : l.indent ∈ (lines.filter fun l => !l.isBlank).map Line.indent :=
      List.mem_map.mpr ⟨l, List.mem_filter.mpr ⟨hl, by simp [hb]⟩, rfl⟩
    rw [List.min?_eq_none_iff.mp hmin] at hmem
    cases hmem
  | some n =>
    obtain ⟨m, hm, rfl⟩ := List.mem_map.mp (List.min?_mem hmin)
    obtain ⟨hm, hmb⟩ := List.mem_filter.mp hm
    exact h m hm (by simpa using hmb)

/-- **A text that is cut into lines again** has no more text than the lines it was joined from. -/
theorem weight_numberedLines_le {doc lines : List Line} (hdoc : ArePlain doc) {first : Nat}
    (h : HasText doc (joinedText lines) first) :
    weight (numberedLines (joinedText lines) first) ≤ weight lines := by
  by_cases hne : lines = []
  · rw [hne]
    exact Nat.le_refl _
  · have hprefix : (numberedLines (joinedText lines) first).map Line.text <+: Text.segments (joinedText lines) := by
      rw [List.prefix_iff_getElem?]
      intro i hi
      rw [List.length_map] at hi
      rw [List.getElem_map]
      exact (h.text_numberedLines hdoc (List.getElem?_eq_getElem hi)).2
    obtain ⟨more, hmore⟩ := hprefix
    have hended : Text.endedLines (Text.segments (joinedText lines)) = Text.endedLines (lines.map Line.text) := by
      rw [Text.endedLines_segments]
      exact Text.joinLines_append_feed (by simpa using hne)
    rw [weight_eq, weight_eq, ← hended, ← hmore, Text.endedLines_append, List.length_append]
    exact Nat.le_add_right _ _

/-! ## What is read in its turn -/

/-- The lines that a part is read from in its turn. -/
def Piece.nested (d : Directives) : Piece → List (List Line)
  | .container _ body => [body]
  | .directive inv =>
    match d.becomes inv with
    | some (.nested _ content contentLine _) => [numberedLines content contentLine]
    | _ => []
  | .node _ | .trouble _ _ => []

/-- What is read in its turn is made of lines as readers get them. -/
theorem areLines_nested {d : Directives} {doc inner : List Line} (hdoc : ArePlain doc) {piece : Piece}
    (hpiece : piece.Fits doc) (hinner : inner ∈ piece.nested d) : AreLines inner := by
  cases piece with
  | node n => cases hinner
  | trouble line t => cases hinner
  | container line body =>
    obtain rfl := List.mem_singleton.mp hinner
    exact .of_isPart hdoc hpiece
  | directive inv =>
    unfold Piece.nested at hinner
    dsimp only at hinner
    split at hinner
    · rename_i format content contentLine line hbecomes
      obtain ⟨rfl, rfl, -⟩ := nested_becomes hbecomes
      obtain rfl := List.mem_singleton.mp hinner
      exact .of_hasText hdoc hpiece
    · cases hinner

/-- **What is read in its turn** has less text than some lines. -/
def Lighter (d : Directives) (lines : List Line) (pieces : List Piece) : Prop :=
  ∀ piece ∈ pieces, ∀ inner ∈ piece.nested d, weight inner < weight lines

theorem lighter_container {d : Directives} {lines body : List Line} (h : weight body < weight lines) (line : Nat) :
    Lighter d lines [.container line body] := by
  intro piece hpiece inner hinner
  obtain rfl := List.mem_singleton.mp hpiece
  obtain rfl := List.mem_singleton.mp hinner
  exact h

/-- Whether a part is a node or a problem, so that nothing is read in its turn. -/
def Piece.IsLeaf : Piece → Prop
  | .node _ | .trouble _ _ => True
  | .container _ _ | .directive _ => False

theorem lighter_of_leaves {d : Directives} {lines : List Line} {pieces : List Piece}
    (h : ∀ piece ∈ pieces, piece.IsLeaf) : Lighter d lines pieces := by
  intro piece hpiece inner hinner
  have hleaf := h piece hpiece
  cases piece with
  | node n => cases hinner
  | trouble line t => cases hinner
  | container line body => exact hleaf.elim
  | directive inv => exact hleaf.elim

section

variable (d : Directives) {first : Line} {rest : List Line} (hb : first.isBlank = false)

include hb in
/-- The indentation of a block quote is gone in its body. -/
theorem blockQuote_lighter (hi : 0 < first.indent) : Lighter d (first :: rest) (blockQuote first rest).1 := by
  obtain ⟨more, hblock, hmore⟩ := indentedBlock_cons hb hi rest
  have hwithin : ∀ l ∈ first :: dropBlankEnd more, l.isBlank = false → 0 < l.indent := by
    intro l hl hlb
    have hmem : l ∈ indentedBlock 1 (first :: rest) := by
      rw [hblock]
      exact (List.cons_prefix_cons.mpr ⟨rfl, dropBlankEnd_isPrefix more⟩).subset hl
    have hl := List.mem_takeWhile_imp (p := Line.within 1) ((dropBlankEnd_isPrefix _).subset hmem)
    unfold Line.within at hl
    rw [hlb, Bool.false_or] at hl
    exact of_decide_eq_true hl
  have hpos := commonIndent_pos ⟨first, List.mem_cons_self, hb⟩ hwithin
  have hsub : (first :: dropBlankEnd more).Sublist (first :: rest) :=
    ((dropBlankEnd_sublist more).trans hmore.sublist).cons_cons first
  unfold blockQuote
  rw [hblock]
  refine lighter_container ?_ _
  rw [trimBlank_cons hb]
  exact Nat.lt_of_lt_of_le (weight_cut_lt hpos hb _) (weight_le_of_sublist hsub)

include hb in
/-- The marker of a list item is gone in its body. -/
theorem listItem_lighter {width : Nat} (hw : 0 < width) :
    Lighter d (first :: rest) (listItem width first rest).1 := by
  have hsub : (first :: indentedBlock width rest).Sublist (first :: rest) :=
    (indentedBlock_isPrefix width rest).sublist.cons_cons first
  refine lighter_container (Nat.lt_of_le_of_lt (weight_trimBlank _) ?_) _
  exact Nat.lt_of_lt_of_le (weight_cut_lt hw hb _) (weight_le_of_sublist hsub)

/-- The line that names a directive is not in its body. -/
theorem explicitMarkup_lighter (hlines : AreLines (first :: rest)) :
    Lighter d (first :: rest) (explicitMarkup first rest).1 := by
  have hbody : IsPart (first :: rest) (dedent (trimBlank (indentedBlock 1 rest))) := by
    have hinfix : trimBlank (indentedBlock 1 rest) <:+: first :: rest :=
      (trimBlank_isInfix _).trans ((indentedBlock_isPrefix 1 rest).isInfix.trans (List.suffix_cons first rest).isInfix)
    exact (hlines.isPart.of_isInfix hinfix).dedent
  have hweight : weight (dedent (trimBlank (indentedBlock 1 rest))) ≤ weight rest :=
    calc weight (dedent (trimBlank (indentedBlock 1 rest)))
        ≤ weight (trimBlank (indentedBlock 1 rest)) := weight_dedent_le _
      _ ≤ weight (indentedBlock 1 rest) := weight_trimBlank _
      _ ≤ weight rest := weight_le_of_sublist (indentedBlock_isPrefix 1 rest).sublist
  unfold explicitMarkup
  dsimp only
  generalize dedent (trimBlank (indentedBlock 1 rest)) = body at hbody hweight ⊢
  cases directiveHead? (Text.trim (first.text.drop 2)) with
  | none => exact lighter_of_leaves fun piece hpiece => List.mem_singleton.mp hpiece ▸ trivial
  | some head =>
    obtain ⟨name, argument⟩ := head
    intro piece hpiece inner hinner
    obtain rfl := List.mem_singleton.mp hpiece
    unfold Piece.nested at hinner
    dsimp only at hinner
    split at hinner
    · rename_i format content contentLine line hbecomes
      obtain ⟨rfl, rfl, -⟩ := nested_becomes hbecomes
      obtain rfl := List.mem_singleton.mp hinner
      refine Nat.lt_of_le_of_lt
        (weight_numberedLines_le hlines.plain (invocationOf_fits hlines.plain hbody first name argument)) ?_
      refine Nat.lt_of_le_of_lt ((weight_dedent_le _).trans (weight_trimBlank _)) ?_
      refine Nat.lt_of_le_of_lt ((weight_le_of_sublist (List.drop_sublist _ body)).trans hweight) ?_
      rw [weight_cons]
      omega
    · cases hinner

/-- A title or a transition is read no further. -/
theorem section?_leaves {taken : Taken} (h : section? first rest = some taken) :
    ∀ piece ∈ taken.1, piece.IsLeaf := by
  have htitle (text : List Char) (line : Nat) : (titleNode text line).IsLeaf := trivial
  unfold section? at h
  split at h
  · rename_i found hover
    cases h
    unfold overlined? at hover
    obtain ⟨c, -, hover⟩ := Option.bind_eq_some_iff.mp hover
    split at hover
    · split_ifs at hover
      cases hover
      simpa using htitle _ _
    · cases hover
  · split_ifs at h
    · cases h
      simp
    · unfold underlined? at h
      split at h
      · cases h
      · dsimp only at h
        split_ifs at h
        · cases h
          simpa using htitle _ _
        · cases h
          simpa [Piece.IsLeaf] using htitle _ _

theorem literalBlock_leaves (last : Nat) (lines : List Line) :
    ∀ piece ∈ (literalBlock last lines).1, piece.IsLeaf := by
  unfold literalBlock
  split
  · simp [Piece.IsLeaf]
  · dsimp only
    split_ifs
    · simp [Piece.IsLeaf]
    · split
      · simp [Piece.IsLeaf]
      · dsimp only
        split_ifs <;> simp [Piece.IsLeaf]

/-- A paragraph is read no further, nor is the literal block that it announces. -/
theorem paragraph_leaves : ∀ piece ∈ (paragraph first rest).1, piece.IsLeaf := by
  have hnode (text : List Char) : ∀ piece ∈ (if text.isEmpty then []
      else [Piece.node (.atLine .paragraph text first.number)]), piece.IsLeaf := by
    split_ifs <;> simp [Piece.IsLeaf]
  unfold paragraph
  dsimp only
  split
  · exact hnode _
  · intro piece hpiece
    rcases List.mem_append.mp hpiece with hpiece | hpiece
    · exact hnode _ piece hpiece
    · exact literalBlock_leaves _ _ piece hpiece

include hb in
/-- **What a block leaves to be read in its turn** has less text than the lines from its first one on. -/
theorem nextBlock_lighter (hlines : AreLines (first :: rest)) :
    Lighter d (first :: rest) (nextBlock first rest).1 := by
  unfold nextBlock
  split
  · exact blockQuote_lighter d hb ‹_›
  · split
    · exact explicitMarkup_lighter d hlines
    · split
      · exact lighter_of_leaves (section?_leaves ‹_›)
      · split
        · exact listItem_lighter d hb (itemWidth?_pos ‹_›)
        · split
          · exact lighter_of_leaves fun piece hpiece => List.mem_singleton.mp hpiece ▸ trivial
          · exact lighter_of_leaves paragraph_leaves

end

/-! ## Reading with all cuts checked -/

mutual

/-- **Reads lines from an index on** into children of a node. It fails if a block cuts out what is not there, if the
index behind a block is not behind its first line or is no index of the lines, or if what is read in its turn has no
less text. -/
def readFrom (d : Directives) (lines : List Line) (i : Nat) (parent : NodeId) : OptionT Building Unit :=
  if i < lines.length then
    match lines[i]? with
    | none => failure
    | some first =>
      if first.isBlank then readFrom d lines (i + 1) parent
      else
        match blockAt? lines i with
        | none => failure
        | some (pieces, next) =>
          if i < next ∧ next ≤ lines.length then do
            pieces.forM (placeFrom d lines parent)
            readFrom d lines next parent
          else failure
  else pure ()
termination_by (weight lines, lines.length + 1 - i)

/-- Adds a part of some lines to a document. -/
def placeFrom (d : Directives) (lines : List Line) (parent : NodeId) (piece : Piece) : OptionT Building Unit :=
  match piece with
  | .node n => OptionT.lift (discard (Building.add parent n))
  | .trouble line t => OptionT.lift (Building.warn line t)
  | .container line body => do
    let id ← OptionT.lift (Building.add parent (.atLine .container [] line))
    if weight body < weight lines then readFrom d body 0 id else failure
  | .directive inv => do
    match ← OptionT.lift (d.expand inv) with
    | none => return
    | some (.node n) => OptionT.lift (discard (Building.add parent n))
    | some (.nested _ content contentLine line) =>
      let id ← OptionT.lift (Building.add parent (.atLine .container [] line))
      let body := numberedLines content contentLine
      if weight body < weight lines then readFrom d body 0 id else failure
termination_by (weight lines, 0)

end

/-- Steps that do not fail are those of reading. -/
theorem lift_bind_eq {α β : Type} {x : Building α} (post : α → Prop) (hx : ∀ doc, post (x doc).1)
    {f : α → OptionT Building β} {g : α → Building β} (h : ∀ a, post a → f a = OptionT.lift (g a)) :
    (OptionT.lift x >>= f) = OptionT.lift (x >>= g) := by
  funext doc
  change f (x doc).1 (x doc).2 = OptionT.lift (g (x doc).1) (x doc).2
  rw [h _ (hx doc)]

theorem forM_lift_eq {f : Piece → OptionT Building Unit} {g : Piece → Building Unit} {pieces : List Piece}
    (h : ∀ piece ∈ pieces, f piece = OptionT.lift (g piece)) : pieces.forM f = OptionT.lift (pieces.forM g) := by
  induction pieces with
  | nil => rfl
  | cons piece pieces ih =>
    obtain ⟨hpiece, hpieces⟩ := List.forall_mem_cons.mp h
    change (f piece >>= fun _ => pieces.forM f) = OptionT.lift (g piece >>= fun _ => pieces.forM g)
    rw [hpiece]
    exact lift_bind_eq (fun _ => True) (fun _ => trivial) fun _ _ => ih hpieces

/-- A part is added as it is in reading, if what is read in its turn is. -/
theorem placeFrom_eq (d : Directives) {lines : List Line} {fuel : Nat} (parent : NodeId) {piece : Piece}
    (h : ∀ inner ∈ piece.nested d, weight inner < weight lines ∧
      ∀ id, readFrom d inner 0 id = OptionT.lift (readLines d fuel id inner)) :
    placeFrom d lines parent piece = OptionT.lift (place d (fuel + 1) parent piece) := by
  rw [placeFrom.eq_def]
  unfold place
  cases piece with
  | node n => rfl
  | trouble line t => rfl
  | container line body =>
    obtain ⟨hlighter, hread⟩ := h body (List.mem_singleton.mpr rfl)
    refine lift_bind_eq (fun _ => True) (fun _ => trivial) fun id _ => ?_
    rw [if_pos hlighter]
    exact hread id
  | directive inv =>
    refine lift_bind_eq (· = d.becomes inv) (fun doc => (expand_becomes d inv doc).2.2) fun expansion hexpansion => ?_
    subst hexpansion
    rcases hbecomes : d.becomes inv with _ | ⟨n | ⟨format, content, contentLine, line⟩⟩
    · rfl
    · rfl
    · have hnested : Piece.nested d (.directive inv) = [numberedLines content contentLine] := by
        simp only [Piece.nested, hbecomes]
      obtain ⟨hlighter, hread⟩ := h _ (hnested ▸ List.mem_singleton.mpr rfl)
      refine lift_bind_eq (fun _ => True) (fun _ => trivial) fun id _ => ?_
      rw [if_pos hlighter]
      exact hread id

section

variable (d : Directives) (parent : NodeId)

theorem readLines_cons_blank (fuel : Nat) {l : Line} (hl : l.isBlank = true) (rest : List Line) :
    readLines d fuel parent (l :: rest) = readLines d fuel parent rest := by
  cases fuel with
  | zero => rfl
  | succ fuel =>
    unfold readLines
    rw [List.dropWhile_cons_of_pos hl]

/-- Reading takes one block and goes on with the lines after it. -/
theorem readLines_cons (fuel : Nat) {first : Line} (hb : first.isBlank = false) (rest : List Line) :
    readLines d (fuel + 1) parent (first :: rest) =
      (nextBlock first rest).1.forM (place d fuel parent) >>= fun _ =>
        readLines d fuel parent (nextBlock first rest).2 := by
  rw [readLines, List.dropWhile_cons_of_neg (by simp [hb])]

variable {lines : List Line} {i : Nat} {first : Line}

theorem readFrom_end (h : lines.length ≤ i) : readFrom d lines i parent = pure () := by
  rw [readFrom.eq_def, if_neg (Nat.not_lt_of_le h)]

theorem readFrom_blank (hfirst : lines[i]? = some first) (hb : first.isBlank = true) :
    readFrom d lines i parent = readFrom d lines (i + 1) parent := by
  obtain ⟨hlt, -⟩ := List.getElem?_eq_some_iff.mp hfirst
  rw [readFrom.eq_def, if_pos hlt, hfirst]
  exact if_pos hb

theorem readFrom_block (hfirst : lines[i]? = some first) (hb : first.isBlank = false) {found : Found}
    (hblock : blockAt? lines i = some found) (hnext : i < found.2) (hle : found.2 ≤ lines.length) :
    readFrom d lines i parent =
      found.1.forM (placeFrom d lines parent) >>= fun _ => readFrom d lines found.2 parent := by
  obtain ⟨hlt, -⟩ := List.getElem?_eq_some_iff.mp hfirst
  rw [readFrom.eq_def, if_pos hlt, hfirst, hblock]
  dsimp only
  rw [if_neg (by simp [hb]), if_pos ⟨hnext, hle⟩]

end

/-- **Reading with all cuts checked** never fails and reads what is read. The induction is on the amount of text from
the index on: a blank line is one less, and so are the lines after a block and what is read in its turn. -/
theorem readFrom_eq (d : Directives) {lines : List Line} (hlines : AreLines lines) {i : Nat} (hi : i ≤ lines.length)
    (parent : NodeId) {n : Nat} (hn : weight (lines.drop i) ≤ n) {fuel : Nat} (hfuel : 2 * n < fuel) :
    readFrom d lines i parent = OptionT.lift (readLines d fuel parent (lines.drop i)) := by
  induction n using Nat.strong_induction_on generalizing lines i parent fuel with
  | _ n ih =>
    cases hdrop : lines.drop i with
    | nil =>
      rw [readFrom_end d parent (List.drop_eq_nil_iff.mp hdrop)]
      cases fuel with
      | zero => rfl
      | succ fuel => rfl
    | cons first rest =>
      rw [hdrop, weight_cons] at hn
      cases hb : first.isBlank with
      | true =>
        rw [readFrom_blank d parent (getElem?_at hdrop) hb, readLines_cons_blank d parent fuel hb,
          ← drop_succ_at hdrop]
        refine ih (n - 1) (by omega) hlines (lt_length_at hdrop) parent ?_ (by omega)
        rw [drop_succ_at hdrop]
        omega
      | false =>
        have hrest : AreLines (first :: rest) := hlines.of_isInfix (hdrop ▸ (List.drop_suffix i lines).isInfix)
        obtain ⟨block, htaken, hblock, -, hpieces⟩ := hrest.nextBlock hb
        obtain ⟨hnext, hle, hafter⟩ := foundIn_bounds hdrop ⟨block, htaken.symm⟩
        obtain ⟨fuel, rfl⟩ : ∃ k, fuel = k + 2 := ⟨fuel - 2, by omega⟩
        have hplaces : (nextBlock first rest).1.forM (placeFrom d lines parent) =
            OptionT.lift ((nextBlock first rest).1.forM (place d (fuel + 1) parent)) := by
          refine forM_lift_eq fun piece hpiece => ?_
          refine placeFrom_eq d parent fun inner hinner => ?_
          have hare := areLines_nested hblock.plain (hpieces piece hpiece) hinner
          have hless := nextBlock_lighter d hb hrest piece hpiece inner hinner
          have hwhole : weight (first :: rest) ≤ weight lines :=
            weight_le_of_sublist (hdrop ▸ List.drop_sublist i lines)
          rw [weight_cons] at hless hwhole
          refine ⟨by omega, fun id => ?_⟩
          exact ih (n - 1) (by omega) hare (Nat.zero_le _) id (by rw [List.drop_zero]; omega) (by omega)
        have hweight : weight rest = weight block + weight (nextBlock first rest).2 :=
          (congrArg weight htaken).trans (weight_append _ _)
        rw [readFrom_block d parent (getElem?_at hdrop) hb (blockAt?_eq hdrop hb) hnext hle, readLines_cons d parent _ hb]
        refine (congrArg (· >>= _) hplaces).trans (lift_bind_eq (fun _ => True) (fun _ => trivial) fun _ _ => ?_)
        rw [← hafter] at hweight ⊢
        exact ih (n - 1) (by omega) hlines hle parent (by omega) (by omega)

/-! ## Reading a text -/

/-- **Reads a text,** whose first line has the given number, with all cuts checked. -/
def readWhole (d : Directives) (parent : NodeId) (text : List Char) (first : Nat) : OptionT Building Unit :=
  readFrom d (numberedLines text first) 0 parent

/-- **Lines that are read** with some lines: they themselves, and what is read in its turn, however deep. -/
inductive Called (d : Directives) (top : List Line) : List Line → Prop
  /-- The lines themselves. -/
  | top : Called d top top
  /-- What is read in its turn of a block that begins with a line. -/
  | nested {lines : List Line} (h : Called d top lines) {i : Nat} {l : Line} (hl : lines[i]? = some l)
    (hb : l.isBlank = false) {found : Found} (hfound : blockAt? lines i = some found) {piece : Piece}
    (hpiece : piece ∈ found.1) {inner : List Line} (hinner : inner ∈ piece.nested d) : Called d top inner

/-- The block that begins with a line, with its place among the lines. -/
theorem AreLines.blockAt {lines : List Line} (h : AreLines lines) {i : Nat} {l : Line} (hl : lines[i]? = some l)
    (hb : l.isBlank = false) (d : Directives) :
    ∃ found block, blockAt? lines i = some found ∧ i < found.2 ∧ found.2 ≤ lines.length ∧
      Lighter d lines found.1 ∧ AreLines block ∧ ∀ piece ∈ found.1, piece.Fits block := by
  obtain ⟨hi, rfl⟩ := List.getElem?_eq_some_iff.mp hl
  have hdrop := List.drop_eq_getElem_cons hi
  have hrest : AreLines (lines[i] :: lines.drop (i + 1)) :=
    h.of_isInfix (hdrop ▸ (List.drop_suffix i lines).isInfix)
  obtain ⟨block, htaken, hblock, -, hpieces⟩ := hrest.nextBlock hb
  obtain ⟨hnext, hle, -⟩ := foundIn_bounds hdrop ⟨block, htaken.symm⟩
  have hwhole : weight (lines[i] :: lines.drop (i + 1)) ≤ weight lines :=
    weight_le_of_sublist (hdrop ▸ List.drop_sublist i lines)
  refine ⟨_, _, blockAt?_eq hdrop hb, hnext, hle, fun piece hpiece inner hinner => ?_, hblock, hpieces⟩
  exact Nat.lt_of_lt_of_le (nextBlock_lighter d hb hrest piece hpiece inner hinner) hwhole

theorem Called.areLines {d : Directives} {top lines : List Line} (htop : AreLines top) (h : Called d top lines) :
    AreLines lines := by
  induction h with
  | top => exact htop
  | nested h hl hb hfound hpiece hinner ih =>
    obtain ⟨found, block, hfound', -, -, -, hblock, hpieces⟩ := ih.blockAt hl hb d
    obtain rfl := Option.some.inj (hfound.symm.trans hfound')
    exact areLines_nested hblock.plain (hpieces _ hpiece) hinner

/-- **Reading ends for every text.** Wherever a block begins, in the lines of the text or in any that are read in
their turn, the cuts that it makes are all in range, the index behind it is greater than that of its first line and
at most the number of lines, and what is read of it in its turn has less text than the lines it stands in. So reading
that checks all this, and goes on without a bound on its steps, comes to the end of every text and adds what reading
adds. -/
theorem reading_ends (d : Directives) (text : List Char) (first : Nat) :
    (∀ lines, Called d (numberedLines text first) lines → ∀ i l, lines[i]? = some l → l.isBlank = false →
      ∃ pieces next, blockAt? lines i = some (pieces, next) ∧ i < next ∧ next ≤ lines.length ∧
        ∀ piece ∈ pieces, ∀ inner ∈ piece.nested d, weight inner < weight lines) ∧
    ∀ parent doc, (readWhole d parent text first).run doc = (some (), (readInto d parent text first doc).2) := by
  have htop := areLines_numberedLines text first
  constructor
  · intro lines hlines i l hl hb
    obtain ⟨⟨pieces, next⟩, -, hfound, hnext, hle, hlighter, -⟩ := (hlines.areLines htop).blockAt hl hb d
    exact ⟨pieces, next, hfound, hnext, hle, hlighter⟩
  · intro parent doc
    have hread := readFrom_eq d htop (Nat.zero_le _) parent (Nat.le_refl _)
      (Nat.lt_add_one (2 * weight ((numberedLines text first).drop 0)) |>.trans (Nat.lt_add_one _))
    unfold readWhole
    rw [hread]
    rfl

end Transcript.Rst
