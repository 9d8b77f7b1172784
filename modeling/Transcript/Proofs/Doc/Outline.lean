import Transcript.Doc.OfText
import Transcript.Proofs.Doc.Order
import Transcript.Proofs.Rst.Block

/-!
# The outline of a document

Lines are read block by block, and a container is read in its turn. However deep a part is nested, its nodes come
from the lines it is read from, and these come from the document. So every text stands in the document where its
node says it does.

A document holds what the outline of its text says, in the order of the outline, whether the text is in
reStructuredText or in Markdown. In Markdown, most blocks are nodes as they stand; a directive is handed on and
becomes a node, a container that is read in its turn, or nothing.

Results:
* `Rst.readInto_unfolds`: a text in reStructuredText is read as its outline says.
* `Rst.leaves_fit`: the nodes of lines and of parts come from them.
* `Markdown.readText_unfolds`: a text in Markdown is read as its outline says.
* `ofText_outline`: the nodes of a document are those of the outline of its text, in the same order.
-/

namespace Transcript.Rst

open Doc

theorem areLines_numberedLines (text : List Char) (first : Nat) :
    AreLines (numberedLines text first) where
  plain := by
    intro l hl
    obtain ⟨⟨line, i⟩, hline, rfl⟩ := List.mem_map.mp hl
    exact isPlain_expandTabs_trimEnd
      (Text.feed_not_mem_of_mem_lines (List.fst_mem_of_mem_zipIdx hline))
  consecutive := numberedLines_consecutive text first

theorem AreLines.of_hasText {lines : List Line} (hplain : ArePlain lines) {text : List Char}
    {first : Nat} (h : HasText lines text first) : AreLines (numberedLines text first) :=
  .of_isPart hplain (h.isPart hplain)

/-- The first line that is not blank, and the lines from there on. -/
theorem AreLines.of_dropWhile {lines rest : List Line} {first : Line} (h : AreLines lines)
    (hdrop : lines.dropWhile Line.isBlank = first :: rest) :
    first :: rest <:+ lines ∧ AreLines (first :: rest) ∧ first.isBlank = false := by
  have hsuffix : first :: rest <:+ lines := hdrop ▸ List.dropWhile_suffix Line.isBlank
  have hhead := List.head?_dropWhile_not Line.isBlank lines
  rw [hdrop] at hhead
  exact ⟨hsuffix, h.of_isInfix hsuffix.isInfix, hhead⟩

/-- **The first block of lines,** with the lines after it: its parts come from its own lines. -/
theorem AreLines.nextBlock {rest : List Line} {first : Line} (h : AreLines (first :: rest))
    (hb : first.isBlank = false) : ∃ block, rest = block ++ (Rst.nextBlock first rest).2 ∧
      AreLines (first :: block) ∧ AreLines (Rst.nextBlock first rest).2 ∧
      ∀ p ∈ (Rst.nextBlock first rest).1, p.Fits (first :: block) := by
  obtain ⟨block, hrest, hpieces⟩ := nextBlock_takes h hb
  have hblock : first :: block <+: first :: rest := List.cons_prefix_cons.mpr ⟨rfl, ⟨_, hrest.symm⟩⟩
  have hafter : (Rst.nextBlock first rest).2 <:+ first :: rest :=
    List.IsSuffix.trans ⟨block, hrest.symm⟩ (List.suffix_cons first rest)
  exact ⟨block, hrest, h.of_isInfix hblock.isInfix, h.of_isInfix hafter.isInfix, hpieces⟩

/-! ## Outlines -/

mutual

/-- The outline of lines, with at most so many nested steps. -/
def linesOutline (d : Directives) : Nat → List Line → List Entry
  | 0, _ => []
  | fuel + 1, lines =>
    match lines.dropWhile Line.isBlank with
    | [] => []
    | first :: rest =>
      (nextBlock first rest).1.flatMap (pieceOutline d fuel) ++ linesOutline d fuel (nextBlock first rest).2

/-- The outline of a part. -/
def pieceOutline (d : Directives) : Nat → Piece → List Entry
  | 0, _ => []
  | _ + 1, .node n => [.node n]
  | _ + 1, .trouble _ _ => []
  | fuel + 1, .container line body => .node (.atLine .container [] line) :: linesOutline d fuel body
  | fuel + 1, .directive inv =>
    .directive inv ::
      match d.becomes inv with
      | some (.nested _ content contentLine _) => linesOutline d fuel (numberedLines content contentLine)
      | _ => []

end

/-- **The outline of a text** whose first line has the given number. -/
def outline (d : Directives) (text : List Char) (first : Nat) : List Entry :=
  let lines := numberedLines text first
  linesOutline d (stepsFor lines) lines

/-- What is read from lines, and what a part adds, is what their outlines say. The induction is on the
number of steps, for both at once. -/
theorem reads_unfold (d : Directives) (fuel : Nat) :
    (∀ parent lines, AreLines lines → Building.Unfolds parent (readLines d fuel parent lines) ()
      (outlineLeaves d (linesOutline d fuel lines))) ∧
    (∀ parent piece doc, ArePlain doc → piece.Fits doc →
      Building.Unfolds parent (place d fuel parent piece) () (outlineLeaves d (pieceOutline d fuel piece))) := by
  induction fuel with
  | zero => exact ⟨fun _ _ _ => .pure (), fun _ _ _ _ _ => .pure ()⟩
  | succ fuel ih =>
    obtain ⟨ihLines, ihPlace⟩ := ih
    refine ⟨fun parent lines hlines => ?_, fun parent piece doc hdoc hpiece => ?_⟩
    · unfold readLines linesOutline
      cases hdrop : lines.dropWhile Line.isBlank with
      | nil => exact .pure ()
      | cons first rest =>
        obtain ⟨-, hlines', hb⟩ := hlines.of_dropWhile hdrop
        obtain ⟨block, -, hblock, hafter, hpieces⟩ := hlines'.nextBlock hb
        rw [outlineLeaves_append, outlineLeaves, List.flatMap_assoc]
        exact .bind (.forM fun piece hp => ihPlace parent piece _ hblock.plain (hpieces piece hp))
          (ihLines parent _ hafter)
    · unfold place
      cases piece with
      | node n => exact .leaf hpiece.children
      | trouble line t => exact .of_notes fun _ => ⟨rfl, rfl, rfl⟩
      | container line body => exact .under rfl fun id => ihLines id body (.of_isPart hdoc hpiece)
      | directive inv =>
        refine .after_notes (expand_becomes d inv) ?_
        rw [pieceOutline, outlineLeaves, List.flatMap_cons, Entry.leaves]
        rcases hbecomes : d.becomes inv with _ | ⟨n | ⟨format, content, contentLine, line⟩⟩
        · exact .pure ()
        · exact .leaf (isBody_becomes hbecomes).children
        · obtain ⟨rfl, rfl, -⟩ := nested_becomes hbecomes
          exact .under rfl fun id => ihLines id _ (.of_hasText hdoc hpiece)

/-- **A text is read** as its outline says. -/
theorem readInto_unfolds (d : Directives) (parent : NodeId) (text : List Char) (first : Nat) :
    Building.Unfolds parent (readInto d parent text first) () (outlineLeaves d (outline d text first)) :=
  (reads_unfold d _).1 parent _ (areLines_numberedLines text first)

/-! ## Where nodes come from -/

/-- A container shows nothing. -/
theorem fits_container (lines : List Line) (line : Nat) :
    (Node.atLine .container [] line).Fits lines :=
  fits_of_not_verbatim lines rfl (by simp [Node.atLine, Node.make]) rfl

/-- A leaf comes from where its node comes from. -/
theorem fits_leaf {lines : List Line} {n : Node} (h : n.Fits lines) : n.leaf.Fits lines :=
  ⟨rfl, h.text, h.title⟩

/-- The nodes of lines, and those of a part, come from them. The induction is on the number of steps, for both
at once. -/
theorem leaves_fit (d : Directives) (fuel : Nat) :
    (∀ lines, AreLines lines → ∀ n ∈ outlineLeaves d (linesOutline d fuel lines), n.Fits lines) ∧
    (∀ piece doc, ArePlain doc → piece.Fits doc →
      ∀ n ∈ outlineLeaves d (pieceOutline d fuel piece), n.Fits doc) := by
  induction fuel with
  | zero => exact ⟨fun _ _ _ hn => absurd hn List.not_mem_nil, fun _ _ _ _ _ hn => absurd hn List.not_mem_nil⟩
  | succ fuel ih =>
    obtain ⟨ihLines, ihPiece⟩ := ih
    refine ⟨fun lines hlines n hn => ?_, fun piece doc hdoc hpiece n hn => ?_⟩
    · unfold linesOutline at hn
      cases hdrop : lines.dropWhile Line.isBlank with
      | nil =>
        rw [hdrop] at hn
        exact absurd hn List.not_mem_nil
      | cons first rest =>
        obtain ⟨hsuffix, hlines', hb⟩ := hlines.of_dropWhile hdrop
        obtain ⟨block, hrest, hblock, hafter, hpieces⟩ := hlines'.nextBlock hb
        rw [hdrop, outlineLeaves_append, outlineLeaves, List.flatMap_assoc, List.mem_append] at hn
        rcases hn with hn | hn
        · obtain ⟨piece, hp, hn⟩ := List.mem_flatMap.mp hn
          have hprefix : first :: block <+: first :: rest := List.cons_prefix_cons.mpr ⟨rfl, ⟨_, hrest.symm⟩⟩
          exact (ihPiece piece _ hblock.plain (hpieces piece hp) n hn).mono
            (List.Subset.trans hprefix.subset hsuffix.subset)
        · have hrest' : (Rst.nextBlock first rest).2 <:+ rest := ⟨block, hrest.symm⟩
          exact (ihLines _ hafter n hn).mono ((hrest'.trans (List.suffix_cons first rest)).trans hsuffix).subset
    · cases piece with
      | node m =>
        obtain rfl := List.mem_singleton.mp hn
        exact fits_leaf hpiece
      | trouble line t => exact absurd hn List.not_mem_nil
      | container line body =>
        rcases List.mem_cons.mp hn with rfl | hn
        · exact fits_leaf (fits_container doc line)
        · exact (ihLines body (.of_isPart hdoc hpiece) n hn).trans hpiece.fits
      | directive inv =>
        rw [pieceOutline, outlineLeaves, List.flatMap_cons, Entry.leaves] at hn
        rcases hbecomes : d.becomes inv with _ | ⟨m | ⟨format, content, contentLine, line⟩⟩
        · rw [hbecomes] at hn
          exact absurd hn List.not_mem_nil
        · rw [hbecomes] at hn
          obtain rfl := List.mem_singleton.mp hn
          exact fits_leaf ((isBody_becomes hbecomes).fits hpiece)
        · obtain ⟨rfl, rfl, -⟩ := nested_becomes hbecomes
          rw [hbecomes] at hn
          rcases List.mem_cons.mp hn with rfl | hn
          · exact fits_leaf (fits_container doc line)
          · exact (ihLines _ (.of_hasText hdoc hpiece) n hn).trans (hpiece.isPart hdoc).fits

end Transcript.Rst

namespace Transcript

open Doc

/-! ## Outlines of Markdown -/

namespace Markdown

/-- The outline of a text, with at most so many levels. -/
def textOutline (d : Directives) : Nat → List Char → Nat → List Entry
  | 0, _, _ => []
  | fuel + 1, text, first =>
    ((chunks (numbered text first)).flatMap Chunk.parts).flatMap fun part =>
      match part with
      | .node n => [.node n]
      | .directive inv =>
        .directive inv ::
          match d.becomes inv with
          | some (.nested (some .rst) content contentLine _) => Rst.outline d content contentLine
          | some (.nested _ content contentLine _) => textOutline d fuel content contentLine
          | _ => []

/-- **The outline of a text** whose first line has the given number. -/
def outline (d : Directives) (text : List Char) (first : Nat) : List Entry :=
  textOutline d (text.length + 1) text first

/-- The nodes of plain Markdown have no children. -/
theorem children_partOf {labels : List Label} {line : Nat} {leaf : Leaf} {n : Node}
    (h : partOf? labels line leaf = some (.node n)) : n.children = [] := by
  unfold partOf? at h
  split at h
  · cases h
    rfl
  · cases h
    rfl
  · obtain ⟨s, -, hs⟩ := Option.map_eq_some_iff.mp h
    cases hs
    rfl
  · cases h
    rfl
  · dsimp only at h
    split at h <;> cases h
    rfl

theorem children_of_mem_parts {chunk : Chunk} {n : Node} (h : Part.node n ∈ chunk.parts) :
    n.children = [] := by
  cases chunk with
  | plain lines =>
    obtain ⟨block, -, hblock⟩ := List.mem_filterMap.mp h
    exact children_partOf hblock
  | directive name argument opening body after => cases List.mem_singleton.mp h

/-- **A text is read** as its outline says, level by level. -/
theorem readText_unfolds (d : Directives) (fuel : Nat) (parent : NodeId) (text : List Char) (first : Nat) :
    Building.Unfolds parent (readText d fuel parent text first) ()
      (outlineLeaves d (textOutline d fuel text first)) := by
  induction fuel generalizing parent text first with
  | zero => exact .pure ()
  | succ fuel ih =>
    unfold readText textOutline
    rw [outlineLeaves, List.flatMap_assoc]
    refine .then_pure (.forIn fun part hpart => ?_) ()
    cases part with
    | node n =>
      obtain ⟨chunk, -, hn⟩ := List.mem_flatMap.mp hpart
      exact .then_pure (.leaf (children_of_mem_parts hn)) _
    | directive inv =>
      refine .after_notes (expand_becomes d inv) ?_
      dsimp only
      rw [List.flatMap_cons, Entry.leaves]
      rcases hbecomes : d.becomes inv with _ | ⟨n | ⟨format, content, contentLine, line⟩⟩
      · exact .pure _
      · exact .then_pure (.leaf (isBody_becomes hbecomes).children) _
      · refine .under rfl fun id => ?_
        rcases format with _ | ⟨_ | _⟩
        · exact .then_pure (ih id content contentLine) _
        · exact .then_pure (Rst.readInto_unfolds d id content contentLine) _
        · exact .then_pure (ih id content contentLine) _

end Markdown

/-! ## Documents -/

namespace Doc

/-- **The outline of a text.** -/
def outline (format : Format) (d : Directives) (text : List Char) : List Entry :=
  match format with
  | .rst => Rst.outline d text 1
  | .markdown => Markdown.outline d text 1

/-- **The nodes of a document** are those of the outline of its text, behind the root. Going through the
document meets them in this order. -/
theorem ofText_outline (format : Format) (text : List Char) (source : Option String) (d : Directives) :
    (Document.ofText format text source d).InOrder ∧ (Document.ofText format text source d).leaves =
      Node.root :: outlineLeaves d (outline format d text) := by
  have hread : Building.Unfolds Document.root (readInto format d Document.root text 1) ()
      (outlineLeaves d (outline format d text)) := by
    cases format with
    | rst => exact Rst.readInto_unfolds d Document.root text 1
    | markdown => exact Markdown.readText_unfolds d _ Document.root text 1
  obtain ⟨-, horder, -, hleaves⟩ := hread (.new source) (Document.inOrder_new source) (Document.isOpen_new source)
  exact ⟨horder, hleaves⟩

end Doc

end Transcript
