import Transcript.Doc.Document
import Transcript.Doc.Line
import Transcript.Proofs.Text.Line
import Mathlib.Data.List.Chain

/-!
# Parts of a document

Readers cut lines out of a document, take indentation off them, join them and cut them again. Each
line that comes out of this is the end of the line of the document with its number: the lines are a
part of the document.

Results:
* `IsPart.of_isInfix`, `IsPart.cut`: cutting out lines and cutting off their beginnings keeps a part.
* `IsPart.hasText`: the joined text of a part knows where its lines are.
* `HasText.isPart`: cut into lines again, such a text is a part.
-/

namespace Transcript.Doc

open Text

/-! ## Lines as they are read -/

/-- A line as readers see it: without tabs, line feeds and blanks at its end. -/
structure IsPlain (text : List Char) : Prop where
  /-- There is no line feed. -/
  feed_not_mem : '\n' ∉ text
  /-- There is no tab. -/
  tab_not_mem : '\t' ∉ text
  /-- There is no blank at the end. -/
  trimmed : ∀ c ∈ text.getLast?, isBlank c = false

theorem isPlain_nil : IsPlain [] := ⟨by simp, by simp, by simp⟩

theorem IsPlain.suffix {s t : List Char} (h : IsPlain t) (hs : s <:+ t) : IsPlain s where
  feed_not_mem := fun hc => h.feed_not_mem (hs.subset hc)
  tab_not_mem := fun hc => h.tab_not_mem (hs.subset hc)
  trimmed := by
    intro c hc
    obtain ⟨r, rfl⟩ := hs
    refine h.trimmed c ?_
    rw [List.getLast?_append, Option.mem_def.mp hc]
    rfl

theorem trimEnd_getLast? (s : List Char) : ∀ c ∈ (trimEnd s).getLast?, isBlank c = false := by
  unfold trimEnd
  induction s with
  | nil => simp [dropEndWhile]
  | cons c cs ih =>
    unfold dropEndWhile
    cases h : dropEndWhile isBlank cs with
    | nil =>
      dsimp only
      split_ifs with hc
      · simp
      · simpa using hc
    | cons d ds =>
      rw [h] at ih
      intro e he
      rw [List.getLast?_cons_cons] at he
      exact ih e he

/-- Trimming does nothing where no blank is at the end. -/
theorem trimEnd_of_getLast? {s : List Char} (h : ∀ c ∈ s.getLast?, isBlank c = false) :
    trimEnd s = s := by
  unfold trimEnd
  induction s with
  | nil => rfl
  | cons c cs ih =>
    cases cs with
    | nil =>
      have hc : isBlank c = false := h c rfl
      simp [dropEndWhile, hc]
    | cons d ds =>
      rw [List.getLast?_cons_cons] at h
      unfold dropEndWhile
      rw [ih h]

theorem expandTabsFrom_getLast? {n : Nat} {s : List Char}
    (h : ∀ c ∈ s.getLast?, isBlank c = false) :
    ∀ c ∈ (expandTabsFrom n s).getLast?, isBlank c = false := by
  induction s generalizing n with
  | nil => simp [expandTabsFrom]
  | cons c cs ih =>
    cases cs with
    | nil =>
      have hc : isBlank c = false := h c rfl
      have htab : c ≠ '\t' := by
        rintro rfl
        exact absurd hc (by decide)
      simp [expandTabsFrom, htab, hc]
    | cons d ds =>
      rw [List.getLast?_cons_cons] at h
      unfold expandTabsFrom
      have hne (m : Nat) : expandTabsFrom m (d :: ds) ≠ [] := by
        unfold expandTabsFrom
        split_ifs
        · have hpos : 0 < 8 - m % 8 := by omega
          simp [Nat.ne_of_gt hpos]
        · simp
      split_ifs with hc
      · rw [List.getLast?_append_of_ne_nil _ (hne _)]
        exact ih h
      · obtain ⟨x, xs, hx⟩ := List.exists_cons_of_ne_nil (hne (n + 1))
        rw [hx, List.getLast?_cons_cons, ← hx]
        exact ih h

theorem isPlain_expandTabs_trimEnd {line : List Char} (h : '\n' ∉ line) :
    IsPlain (expandTabs (trimEnd line)) where
  feed_not_mem := fun hc =>
    h ((trimEnd_isPrefix line).subset (feed_mem_expandTabsFrom hc))
  tab_not_mem := tab_not_mem_expandTabs (trimEnd line)
  trimmed := expandTabsFrom_getLast? (trimEnd_getLast? line)

/-- Reading a plain line again does nothing. -/
theorem IsPlain.expandTabs_trimEnd {text : List Char} (h : IsPlain text) :
    expandTabs (trimEnd text) = text := by
  rw [trimEnd_of_getLast? h.trimmed, expandTabs_of_no_tab text h.tab_not_mem]

/-! ## Lines that come from a document -/

/-- **A line comes from a document** if it is blank or the end of the line with its number. -/
def Line.Fits (doc : List Line) (l : Line) : Prop :=
  l.text ≠ [] → ∃ p ∈ doc, p.number = l.number ∧ l.text <:+ p.text

theorem Line.Fits.mono {doc doc' : List Line} (hsub : doc ⊆ doc') {l : Line} (h : l.Fits doc) :
    l.Fits doc' := by
  intro hl
  obtain ⟨p, hp, hnumber, htext⟩ := h hl
  exact ⟨p, hsub hp, hnumber, htext⟩

theorem Line.fits_of_mem {doc : List Line} {l : Line} (h : l ∈ doc) : l.Fits doc :=
  fun _ => ⟨l, h, rfl, List.suffix_rfl⟩

/-- A line that is not blank has a text. -/
theorem Line.text_ne_nil {l : Line} (hb : l.isBlank = false) : l.text ≠ [] := by
  intro hnil
  rw [Line.isBlank, hnil] at hb
  cases hb

theorem Line.cut_suffix (bytes : Nat) (l : Line) : (l.cut bytes).text <:+ l.text := by
  unfold Line.cut
  cases h : dropBytes bytes l.text with
  | none => exact List.nil_suffix
  | some t => exact dropBytes_suffix h

theorem Line.Fits.cut {doc : List Line} {l : Line} (h : l.Fits doc) (bytes : Nat) :
    (l.cut bytes).Fits doc := by
  intro hne
  have hl : l.text ≠ [] := by
    intro hl
    have hsuffix := l.cut_suffix bytes
    rw [hl] at hsuffix
    exact hne (List.eq_nil_of_suffix_nil hsuffix)
  obtain ⟨p, hp, hnumber, htext⟩ := h hl
  exact ⟨p, hp, hnumber, (l.cut_suffix bytes).trans htext⟩

/-- **A part of a document:** lines that come from it, one after the other. -/
structure IsPart (doc lines : List Line) : Prop where
  /-- Each line comes from the document. -/
  fits : ∀ l ∈ lines, l.Fits doc
  /-- The lines are numbered consecutively. -/
  consecutive : lines.IsChain fun a b => b.number = a.number + 1

namespace IsPart

variable {doc lines : List Line}

theorem mono {doc' : List Line} (hsub : doc ⊆ doc') (h : IsPart doc lines) : IsPart doc' lines :=
  ⟨fun l hl => (h.fits l hl).mono hsub, h.consecutive⟩

/-- Lines cut out of a part are a part. -/
theorem of_isInfix {part : List Line} (h : IsPart doc lines) (hp : part <:+: lines) : IsPart doc part :=
  ⟨fun l hl => h.fits l (hp.subset hl), List.IsChain.infix h.consecutive hp⟩

/-- Lines without some of their beginnings are a part. -/
theorem cut (h : IsPart doc lines) (bytes : Nat) : IsPart doc (lines.map (Line.cut bytes)) where
  fits := by
    intro l hl
    obtain ⟨m, hm, rfl⟩ := List.mem_map.mp hl
    exact (h.fits m hm).cut bytes
  consecutive := by
    rw [List.isChain_map]
    exact h.consecutive

theorem dedent (h : IsPart doc lines) : IsPart doc (Doc.dedent lines) := h.cut _

/-- The numbers of a part count up from the first one. -/
theorem number_getElem (h : IsPart doc lines) {l : Line} (hl : lines.head? = some l) {i : Nat}
    {m : Line} (hm : lines[i]? = some m) : m.number = l.number + i := by
  induction lines generalizing l i with
  | nil => cases hl
  | cons a as ih =>
    rw [List.head?_cons, Option.some_inj] at hl
    subst hl
    cases i with
    | zero =>
      rw [List.getElem?_cons_zero, Option.some_inj] at hm
      rw [hm, Nat.add_zero]
    | succ i =>
      rw [List.getElem?_cons_succ] at hm
      cases as with
      | nil => cases hm
      | cons b bs =>
        have hrest : IsPart doc (b :: bs) := h.of_isInfix (List.suffix_cons a (b :: bs)).isInfix
        have hb : b.number = a.number + 1 := (List.isChain_cons_cons.mp h.consecutive).1
        rw [ih hrest rfl hm, hb, Nat.add_assoc, Nat.add_comm 1]

end IsPart

/-! ## Cutting out lines -/

theorem dropBlankEnd_isPrefix (lines : List Line) : dropBlankEnd lines <+: lines := by
  have h := (List.dropWhile_suffix Line.isBlank (l := lines.reverse)).reverse
  rw [List.reverse_reverse] at h
  exact h

theorem indentedBlock_isPrefix (indent : Nat) (lines : List Line) : indentedBlock indent lines <+: lines :=
  (dropBlankEnd_isPrefix _).trans (List.takeWhile_prefix _)

theorem textBlock_isPrefix (lines : List Line) : textBlock lines <+: lines := List.takeWhile_prefix _

theorem trimBlank_isInfix (lines : List Line) : trimBlank lines <:+: lines :=
  (dropBlankEnd_isPrefix _).isInfix.trans (List.dropWhile_suffix _).isInfix

/-! ## Texts that come from a document -/

/-- **A text comes from a document** from a line on: each of its lines is blank or the end of the
line of the document that stands where it stands. -/
def HasText (doc : List Line) (text : List Char) (first : Nat) : Prop :=
  ∀ (i : Nat) (t : List Char), (segments text)[i]? = some t → t ≠ [] →
    ∃ p ∈ doc, p.number = first + i ∧ t <:+ p.text

theorem hasText_nil (doc : List Line) (first : Nat) : HasText doc [] first := by
  intro i t ht hne
  cases i with
  | zero =>
    cases ht
    exact absurd rfl hne
  | succ i => cases ht

theorem HasText.mono {doc doc' : List Line} (hsub : doc ⊆ doc') {text : List Char} {first : Nat}
    (h : HasText doc text first) : HasText doc' text first := by
  intro i t ht hne
  obtain ⟨p, hp, hnumber, htext⟩ := h i t ht hne
  exact ⟨p, hsub hp, hnumber, htext⟩

/-- **A document of plain lines.** -/
def ArePlain (doc : List Line) : Prop := ∀ l ∈ doc, IsPlain l.text

section

variable {doc : List Line} (hdoc : ArePlain doc)
include hdoc

theorem Line.Fits.isPlain {l : Line} (h : l.Fits doc) : IsPlain l.text := by
  by_cases hne : l.text = []
  · rw [hne]
    exact isPlain_nil
  · obtain ⟨p, hp, -, htext⟩ := h hne
    exact (hdoc p hp).suffix htext

/-- **The joined text of a part** comes from the document, from the number of its first line on. -/
theorem IsPart.hasText {lines : List Line} (h : IsPart doc lines) {l : Line}
    (hl : lines.head? = some l) : HasText doc (joinedText lines) l.number := by
  intro i t ht hne
  have hlines : lines ≠ [] := by
    rintro rfl
    cases hl
  have hsegments : segments (joinedText lines) = lines.map Line.text := by
    refine segments_joinLines (by simpa using hlines) fun s hs => ?_
    obtain ⟨m, hm, rfl⟩ := List.mem_map.mp hs
    exact ((h.fits m hm).isPlain hdoc).feed_not_mem
  rw [hsegments, List.getElem?_map, Option.map_eq_some_iff] at ht
  obtain ⟨m, hm, rfl⟩ := ht
  obtain ⟨p, hp, hnumber, htext⟩ := h.fits m (List.mem_of_getElem? hm) hne
  exact ⟨p, hp, hnumber.trans (h.number_getElem hl hm), htext⟩

/-- A line of a text that comes from the document is plain. -/
theorem HasText.isPlain {text : List Char} {first : Nat} (h : HasText doc text first) {t : List Char}
    (ht : t ∈ segments text) : IsPlain t := by
  by_cases hne : t = []
  · rw [hne]
    exact isPlain_nil
  · obtain ⟨i, hi⟩ := List.mem_iff_getElem?.mp ht
    obtain ⟨p, hp, -, htext⟩ := h i t hi hne
    exact (hdoc p hp).suffix htext

/-- The numbered lines of such a text are those it was made of. -/
theorem HasText.text_numberedLines {text : List Char} {first : Nat} (h : HasText doc text first)
    {i : Nat} {l : Line} (hl : (numberedLines text first)[i]? = some l) :
    l.number = first + i ∧ (segments text)[i]? = some l.text := by
  unfold numberedLines at hl
  rw [List.getElem?_map, List.getElem?_zipIdx, Option.map_map, Option.map_eq_some_iff] at hl
  obtain ⟨line, hline, rfl⟩ := hl
  obtain ⟨seg, hseg, heq⟩ := segments_of_lines hline
  have hplain := h.isPlain hdoc (List.mem_of_getElem? hseg)
  have hkeep : seg = line := by
    rcases heq with heq | heq
    · exact heq
    · have hcr := hplain.trimmed '\r' (by rw [heq, List.getLast?_concat]; rfl)
      exact absurd hcr (by decide)
  rw [hkeep] at hplain hseg
  refine ⟨?_, ?_⟩
  · simp
  · rw [hseg]
    exact congrArg some hplain.expandTabs_trimEnd.symm

end

theorem numberedLines_consecutive (text : List Char) (first : Nat) :
    (numberedLines text first).IsChain fun a b => b.number = a.number + 1 := by
  rw [List.isChain_iff_getElem]
  intro i hi
  simp [numberedLines, Nat.add_assoc]

/-- **Cut into lines again,** a text that comes from the document is a part of it. -/
theorem HasText.isPart {doc : List Line} (hdoc : ArePlain doc) {text : List Char} {first : Nat}
    (h : HasText doc text first) : IsPart doc (numberedLines text first) where
  fits := by
    intro l hl hne
    obtain ⟨i, hi⟩ := List.mem_iff_getElem?.mp hl
    obtain ⟨hnumber, hseg⟩ := h.text_numberedLines hdoc hi
    obtain ⟨p, hp, hp', htext⟩ := h i l.text hseg hne
    exact ⟨p, hp, hp'.trans hnumber.symm, htext⟩
  consecutive := numberedLines_consecutive text first

/-! ## Lines of lines -/

/-- Consecutive lines are a part of themselves. -/
theorem isPart_self {lines : List Line}
    (h : lines.IsChain fun a b => b.number = a.number + 1) : IsPart lines lines :=
  ⟨fun _ hl => Line.fits_of_mem hl, h⟩

/-- What comes from lines of a document comes from the document. -/
theorem HasText.trans {doc lines : List Line} (hlines : ∀ l ∈ lines, l.Fits doc) {text : List Char}
    {first : Nat} (h : HasText lines text first) : HasText doc text first := by
  intro i t ht hne
  obtain ⟨p, hp, hnumber, htext⟩ := h i t ht hne
  have hpne : p.text ≠ [] := by
    intro hnil
    rw [hnil] at htext
    exact hne (List.eq_nil_of_suffix_nil htext)
  obtain ⟨q, hq, hqnumber, hqtext⟩ := hlines p hp hpne
  exact ⟨q, hq, hqnumber.trans hnumber, htext.trans hqtext⟩

theorem IsPart.arePlain {doc lines : List Line} (hdoc : ArePlain doc) (h : IsPart doc lines) :
    ArePlain lines :=
  fun l hl => (h.fits l hl).isPlain hdoc

/-! ## Nodes that come from a document -/

/-- The text of a node that is run, if it is a test. -/
def Node.session (n : Node) : List Char := n.attributes.test.getD n.text

/-- The line of the document on which the text of a node begins. -/
def Node.firstLine (n : Node) : Nat := n.contentLine.getD (n.line.getD 1)

/-- Whether a node shows its text as it stands in the document. -/
def Node.isVerbatim (n : Node) : Bool :=
  n.kind == .literalBlock || n.kind == .doctestBlock || n.attributes.testKind.isSome

/-- **A leaf comes from a document** if its text does, where it stands, and if it is a title of a
line of the document. -/
structure Node.Fits (doc : List Line) (n : Node) : Prop where
  /-- There are no children yet. -/
  children : n.children = []
  /-- The text stands where the node says. -/
  text : n.isVerbatim = true → HasText doc n.session n.firstLine
  /-- A title stands on a line that is not blank. -/
  title : n.kind = .section → ∃ p ∈ doc, p.text ≠ [] ∧ n.line = some p.number

theorem Node.Fits.trans {doc lines : List Line} (hlines : ∀ l ∈ lines, l.Fits doc) {n : Node}
    (h : n.Fits lines) : n.Fits doc where
  children := h.children
  text := fun hn => (h.text hn).trans hlines
  title := by
    intro hn
    obtain ⟨p, hp, hne, hline⟩ := h.title hn
    obtain ⟨q, hq, hnumber, htext⟩ := hlines p hp hne
    refine ⟨q, hq, ?_, ?_⟩
    · intro hnil
      rw [hnil] at htext
      exact hne (List.eq_nil_of_suffix_nil htext)
    · rw [hline, hnumber]

theorem Node.Fits.mono {doc doc' : List Line} (hsub : doc ⊆ doc') {n : Node} (h : n.Fits doc) :
    n.Fits doc' where
  children := h.children
  text := fun hn => (h.text hn).mono hsub
  title := by
    intro hn
    obtain ⟨p, hp, hne, hline⟩ := h.title hn
    exact ⟨p, hsub hp, hne, hline⟩

end Transcript.Doc
