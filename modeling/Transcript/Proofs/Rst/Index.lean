import Transcript.Proofs.Rst.Block
import Transcript.Proofs.Text.Search

/-!
# Blocks by the indices of their lines

A block can be read from the lines of a text and the index of its first one: it cuts its lines out of them, takes
texts of lines apart at positions in bytes, and tells the index behind it. A cut gives nothing if its ends are out of
order, behind the end, or inside of a character.

Results:
* `endFrom_eq`, `indentedEnd_eq`, `trimBlank?_eq`: where lines of a kind end.
* `blockAt?_eq`: the cuts of a block never fail, and what it reads is the block that begins there.
* `foundIn_bounds`: the index behind a block is greater than that of its first line.
-/

namespace Transcript.Rst

open Doc

/-! ## Where lines end -/

/-- The index of the first line from an index on that is not of a kind; the number of lines if there is none. -/
def endFrom (p : Line → Bool) (lines : List Line) (i : Nat) : Nat :=
  if h : i < lines.length then if p lines[i] then endFrom p lines (i + 1) else i else lines.length
termination_by lines.length - i

/-- The end of a block of blank lines and lines indented by at least so many spaces: it is `last` if only blank ones
come from an index on. -/
def indentedEndFrom (lines : List Line) (indent last i : Nat) : Nat :=
  if h : i < lines.length then
    if lines[i].within indent then
      indentedEndFrom lines indent (if lines[i].isBlank then last else i + 1) (i + 1)
    else last
  else last
termination_by lines.length - i

/-- **The end of a block** of blank lines and lines indented by at least so many spaces, without the blank lines at
its end. -/
def indentedEnd (lines : List Line) (start indent : Nat) : Nat := indentedEndFrom lines indent start start

/-- The index behind the last line before an index that is not blank. -/
def endBefore? (lines : List Line) : Nat → Option Nat
  | 0 => none
  | i + 1 => if (lines[i]?).all Line.isBlank then endBefore? lines i else some (i + 1)

/-- Lines without the blank lines at both ends, cut out of them. -/
def trimBlank? (lines : List Line) : Option (List Line) :=
  let start := endFrom Line.isBlank lines 0
  Text.between? start ((endBefore? lines lines.length).getD start) lines

/-! ## Blocks -/

/-- What has been read, and the index of the line after it. -/
abbrev Found := List Piece × Nat

/-- A block quote. -/
def blockQuoteAt? (lines : List Line) (start : Nat) : Option Found := do
  let first ← lines[start]?
  let stop := indentedEnd lines start 1
  let block ← Text.between? start stop lines
  let body ← trimBlank? block
  some ([.container first.number (dedent body)], stop)

/-- A list item. -/
def listItemAt? (lines : List Line) (start width : Nat) : Option Found := do
  let first ← lines[start]?
  let stop := indentedEnd lines (start + 1) width
  let text ← Text.dropBytes width first.text
  let block ← Text.between? (start + 1) stop lines
  let body ← trimBlank? (⟨first.number, text⟩ :: block.map (Line.cut width))
  some ([.container first.number body], stop)

/-- A doctest block. -/
def doctestBlockAt? (lines : List Line) (start : Nat) : Option Found := do
  let first ← lines[start]?
  let stop := endFrom (fun l => !l.isBlank) lines start
  let block ← Text.between? start stop lines
  some ([.node (.atLine .doctestBlock (joinedText block) first.number)], stop)

/-- A title between two lines of the same adornment. -/
def overlinedAt? (lines : List Line) (first : Line) (start : Nat) : Option Found := do
  let c ← adornment? first.text
  let title ← lines[start + 1]?
  let under ← lines[start + 2]?
  if adornment? under.text = some c && !title.isBlank then
    some ([titleNode title.text first.number], start + 3)
  else none

/-- A title above a line of adornment. -/
def underlinedAt? (lines : List Line) (first : Line) (start : Nat) : Option Found := do
  let under ← lines[start + 1]?
  if under.indent = 0 && (adornment? under.text).isSome then
    let title := titleNode first.text first.number
    let width := under.text.length
    if (Text.trim first.text).length ≤ width then some ([title], start + 2)
    else if width < 4 then none
    else some ([.trouble under.number .shortUnderline, title], start + 2)
  else none

/-- A section title or a transition, if there is one. -/
def sectionAt? (lines : List Line) (first : Line) (start : Nat) : Option Found :=
  match overlinedAt? lines first start with
  | some found => some found
  | none =>
    if (adornment? first.text).isSome then
      if (lines[start + 1]?).all (·.isBlank) && 4 ≤ first.text.length then some ([], start + 1) else none
    else underlinedAt? lines first start

/-- A literal block that has been announced. -/
def literalBlockAt? (lines : List Line) (after : Nat) : Option Found :=
  let start := endFrom Line.isBlank lines after
  match lines[start]? with
  | none => some ([.trouble ((lines.getLast?.map Line.number).getD 1) .noLiteralBlock], start)
  | some first =>
    let node (body : List Line) : Piece := .node (.atLine .literalBlock (joinedText body) first.number)
    if 0 < first.indent then do
      let stop := indentedEnd lines start 1
      let block ← Text.between? start stop lines
      let body ← trimBlank? block
      some ([node (dedent body)], stop)
    else
      match first.text.head?.filter adornmentChars.contains with
      | none => some ([.trouble first.number .noLiteralBlock], start)
      | some quote => do
        let stop := endFrom (fun l => !l.isBlank) lines start
        let block ← Text.between? start stop lines
        let uneven := block.any fun l => l.text.head? != some quote
        let troubles := if uneven then [Piece.trouble first.number .unevenQuoting] else []
        some (troubles ++ [node block], stop)

/-- A paragraph, and the literal block that two colons at its end announce. -/
def paragraphAt? (lines : List Line) (start : Nat) : Option Found := do
  let first ← lines[start]?
  let stop := endFrom (fun l => !l.isBlank && l.indent == 0) lines (start + 1)
  let block ← Text.between? start stop lines
  let text := joinedText block
  let node (text : List Char) : List Piece :=
    if text.isEmpty then [] else [.node (.atLine .paragraph text first.number)]
  if (Text.beforeEnd? [':', ':'] text).isSome then
    let body ← Text.takeBytes (Text.byteLength text - 2) text
    let (pieces, next) ← literalBlockAt? lines stop
    some (node (announcement body) ++ pieces, next)
  else some (node text, stop)

/-- A directive with its options and its body. -/
def invocationAt? (first : Line) (name : String) (argument : Option (List Char)) (body : List Line) :
    Option Invocation := do
  let count := endFrom (fun l => (optionLine? l.text).isSome) body 0
  let rest ← Text.between? count body.length body
  let content := dedent (← trimBlank? rest)
  some ⟨name, argument, (body.take count).filterMap (optionLine? ·.text), joinedText content, first.number,
    (content.head?.map Line.number).getD (first.number + 1)⟩

/-- A directive or a comment. -/
def explicitMarkupAt? (lines : List Line) (start : Nat) : Option Found := do
  let first ← lines[start]?
  let stop := indentedEnd lines (start + 1) 1
  let rest ← Text.dropBytes 2 first.text
  let block ← Text.between? (start + 1) stop lines
  let body := dedent (← trimBlank? block)
  match directiveHead? (Text.trim rest) with
  | none => some ([commentPiece first (Text.trim rest) body], stop)
  | some (name, argument) => do
    let inv ← invocationAt? first name argument body
    some ([.directive inv], stop)

/-- **The block that begins at an index,** and the index of the line after it. There is none if a cut fails. -/
def blockAt? (lines : List Line) (start : Nat) : Option Found := do
  let first ← lines[start]?
  if 0 < first.indent then blockQuoteAt? lines start
  else if isExplicitMarkup first.text then explicitMarkupAt? lines start
  else
    match sectionAt? lines first start with
    | some found => some found
    | none =>
      match itemWidth? first.text with
      | some width => listItemAt? lines start width
      | none => if isPrompt first.text then doctestBlockAt? lines start else paragraphAt? lines start

/-! ## Ends -/

/-- Lines of a kind go on to where they end. -/
theorem endFrom_eq (p : Line → Bool) {lines : List Line} {i : Nat} (h : i ≤ lines.length) :
    endFrom p lines i = i + ((lines.drop i).takeWhile p).length := by
  fun_induction endFrom p lines i with
  | case1 i hi hp ih =>
    rw [ih hi, List.drop_eq_getElem_cons hi, List.takeWhile_cons_of_pos hp, List.length_cons]
    omega
  | case2 i hi hp =>
    rw [List.drop_eq_getElem_cons hi, List.takeWhile_cons_of_neg hp]
    rfl
  | case3 i hi =>
    rw [List.drop_eq_nil_of_le (Nat.le_of_not_lt hi)]
    exact Nat.le_antisymm (Nat.le_of_not_lt hi) h

theorem dropBlankEnd_cons_blank {first : Line} (hb : first.isBlank = true) (rest : List Line) :
    dropBlankEnd (first :: rest) = if (dropBlankEnd rest).isEmpty then [] else first :: dropBlankEnd rest := by
  unfold dropBlankEnd
  rw [List.reverse_cons, List.dropWhile_append, List.isEmpty_reverse, List.dropWhile_cons_of_pos hb]
  split_ifs
  · rfl
  · exact List.reverse_concat

theorem dropBlankEnd_concat (lines : List Line) (last : Line) :
    dropBlankEnd (lines ++ [last]) = if last.isBlank then dropBlankEnd lines else lines ++ [last] := by
  unfold dropBlankEnd
  rw [List.reverse_concat, List.dropWhile_cons]
  split_ifs
  · rfl
  · rw [List.reverse_cons, List.reverse_reverse]

theorem indentedEndFrom_eq (lines : List Line) (indent last i : Nat) :
    indentedEndFrom lines indent last i =
      if (indentedBlock indent (lines.drop i)).isEmpty then last
      else i + (indentedBlock indent (lines.drop i)).length := by
  fun_induction indentedEndFrom lines indent last i with
  | case1 last i hi hw ih =>
    have hblock : indentedBlock indent (lines.drop i) =
        dropBlankEnd (lines[i] :: (lines.drop (i + 1)).takeWhile (·.within indent)) := by
      unfold indentedBlock
      rw [List.drop_eq_getElem_cons hi, List.takeWhile_cons_of_pos hw]
    have hrest : dropBlankEnd ((lines.drop (i + 1)).takeWhile (·.within indent)) =
        indentedBlock indent (lines.drop (i + 1)) := rfl
    rw [dite_eq_ite] at ih
    rw [ih, hblock]
    cases hb : lines[i].isBlank with
    | true =>
      rw [dropBlankEnd_cons_blank hb, hrest]
      cases indentedBlock indent (lines.drop (i + 1)) with
      | nil => rfl
      | cons m ms =>
        simp only [List.isEmpty_cons, List.length_cons, Bool.false_eq_true, if_false]
        omega
    | false =>
      rw [dropBlankEnd_cons hb, hrest]
      cases indentedBlock indent (lines.drop (i + 1)) with
      | nil => rfl
      | cons m ms =>
        simp only [List.isEmpty_cons, List.length_cons, Bool.false_eq_true, if_false]
        omega
  | case2 last i hi hw =>
    unfold indentedBlock
    rw [List.drop_eq_getElem_cons hi, List.takeWhile_cons_of_neg hw]
    rfl
  | case3 last i hi =>
    rw [List.drop_eq_nil_of_le (Nat.le_of_not_lt hi)]
    rfl

/-- **An indented block** goes on to its end. -/
theorem indentedEnd_eq (lines : List Line) (indent start : Nat) :
    indentedEnd lines start indent = start + (indentedBlock indent (lines.drop start)).length := by
  unfold indentedEnd
  rw [indentedEndFrom_eq]
  split_ifs with h
  · rw [List.isEmpty_iff.mp h]
    rfl
  · rfl

theorem endBefore?_eq (lines : List Line) {i : Nat} (h : i ≤ lines.length) :
    endBefore? lines i =
      if (dropBlankEnd (lines.take i)).isEmpty then none else some (dropBlankEnd (lines.take i)).length := by
  induction i with
  | zero => rfl
  | succ i ih =>
    rw [endBefore?, ih (Nat.le_of_succ_le h), List.getElem?_eq_getElem h, List.take_succ_eq_append_getElem h,
      dropBlankEnd_concat]
    cases hb : lines[i].isBlank with
    | true => simp [hb]
    | false =>
      have hlength : (lines.take i ++ [lines[i]]).length = i + 1 := by
        rw [List.length_append, List.length_take_of_le (Nat.le_of_succ_le h)]
        rfl
      have hne : (lines.take i ++ [lines[i]]).isEmpty = false :=
        List.isEmpty_eq_false_iff.mpr (List.append_ne_nil_of_right_ne_nil _ (List.cons_ne_nil _ _))
      simp only [Option.all_some, hb, hne, hlength, Bool.false_eq_true, if_false]

/-- The blank lines at the beginning of lines come before those that are not blank. -/
theorem trimBlank_eq_drop (lines : List Line) :
    trimBlank lines = (dropBlankEnd lines).drop (lines.takeWhile Line.isBlank).length ∧
      (dropBlankEnd lines ≠ [] → (lines.takeWhile Line.isBlank).length ≤ (dropBlankEnd lines).length) := by
  induction lines with
  | nil => exact ⟨rfl, fun h => absurd rfl h⟩
  | cons l ls ih =>
    obtain ⟨htrim, hle⟩ := ih
    cases hb : l.isBlank with
    | false =>
      rw [List.takeWhile_cons_of_neg (by simp [hb]), trimBlank, List.dropWhile_cons_of_neg (by simp [hb])]
      exact ⟨rfl, fun _ => Nat.zero_le _⟩
    | true =>
      have hdrop : trimBlank (l :: ls) = trimBlank ls := by
        unfold trimBlank
        rw [List.dropWhile_cons_of_pos hb]
      rw [hdrop, htrim, List.takeWhile_cons_of_pos hb, dropBlankEnd_cons_blank hb]
      cases hempty : dropBlankEnd ls with
      | nil => exact ⟨by simp, fun h => absurd rfl h⟩
      | cons m ms =>
        rw [hempty] at hle
        exact ⟨rfl, fun _ => Nat.succ_le_succ (hle (List.cons_ne_nil m ms))⟩

/-- **Trimming lines** cuts out lines that are there. -/
theorem trimBlank?_eq (lines : List Line) : trimBlank? lines = some (trimBlank lines) := by
  obtain ⟨htrim, hle⟩ := trimBlank_eq_drop lines
  have hstart : (lines.takeWhile Line.isBlank).length ≤ lines.length := (List.takeWhile_prefix _).length_le
  unfold trimBlank?
  rw [endFrom_eq _ (Nat.zero_le _), endBefore?_eq lines (Nat.le_refl _), List.take_length, List.drop_zero, Nat.zero_add,
    htrim]
  by_cases hempty : dropBlankEnd lines = []
  · simp [hempty, Text.between?_of_le (Nat.le_refl _) hstart]
  · have hprefix : dropBlankEnd lines = lines.take (dropBlankEnd lines).length :=
      List.prefix_iff_eq_take.mp (dropBlankEnd_isPrefix lines)
    simp only [List.isEmpty_iff, hempty, if_false, Option.getD_some]
    rw [Text.between?_of_le (hle hempty) (dropBlankEnd_isPrefix lines).length_le, ← hprefix]

/-! ## The block at an index -/

/-- **The index behind what has been read** is that of the lines after it. -/
def foundIn (lines : List Line) (taken : Taken) : Found := (taken.1, lines.length - taken.2.length)

theorem index_drop {lines : List Line} {i k : Nat} (h : i + k ≤ lines.length) :
    lines.length - ((lines.drop i).drop k).length = i + k := by
  rw [List.length_drop, List.length_drop]
  omega

/-- The lines at the beginning of those from an index on are cut out, and the others come after them. -/
theorem cut_at {lines block : List Line} {i : Nat} (h : block <+: lines.drop i) (hi : i ≤ lines.length) :
    Text.between? i (i + block.length) lines = some block ∧
      lines.length - ((lines.drop i).drop block.length).length = i + block.length := by
  refine ⟨Text.between?_drop h hi, index_drop ?_⟩
  have := h.length_le
  rw [List.length_drop] at this
  omega

section

variable {lines rest : List Line} {i : Nat} {first : Line} (h : lines.drop i = first :: rest)
include h

theorem getElem?_at : lines[i]? = some first := by
  rw [← List.head?_drop, h]
  rfl

theorem drop_succ_at : lines.drop (i + 1) = rest := by
  rw [← List.drop_drop, h]
  rfl

theorem lt_length_at : i < lines.length := (List.getElem?_eq_some_iff.mp (getElem?_at h)).1

theorem blockQuoteAt?_eq : blockQuoteAt? lines i = some (foundIn lines (blockQuote first rest)) := by
  obtain ⟨hcut, hindex⟩ := cut_at (indentedBlock_isPrefix 1 (lines.drop i)) (Nat.le_of_lt (lt_length_at h))
  unfold blockQuoteAt? foundIn blockQuote
  rw [getElem?_at h, indentedEnd_eq, ← h, hindex]
  simp only [Option.bind_eq_bind, Option.bind_some, hcut, trimBlank?_eq]

theorem length_at : lines.length = i + 1 + rest.length := by
  have hlt := lt_length_at h
  have hlength := congrArg List.length (drop_succ_at h)
  rw [List.length_drop] at hlength
  omega

/-- The lines at the beginning of those after the first one are cut out, and the others come after them. -/
theorem cut_after {block : List Line} (hblock : block <+: rest) :
    Text.between? (i + 1) (i + 1 + block.length) lines = some block ∧
      lines.length - (rest.drop block.length).length = i + 1 + block.length := by
  rw [← drop_succ_at h] at hblock ⊢
  exact cut_at hblock (lt_length_at h)

/-- A list item. The marker of an item stands on its first line. -/
theorem listItemAt?_eq {width : Nat} {text : List Char} (hwidth : Text.dropBytes width first.text = some text) :
    listItemAt? lines i width = some (foundIn lines (listItem width first rest)) := by
  obtain ⟨hcut, hindex⟩ := cut_after h (indentedBlock_isPrefix width rest)
  have hfirst : (⟨first.number, text⟩ : Line) = first.cut width := by
    unfold Line.cut
    rw [hwidth]
    rfl
  unfold listItemAt? foundIn listItem
  rw [getElem?_at h, indentedEnd_eq, drop_succ_at h, hindex]
  simp only [Option.bind_eq_bind, Option.bind_some, hwidth, hcut, trimBlank?_eq, hfirst, List.map_cons]

theorem doctestBlockAt?_eq (hb : first.isBlank = false) :
    doctestBlockAt? lines i = some (foundIn lines (doctestBlock first rest)) := by
  have hblock : (lines.drop i).takeWhile (fun l => !l.isBlank) = first :: textBlock rest := by
    rw [h]
    exact textBlock_cons hb rest
  have hprefix : first :: textBlock rest <+: lines.drop i := hblock ▸ List.takeWhile_prefix _
  obtain ⟨hcut, hindex⟩ := cut_at hprefix (Nat.le_of_lt (lt_length_at h))
  rw [h] at hindex
  unfold doctestBlockAt? foundIn doctestBlock
  rw [getElem?_at h, endFrom_eq _ (Nat.le_of_lt (lt_length_at h)), hblock]
  simp only [Option.bind_eq_bind, Option.bind_some, hcut]
  rw [← hindex]
  rfl

theorem overlinedAt?_eq : overlinedAt? lines first i = (overlined? first rest).map (foundIn lines) := by
  have hlines (k : Nat) : lines[i + 1 + k]? = rest[k]? := by
    rw [← drop_succ_at h, List.getElem?_drop]
  have hlength := length_at h
  unfold overlinedAt? overlined?
  cases adornment? first.text with
  | none => rfl
  | some c =>
    simp only [Option.bind_eq_bind, Option.bind_some]
    rw [hlines 0, hlines 1]
    rcases rest with _ | ⟨title, _ | ⟨under, after⟩⟩
    · rfl
    · rfl
    · simp only [List.length_cons] at hlength
      simp only [List.getElem?_cons_zero, List.getElem?_cons_succ, Option.bind_some]
      split_ifs
      · simp only [Option.map_some, foundIn, Option.some_inj, Prod.mk.injEq, true_and]
        omega
      · rfl

theorem underlinedAt?_eq : underlinedAt? lines first i = (underlined? first rest).map (foundIn lines) := by
  have hlines : lines[i + 1]? = rest.head? := by
    rw [← drop_succ_at h, List.head?_drop]
  have hlength := length_at h
  unfold underlinedAt? underlined?
  rw [hlines]
  cases rest with
  | nil => rfl
  | cons under after =>
    rw [List.length_cons] at hlength
    have hindex : lines.length - after.length = i + 2 := by omega
    simp only [List.head?_cons, Option.bind_eq_bind, Option.bind_some]
    split_ifs <;> simp only [Option.map_some, Option.map_none, foundIn, hindex]

theorem sectionAt?_eq : sectionAt? lines first i = (section? first rest).map (foundIn lines) := by
  have hlines : lines[i + 1]? = rest.head? := by
    rw [← drop_succ_at h, List.head?_drop]
  have hindex : lines.length - rest.length = i + 1 := by
    have := length_at h
    omega
  unfold sectionAt? section?
  rw [overlinedAt?_eq h, underlinedAt?_eq h, hlines]
  cases overlined? first rest with
  | some taken => rfl
  | none =>
    simp only [Option.map_none]
    split_ifs <;> simp only [Option.map_some, Option.map_none, foundIn, hindex]

end

/-- A literal block that is announced by the lines before an index. -/
theorem literalBlockAt?_eq {lines : List Line} {after : Nat} (hafter : after ≤ lines.length) :
    literalBlockAt? lines after =
      some (foundIn lines (literalBlock ((lines.getLast?.map Line.number).getD 1) (lines.drop after))) := by
  have hdrop : lines.drop (endFrom Line.isBlank lines after) = (lines.drop after).dropWhile Line.isBlank := by
    have hsplit := List.takeWhile_append_dropWhile (p := Line.isBlank) (l := lines.drop after)
    rw [endFrom_eq _ hafter, ← List.drop_drop]
    exact (congrArg (List.drop _) hsplit.symm).trans List.drop_left
  have hle : endFrom Line.isBlank lines after ≤ lines.length := by
    have := (List.takeWhile_prefix Line.isBlank (l := lines.drop after)).length_le
    rw [List.length_drop] at this
    rw [endFrom_eq _ hafter]
    omega
  unfold literalBlockAt? literalBlock
  dsimp only
  generalize endFrom Line.isBlank lines after = start at hdrop hle ⊢
  have hget : lines[start]? = ((lines.drop after).dropWhile Line.isBlank).head? := by
    rw [← hdrop, List.head?_drop]
  have hindex : lines.length - ((lines.drop after).dropWhile Line.isBlank).length = start := by
    rw [← hdrop, List.length_drop]
    omega
  rw [hget]
  cases hrest : (lines.drop after).dropWhile Line.isBlank with
  | nil =>
    rw [hrest] at hindex
    unfold foundIn
    rw [hindex]
    rfl
  | cons first rest =>
    rw [hrest] at hdrop hindex
    have hb : first.isBlank = false := by
      have := List.head?_dropWhile_not Line.isBlank (lines.drop after)
      rw [hrest] at this
      simpa using this
    simp only [List.head?_cons]
    split_ifs with hi
    · obtain ⟨hcut, hnext⟩ := cut_at (indentedBlock_isPrefix 1 (lines.drop start)) hle
      rw [indentedEnd_eq]
      rw [hdrop] at hcut hnext ⊢
      simp only [Option.bind_eq_bind, Option.bind_some, hcut, trimBlank?_eq, foundIn, hnext]
    · cases first.text.head?.filter adornmentChars.contains with
      | none =>
        unfold foundIn
        rw [hindex]
      | some quote =>
        have hblock : textBlock (first :: rest) <+: lines.drop start := hdrop ▸ textBlock_isPrefix (first :: rest)
        obtain ⟨hcut, hnext⟩ := cut_at hblock hle
        rw [endFrom_eq _ hle]
        rw [hdrop] at hnext ⊢
        change (Text.between? start (start + (textBlock (first :: rest)).length) lines >>= _) = _
        simp only [Option.bind_eq_bind, Option.bind_some, hcut, foundIn, hnext]
        rfl

section

variable {lines rest : List Line} {i : Nat} {first : Line} (h : lines.drop i = first :: rest)
include h

theorem paragraphAt?_eq : paragraphAt? lines i = some (foundIn lines (paragraph first rest)) := by
  have hlt := lt_length_at h
  have hstop : endFrom (fun l => !l.isBlank && l.indent == 0) lines (i + 1) =
      i + (first :: rest.takeWhile fun l => !l.isBlank && l.indent == 0).length := by
    rw [endFrom_eq _ hlt, drop_succ_at h, List.length_cons]
    omega
  have hmore := List.takeWhile_prefix (fun l : Line => !l.isBlank && l.indent == 0) (l := rest)
  have hlast : (first :: rest).getLast? = lines.getLast? := by
    rw [← h, List.getLast?_drop, if_neg (Nat.not_le_of_lt hlt)]
  unfold paragraphAt? paragraph
  rw [getElem?_at h, hstop, hlast]
  generalize (rest.takeWhile fun l : Line => !l.isBlank && l.indent == 0) = more at hmore ⊢
  have hblock : first :: more <+: lines.drop i := h ▸ List.cons_prefix_cons.mpr ⟨rfl, hmore⟩
  obtain ⟨hcut, hindex⟩ := cut_at hblock (Nat.le_of_lt hlt)
  have hafter : lines.drop (i + (first :: more).length) = rest.drop more.length := by
    rw [← List.drop_drop, h]
    rfl
  have hle : i + (first :: more).length ≤ lines.length := by
    have := hblock.length_le
    rw [List.length_drop] at this
    omega
  rw [h] at hindex
  simp only [Option.bind_eq_bind, Option.bind_some, hcut, literalBlockAt?_eq hle, hafter]
  cases htext : Text.beforeEnd? [':', ':'] (joinedText (first :: more)) with
  | none =>
    simp only [Option.isSome_none, Bool.false_eq_true, if_false, foundIn, ← hindex]
    rfl
  | some body =>
    have hbody : Text.takeBytes (Text.byteLength (joinedText (first :: more)) - 2) (joinedText (first :: more)) =
        some body := by
      have heq := Text.beforeEnd?_eq_some.mp htext
      have hlength : Text.byteLength (joinedText (first :: more)) - 2 = Text.byteLength body := by
        rw [heq, Text.byteLength_append]
        exact Nat.add_sub_cancel _ 2
      rw [hlength, heq]
      exact Text.takeBytes_append body _
    simp only [Option.isSome_some, if_true, hbody, Option.bind_some]
    rfl

end

/-- **The options of a directive** come before its content. -/
theorem invocationAt?_eq (first : Line) (name : String) (argument : Option (List Char)) (body : List Line) :
    invocationAt? first name argument body = some (invocationOf first name argument body) := by
  have hcount := endFrom_eq (fun l => (optionLine? l.text).isSome) (Nat.zero_le body.length)
  have hoptions : (body.map fun l => optionLine? l.text).takeWhile Option.isSome =
      (body.takeWhile fun l => (optionLine? l.text).isSome).map fun l => optionLine? l.text := List.takeWhile_map
  have hprefix : (body.takeWhile fun l => (optionLine? l.text).isSome) <+: body := List.takeWhile_prefix _
  rw [List.drop_zero, Nat.zero_add] at hcount
  unfold invocationAt? invocationOf
  simp only [Option.bind_eq_bind, hcount, Text.between?_of_le hprefix.length_le (Nat.le_refl _), List.take_length,
    Option.bind_some, trimBlank?_eq, hoptions, List.length_map, List.filterMap_map, ← List.prefix_iff_eq_take.mp hprefix]
  rfl

/-- The two dots of explicit markup take a byte each. -/
theorem dropBytes_of_isExplicitMarkup {text : List Char} (h : isExplicitMarkup text = true) :
    Text.dropBytes 2 text = some (text.drop 2) := by
  obtain ⟨rest, rfl⟩ : ∃ rest, text = ['.', '.'] ++ rest := by
    unfold isExplicitMarkup at h
    rcases Bool.or_eq_true_iff.mp h with h | h
    · exact ⟨[], eq_of_beq h⟩
    · obtain ⟨more, hmore⟩ := Option.isSome_iff_exists.mp h
      refine ⟨' ' :: more, ?_⟩
      rw [Text.afterBegin?_eq_some.mp hmore]
      rfl
  refine Text.dropBytes_append_ascii (s := ['.', '.']) (fun c hc => ?_) rest
  rcases List.mem_pair.mp hc with rfl | rfl <;> rfl

/-- The spaces behind a marker belong to its width. -/
theorem dropBytes_of_markerWidth? {marker rest : List Char} {width : Nat}
    (h : markerWidth? marker rest = some width) :
    Text.dropBytes width (marker ++ rest) = some (rest.dropWhile (· == ' ')) := by
  have hspaces : Text.byteLength (rest.takeWhile (· == ' ')) = (rest.takeWhile (· == ' ')).length :=
    Text.byteLength_of_ascii fun c hc => by
      have hspace := List.mem_takeWhile_imp (p := (· == ' ')) hc
      rw [eq_of_beq hspace]
      rfl
  unfold markerWidth? at h
  dsimp only at h
  split_ifs at h
  cases h
  rw [← hspaces, ← Text.byteLength_append]
  nth_rewrite 2 [← List.takeWhile_append_dropWhile (p := (· == ' ')) (l := rest)]
  rw [← List.append_assoc]
  exact Text.dropBytes_append _ _

/-- **A list item** has its marker on its first line. -/
theorem dropBytes_of_itemWidth? {text : List Char} {width : Nat} (h : itemWidth? text = some width) :
    ∃ rest, Text.dropBytes width text = some rest := by
  unfold itemWidth? at h
  split at h
  · cases h
  · rename_i c cs
    split_ifs at h
    · exact ⟨_, dropBytes_of_markerWidth? h⟩
    · split at h
      · exact ⟨_, dropBytes_of_markerWidth? h⟩
      · cases h
    · dsimp only at h
      have hsplit : ((c :: cs).span Text.isDecimal).1 ++ ((c :: cs).span Text.isDecimal).2 = c :: cs := by
        rw [List.span_eq_takeWhile_dropWhile]
        exact List.takeWhile_append_dropWhile
      split at h
      · rename_i digit digits d rest hdigits hrest
        split_ifs at h
        rw [hrest, List.append_cons] at hsplit
        rw [← hsplit]
        exact ⟨_, dropBytes_of_markerWidth? h⟩
      · cases h

section

variable {lines rest : List Line} {i : Nat} {first : Line} (h : lines.drop i = first :: rest)
include h

theorem explicitMarkupAt?_eq (hmarkup : isExplicitMarkup first.text = true) :
    explicitMarkupAt? lines i = some (foundIn lines (explicitMarkup first rest)) := by
  obtain ⟨hcut, hindex⟩ := cut_after h (indentedBlock_isPrefix 1 rest)
  unfold explicitMarkupAt? explicitMarkup foundIn
  rw [getElem?_at h, indentedEnd_eq, drop_succ_at h, hindex]
  simp only [Option.bind_eq_bind, Option.bind_some, dropBytes_of_isExplicitMarkup hmarkup, hcut, trimBlank?_eq]
  cases directiveHead? (Text.trim (first.text.drop 2)) with
  | none => rfl
  | some head =>
    simp only [invocationAt?_eq, Option.bind_some]

/-- **The cuts of a block never fail,** and what it reads is the block that begins at its index. -/
theorem blockAt?_eq (hb : first.isBlank = false) :
    blockAt? lines i = some (foundIn lines (nextBlock first rest)) := by
  unfold blockAt? nextBlock
  rw [getElem?_at h]
  simp only [Option.bind_eq_bind, Option.bind_some, sectionAt?_eq h]
  by_cases hindent : 0 < first.indent
  · rw [if_pos hindent, if_pos hindent]
    exact blockQuoteAt?_eq h
  · rw [if_neg hindent, if_neg hindent]
    by_cases hmarkup : isExplicitMarkup first.text = true
    · rw [if_pos hmarkup, if_pos hmarkup]
      exact explicitMarkupAt?_eq h hmarkup
    · rw [if_neg hmarkup, if_neg hmarkup]
      cases section? first rest with
      | some taken => rfl
      | none =>
        cases hitem : itemWidth? first.text with
        | some width =>
          obtain ⟨text, htext⟩ := dropBytes_of_itemWidth? hitem
          exact listItemAt?_eq h htext
        | none =>
          simp only [Option.map_none]
          by_cases hprompt : isPrompt first.text = true
          · rw [if_pos hprompt, if_pos hprompt]
            exact doctestBlockAt?_eq h hb
          · rw [if_neg hprompt, if_neg hprompt]
            exact paragraphAt?_eq h

/-- **The index behind a block** is greater than that of its first line, and the lines from there on are those after
the block. -/
theorem foundIn_bounds {taken : Taken} (htaken : taken.2 <:+ rest) :
    i < (foundIn lines taken).2 ∧ (foundIn lines taken).2 ≤ lines.length ∧
      lines.drop (foundIn lines taken).2 = taken.2 := by
  have hlength := length_at h
  obtain ⟨block, rfl⟩ := htaken
  rw [List.length_append] at hlength
  have hindex : lines.length - taken.2.length = i + 1 + block.length := by omega
  unfold foundIn
  rw [hindex]
  refine ⟨by omega, by omega, ?_⟩
  rw [← List.drop_drop, drop_succ_at h, List.drop_left]

end

end Transcript.Rst
