import Transcript.Proofs.Doc.Outline
import Transcript.Proofs.Rst.Opening
import Transcript.Proofs.Test.Region

/-!
# Prompts at the margin

A prompt at the margin that begins a document or stands behind a blank line begins the session of a
test case. There is one exception: what follows the prompt may look like the underline of a title,
and the reader looks for titles first. Then the prompt becomes a title and its example is lost.

Results:
* `linesOutline_decided`: the outline of lines makes a prompt the beginning of a session or a title.
* `prompt_begins_case`: a test case begins with a prompt unless the prompt is a title.
* `adorned_prompt_lost`: an output of equality signs below a prompt makes it a title.
-/

namespace Transcript.Test

open Doc Text Lang Rst

/-! ## What becomes of a prompt -/

/-- A node whose session begins on a line, and with it. -/
def BeginsWith (l : Line) (n : Node) : Prop :=
  isRegion n = true ∧ n.firstLine = l.number ∧ (segments n.session).head? = some l.text

/-- A title on a line. -/
def IsTitleOn (l : Line) (n : Node) : Prop := n.kind = .section ∧ n.line = some l.number

/-- Nodes that neither show a line nor are a title on it. -/
def Apart (l : Line) (nodes : List Node) : Prop := ∀ n ∈ nodes, ¬BeginsWith l n ∧ ¬IsTitleOn l n

/-- **What becomes of a line** with some lines after it: a session begins with it and it is no title,
or it is a title, in front of what looks like one, and no session begins with it. -/
inductive Decided (l : Line) (post : List Line) (nodes : List Node) : Prop
  | shown (hshown : ∃ n ∈ nodes, BeginsWith l n) (htitle : ∀ n ∈ nodes, ¬IsTitleOn l n)
  | title (htitle : ∃ n ∈ nodes, IsTitleOn l n) (hshown : ∀ n ∈ nodes, ¬BeginsWith l n)
      (hsection : (section? l post).isSome)

section

variable {l : Line} {post : List Line} {a b : List Node}

theorem Decided.append_right (ha : Decided l post a) (hb : Apart l b) : Decided l post (a ++ b) := by
  cases ha with
  | shown hshown htitle =>
    obtain ⟨n, hn, hshows⟩ := hshown
    refine .shown ⟨n, List.mem_append_left b hn, hshows⟩ fun m hm => ?_
    exact (List.mem_append.mp hm).elim (htitle m) fun hm => (hb m hm).2
  | title htitle hshown hsection =>
    obtain ⟨n, hn, htitles⟩ := htitle
    refine .title ⟨n, List.mem_append_left b hn, htitles⟩ (fun m hm => ?_) hsection
    exact (List.mem_append.mp hm).elim (hshown m) fun hm => (hb m hm).1

theorem Decided.append_left (ha : Apart l a) (hb : Decided l post b) : Decided l post (a ++ b) := by
  cases hb with
  | shown hshown htitle =>
    obtain ⟨n, hn, hshows⟩ := hshown
    refine .shown ⟨n, List.mem_append_right a hn, hshows⟩ fun m hm => ?_
    exact (List.mem_append.mp hm).elim (fun hm => (ha m hm).2) (htitle m)
  | title htitle hshown hsection =>
    obtain ⟨n, hn, htitles⟩ := htitle
    refine .title ⟨n, List.mem_append_right a hn, htitles⟩ (fun m hm => ?_) hsection
    exact (List.mem_append.mp hm).elim (fun hm => (ha m hm).1) (hshown m)

/-- Nodes that come from other lines have nothing to do with a line. -/
theorem apart_of_fits {lines : List Line} {nodes : List Node} (hne : l.text ≠ [])
    (hnumber : ∀ p ∈ lines, p.number ≠ l.number) (h : ∀ n ∈ nodes, n.Fits lines) :
    Apart l nodes := by
  refine fun n hn => ⟨?_, ?_⟩
  · rintro ⟨hregion, hline, hhead⟩
    rw [List.head?_eq_getElem?] at hhead
    obtain ⟨p, hp, hp', -⟩ := (h n hn).text (isVerbatim_of_isRegion hregion) 0 l.text hhead hne
    exact hnumber p hp (hp'.trans hline)
  · rintro ⟨hkind, hline⟩
    obtain ⟨p, hp, -, hp'⟩ := (h n hn).title hkind
    rw [hline, Option.some_inj] at hp'
    exact hnumber p hp hp'.symm

end

/-! ## Blocks that are read no further -/

/-- The nodes of a part that is read no further. -/
def leavesOf : Piece → List Node
  | .node n => [n.leaf]
  | _ => []

/-- What a block adds whose parts are read no further. -/
theorem outlineLeaves_pieces (d : Directives) (fuel : Nat) {pieces : List Piece}
    (h : ∀ p ∈ pieces, (∃ line t, p = .trouble line t) ∨ ∃ n, p = .node n) :
    outlineLeaves d (pieces.flatMap (pieceOutline d (fuel + 1))) = pieces.flatMap leavesOf := by
  rw [outlineLeaves, List.flatMap_assoc]
  refine List.flatMap_congr fun p hp => ?_
  rcases h p hp with ⟨line, t, rfl⟩ | ⟨n, rfl⟩
  · rfl
  · rfl

section

variable {l : Line} (hl : isPrompt l.text = true) {post : List Line} {pieces : List Piece}
include hl

theorem joinedText_begins (block : List Line) : beginsWithPrompt (joinedText (l :: block)) = true := by
  obtain ⟨rest, h, -⟩ := isPrompt_eq hl
  unfold beginsWithPrompt joinedText
  rw [List.map_cons, h]
  cases block with
  | nil => rfl
  | cons m ms =>
    rw [List.map_cons, joinLines_cons_cons]
    rfl

/-- A node that shows the lines from a prompt on begins with it. -/
theorem beginsWith_atLine (hfeed : '\n' ∉ l.text) {kind : NodeKind}
    (hkind : kind = .doctestBlock ∨ kind = .literalBlock) (block : List Line) :
    BeginsWith l (Node.atLine kind (joinedText (l :: block)) l.number).leaf := by
  refine ⟨?_, rfl, head?_segments_joinLines hfeed _⟩
  rcases hkind with rfl | rfl
  · rfl
  · exact joinedText_begins hl block

theorem shows_decided (hfeed : '\n' ∉ l.text) (h : Shows l pieces) :
    Decided l post (pieces.flatMap leavesOf) := by
  obtain ⟨kind, block, hkind, hmem⟩ := h.node
  refine .shown ⟨_, List.mem_flatMap.mpr ⟨_, hmem, List.mem_cons_self⟩, beginsWith_atLine hl hfeed hkind block⟩
    fun n hn htitle => ?_
  obtain ⟨p, hp, hn⟩ := List.mem_flatMap.mp hn
  rcases h.leaves p hp with ⟨line, t, rfl⟩ | ⟨m, rfl, hm⟩
  · exact absurd hn List.not_mem_nil
  · rw [List.mem_singleton.mp hn] at htitle
    exact hm htitle.1

omit hl in
theorem titles_decided (h : Titles l pieces) (hsection : (section? l post).isSome) :
    Decided l post (pieces.flatMap leavesOf) := by
  obtain ⟨text, hmem⟩ := h.title
  refine .title ⟨_, List.mem_flatMap.mpr ⟨_, hmem, List.mem_cons_self⟩, rfl, rfl⟩ (fun n hn hshows => ?_)
    hsection
  obtain ⟨p, hp, hn⟩ := List.mem_flatMap.mp hn
  rcases h.leaves p hp with ⟨line, t, rfl⟩ | ⟨text, rfl⟩
  · exact absurd hn List.not_mem_nil
  · rw [List.mem_singleton.mp hn] at hshows
    exact absurd hshows.1 (by simp [isRegion, Node.leaf, Node.atLine, Node.make])

end

/-! ## Reading -/

section

variable (d : Directives) {l : Line} (hl : isPrompt l.text = true) {post : List Line}
include hl

theorem text_ne_nil : l.text ≠ [] := by
  obtain ⟨rest, h, -⟩ := isPrompt_eq hl
  rw [h]
  exact List.cons_ne_nil _ _

/-- A block that decides about a prompt, with other lines after it. -/
theorem block_decided {fuel : Nat} {taken : Taken}
    (hleaf : ∀ p ∈ taken.1, (∃ line t, p = .trouble line t) ∨ ∃ n, p = .node n)
    (hdecided : Decided l post (taken.1.flatMap leavesOf)) (hlines : AreLines taken.2)
    (hother : ∀ p ∈ taken.2, p.number ≠ l.number) :
    Decided l post (outlineLeaves d
      (taken.1.flatMap (pieceOutline d (fuel + 1)) ++ linesOutline d (fuel + 1) taken.2)) := by
  have hafter := (leaves_fit d (fuel + 1)).1 taken.2 hlines
  rw [outlineLeaves_append, outlineLeaves_pieces d fuel hleaf]
  exact hdecided.append_right (apart_of_fits (text_ne_nil hl) hother hafter)

/-- The lines from a prompt on: its block shows it or makes it a title. -/
theorem outlineFrom_decided {fuel : Nat} (hlines : AreLines (l :: post)) :
    Decided l post (outlineLeaves d
      ((nextBlock l post).1.flatMap (pieceOutline d (fuel + 1)) ++
        linesOutline d (fuel + 1) (nextBlock l post).2)) := by
  obtain ⟨block, hpost, -, hlines', -⟩ := hlines.nextBlock (isBlank_of_isPrompt hl)
  have hfeed : '\n' ∉ l.text := (hlines.plain l List.mem_cons_self).feed_not_mem
  have hafter : (nextBlock l post).2 <:+ post := ⟨block, hpost.symm⟩
  have hother : ∀ p ∈ (nextBlock l post).2, p.number ≠ l.number :=
    fun p hp => (AreLines.number_ne [] hlines).2 p (hafter.subset hp)
  rcases nextBlock_prompt hl post with h | ⟨h, hsection⟩
  · refine block_decided d hl (fun p hp => ?_) (shows_decided hl hfeed h) hlines' hother
    exact (h.leaves p hp).imp_right fun ⟨n, hn, _⟩ => ⟨n, hn⟩
  · refine block_decided d hl (fun p hp => ?_) (titles_decided h hsection) hlines' hother
    exact (h.leaves p hp).imp_right fun ⟨text, ht⟩ => ⟨_, ht⟩

/-- **The outline of lines makes a prompt that opens a block the beginning of a session, or a title.** The
induction is on the number of steps: each block either leaves the prompt to the blocks after it or
decides about it. -/
theorem linesOutline_decided {fuel : Nat} {lines : List Line} (hlines : AreLines lines)
    (hopens : Opens l post lines) (hfuel : stepsFor lines ≤ fuel) :
    Decided l post (outlineLeaves d (linesOutline d fuel lines)) := by
  induction fuel generalizing lines with
  | zero => exact absurd hfuel (Nat.not_le_of_gt (Nat.succ_pos _))
  | succ fuel ih =>
    unfold stepsFor at hfuel ih
    have hweight := weight_le_of_sublist (List.dropWhile_sublist Line.isBlank (l := lines))
    unfold linesOutline
    rcases hopens.dropWhile hl with hdrop | ⟨first, rest, hdrop, hbehind⟩
    · obtain ⟨-, hlines', -⟩ := hlines.of_dropWhile hdrop
      rw [hdrop, weight_cons] at hweight
      obtain ⟨steps, rfl⟩ := Nat.exists_eq_add_one_of_ne_zero (show fuel ≠ 0 by omega)
      rw [hdrop]
      exact outlineFrom_decided d hl hlines'
    · obtain ⟨-, hlines', hb⟩ := hlines.of_dropWhile hdrop
      rw [hdrop, weight_cons] at hweight
      rw [hdrop]
      dsimp only
      obtain ⟨block, hrest, hblock, hlater, hfits⟩ := hlines'.nextBlock hb
      have hafter : (nextBlock first rest).2 <:+ rest := ⟨block, hrest.symm⟩
      rcases nextBlock_behind hl first hbehind with hopens' | ⟨hsuffix, hshows⟩
      · have hweight' := weight_le_of_sublist hafter.sublist
        obtain ⟨pre, hpre⟩ := hopens'.eq_append
        have hother : ∀ p ∈ first :: block, p.number ≠ l.number := by
          intro p hp
          rw [hrest, hpre, ← List.append_assoc, ← List.cons_append] at hlines'
          exact (hlines'.number_ne _).1 p (List.mem_append_left pre hp)
        rw [outlineLeaves_append, outlineLeaves, List.flatMap_assoc]
        refine .append_left (apart_of_fits (text_ne_nil hl) hother fun n hn => ?_)
          (ih hlater hopens' (by omega))
        obtain ⟨p, hp, hn⟩ := List.mem_flatMap.mp hn
        exact (leaves_fit d fuel).2 p _ hblock.plain (hfits p hp) n hn
      · obtain ⟨pre, hpre⟩ := Opens.eq_append (.inr hbehind)
        have hsplit := hlines'
        rw [hpre, ← List.cons_append] at hsplit
        have hfeed : '\n' ∉ l.text :=
          (hsplit.plain l (List.mem_append_right _ List.mem_cons_self)).feed_not_mem
        obtain ⟨steps, rfl⟩ := Nat.exists_eq_add_one_of_ne_zero (show fuel ≠ 0 by omega)
        refine block_decided d hl (fun p hp => ?_) (shows_decided hl hfeed hshows) hlater
          fun p hp => (hsplit.number_ne _).2 p (hsuffix.subset hp)
        rcases hshows.leaves p hp with hnone | ⟨n, hn, -⟩
        · exact .inl hnone
        · exact .inr ⟨n, hn⟩

end

/-! ## Test cases -/

/-- The lines of a text with a prompt at the margin, at the beginning or behind a blank line. -/
theorem opens_of_blank {lines before after : List Line} {l : Line} (hlines : lines = before ++ l :: after)
    (hbefore : ∀ b ∈ before.getLast?, b.isBlank = true) : Opens l after lines := by
  rcases List.eq_nil_or_concat before with rfl | ⟨pre, b, rfl⟩
  · exact .inl hlines
  · refine .inr ⟨pre, b, ?_, hbefore b ?_⟩
    · rw [hlines, List.concat_eq_append, List.append_assoc]
      rfl
    · rw [List.concat_eq_append, List.getLast?_concat]
      rfl

/-- **What becomes of a prompt of a document.** -/
theorem ofText_decided {text : List Char} (source : Option String) (d : Directives)
    {before after : List Line} {l : Line} (hlines : numberedLines text 1 = before ++ l :: after)
    (hbefore : ∀ b ∈ before.getLast?, b.isBlank = true) (hl : isPrompt l.text = true) :
    (Document.ofText .rst text source d).InOrder ∧
      Decided l after (Document.ofText .rst text source d).leaves := by
  obtain ⟨horder, hleaves⟩ := ofText_outline .rst text source d
  have hdecided := linesOutline_decided d hl (areLines_numberedLines text 1)
    (opens_of_blank hlines hbefore) (Nat.le_refl _)
  have hroot : Apart l [Node.root] := by
    intro n hn
    rw [List.mem_singleton.mp hn]
    exact ⟨fun h => absurd h.1 (by decide), fun h => absurd h.1 (by decide)⟩
  refine ⟨horder, ?_⟩
  rw [hleaves]
  exact hdecided.append_left hroot

/-- A test case begins with a line where a node of the document does. -/
theorem exists_case_iff {text : List Char} {name : String} {globals extra : Option (Bindings Value)}
    {w w' : World} {cases : List Case}
    (h : findCases text (some name) globals extra w = some (.ok cases, w'))
    (hformat : Format.ofName name.toList = .rst) (l : Line) :
    (∃ c ∈ cases, c.region.contentLine = l.number ∧
      (segments c.region.text).head? = some l.text) ↔
      ∃ id ∈ (Document.ofText .rst text name (Directives.setup .empty)).traverse,
        BeginsWith l ((Document.ofText .rst text name (Directives.setup .empty)).node id) := by
  have hregions := findCases_eq h
  simp only [regions, regionsIn, hformat] at hregions
  generalize Document.ofText .rst text name (Directives.setup .empty) = doc at hregions ⊢
  constructor
  · rintro ⟨c, hc, hline, hhead⟩
    obtain ⟨n, hn, hr, index, hof⟩ := mem_regionsOf hregions.symm (List.mem_map_of_mem hc)
    obtain ⟨hline', htext, -⟩ := regionOf_eq_ok hof
    obtain ⟨id, hid, rfl⟩ := List.mem_map.mp hn
    rw [hline'] at hline
    rw [htext] at hhead
    exact ⟨id, hid, hr, hline, hhead⟩
  · rintro ⟨id, hid, hr, hline, hhead⟩
    obtain ⟨r, hr, index, hof⟩ := exists_mem_regionsOf hregions.symm (List.mem_map_of_mem hid) hr
    obtain ⟨hline', htext, -⟩ := regionOf_eq_ok hof
    obtain ⟨c, hc, rfl⟩ := List.mem_map.mp hr
    refine ⟨c, hc, hline'.trans hline, ?_⟩
    rw [htext]
    exact hhead

/-- **A prompt at the margin** of a text whose test cases are found, at its beginning or behind a blank
line, begins a test case, unless the reader makes a title of it. It does so only where the prompt
stands above a line of adornment, or between two of them. -/
theorem prompt_begins_case {text : List Char} {name : String} {globals extra : Option (Bindings Value)}
    {w w' : World} {cases : List Case}
    (h : findCases text (some name) globals extra w = some (.ok cases, w'))
    (hformat : Format.ofName name.toList = .rst) {before after : List Line} {l : Line}
    (hlines : numberedLines text 1 = before ++ l :: after)
    (hbefore : ∀ b ∈ before.getLast?, b.isBlank = true) (hl : isPrompt l.text = true) :
    ((∃ c ∈ cases, c.region.contentLine = l.number ∧
        (segments c.region.text).head? = some l.text) ↔
      ¬∃ id ∈ (Document.ofText .rst text name (Directives.setup .empty)).traverse,
        IsTitleOn l ((Document.ofText .rst text name (Directives.setup .empty)).node id)) ∧
    ((∃ id ∈ (Document.ofText .rst text name (Directives.setup .empty)).traverse,
        IsTitleOn l ((Document.ofText .rst text name (Directives.setup .empty)).node id)) →
      (section? l after).isSome) := by
  rw [exists_case_iff h hformat]
  obtain ⟨htree, hdecided⟩ := ofText_decided (some name) (Directives.setup .empty) hlines hbefore hl
  rw [htree.exists_node_iff (P := BeginsWith l) fun n => Iff.rfl,
    htree.exists_node_iff (P := IsTitleOn l) fun n => Iff.rfl]
  cases hdecided with
  | shown hshown htitle =>
    have hnone : ¬∃ n ∈ (Document.ofText .rst text name (Directives.setup .empty)).leaves,
        IsTitleOn l n := fun ⟨n, hn, hn'⟩ => htitle n hn hn'
    exact ⟨⟨fun _ => hnone, fun _ => hshown⟩, fun h => absurd h hnone⟩
  | title htitle hshown hsection =>
    refine ⟨⟨?_, fun hnone => absurd htitle hnone⟩, fun _ => hsection⟩
    rintro ⟨n, hn, hn'⟩
    exact absurd hn' (hshown n hn)

/-- A prompt behind a paragraph. -/
def promptBehindText : List Char := "text\n\n>>> 1\n1\n".toList

theorem prompt_begins_case_behind_text :
    ∃ cases w', findCases promptBehindText (some "t.rst") none none .empty =
        some (.ok cases, w') ∧
      numberedLines promptBehindText 1 =
        [⟨1, "text".toList⟩, ⟨2, []⟩] ++ ⟨3, ">>> 1".toList⟩ :: [⟨4, ['1']⟩] ∧
      ((∃ c ∈ cases, c.region.contentLine = 3 ∧
          (segments c.region.text).head? = some ">>> 1".toList) ↔
        ¬∃ id ∈ (Document.ofText .rst promptBehindText (some "t.rst")
            (Directives.setup .empty)).traverse,
          IsTitleOn ⟨3, ">>> 1".toList⟩ ((Document.ofText .rst promptBehindText (some "t.rst")
            (Directives.setup .empty)).node id)) := by
  have hfound : (findCases promptBehindText (some "t.rst") none none .empty).map
      (fun r => r.1.isOk) = some true := by decide +kernel
  obtain ⟨⟨result, w'⟩, h, hresult⟩ := Option.map_eq_some_iff.mp hfound
  cases result with
  | error e => cases hresult
  | ok cases =>
    have hlines : numberedLines promptBehindText 1 =
        [⟨1, "text".toList⟩, ⟨2, []⟩] ++ ⟨3, ">>> 1".toList⟩ :: [⟨4, ['1']⟩] := by decide +kernel
    exact ⟨cases, w', h, hlines,
      (prompt_begins_case h (by decide +kernel) hlines (by simp [Line.isBlank, allBlank]) (by decide)).1⟩

/-- A prompt above its output, which is made of equality signs. -/
def adornedPrompt : List Char := ">>> print('=' * 20)\n====================\n".toList

/-- **The prompt above a line of equality signs is lost:** no test case is found, though the prompt
begins the text. -/
theorem adorned_prompt_lost :
    numberedLines adornedPrompt 1 =
        [⟨1, ">>> print('=' * 20)".toList⟩, ⟨2, List.replicate 20 '='⟩] ∧
      isPrompt ">>> print('=' * 20)".toList = true ∧
      (findCases adornedPrompt (some "t.rst") none none .empty).map
        (fun r => r.1.toOption.map List.length) = some (some 0) :=
  ⟨by decide +kernel, by decide, by decide +kernel⟩

end Transcript.Test
