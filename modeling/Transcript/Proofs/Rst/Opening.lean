import Transcript.Proofs.Rst.Block

/-!
# Prompts at the beginning of a block

A prompt at the margin behind a blank line is not taken by the block before it, unless that is a
paragraph that announces it as a quoted literal block. A block that begins with a prompt shows it,
unless what follows makes it a title.

Results:
* `nextBlock_behind`: what the block before leaves of a prompt.
* `nextBlock_prompt`: what a block makes of its prompt.
-/

namespace Transcript.Rst

open Doc

/-! ## Prompt lines -/

theorem isPrompt_eq {text : List Char} (h : isPrompt text = true) :
    ∃ rest, text = '>' :: '>' :: '>' :: rest ∧ (rest = [] ∨ ∃ more, rest = ' ' :: more) := by
  unfold isPrompt at h
  rcases Bool.or_eq_true_iff.mp h with h | h
  · exact ⟨[], by simpa using h, .inl rfl⟩
  · obtain ⟨more, hmore⟩ := Option.isSome_iff_exists.mp h
    exact ⟨' ' :: more, Text.afterBegin?_eq_some.mp hmore, .inr ⟨more, rfl⟩⟩

section

variable {l : Line} (hl : isPrompt l.text = true)
include hl

theorem isBlank_of_isPrompt : l.isBlank = false := by
  obtain ⟨rest, h, -⟩ := isPrompt_eq hl
  unfold Line.isBlank Text.allBlank
  rw [h]
  rfl

theorem indent_of_isPrompt : l.indent = 0 := by
  obtain ⟨rest, h, -⟩ := isPrompt_eq hl
  unfold Line.indent
  rw [h]
  rfl

theorem isExplicitMarkup_of_isPrompt : isExplicitMarkup l.text = false := by
  obtain ⟨rest, h, -⟩ := isPrompt_eq hl
  unfold isExplicitMarkup
  rw [h]
  rfl

theorem itemWidth?_of_isPrompt : itemWidth? l.text = none := by
  obtain ⟨rest, h, -⟩ := isPrompt_eq hl
  rw [h]
  rfl

theorem within_of_isPrompt {indent : Nat} (hi : 0 < indent) : l.within indent = false := by
  unfold Line.within
  rw [isBlank_of_isPrompt hl, indent_of_isPrompt hl]
  simpa using Nat.ne_of_gt hi

end

/-! ## Lines behind a blank one -/

/-- A line stands behind a blank line, with some lines after it. -/
def Behind (l : Line) (post lines : List Line) : Prop :=
  ∃ pre b, lines = pre ++ b :: l :: post ∧ b.isBlank = true

/-- **A line opens a block:** it is the first one or stands behind a blank one. -/
def Opens (l : Line) (post lines : List Line) : Prop := lines = l :: post ∨ Behind l post lines

theorem length_takeWhile_append_le {α : Type} {p : α → Bool} (xs ys : List α) {y : α}
    (hy : p y = false) : ((xs ++ y :: ys).takeWhile p).length ≤ xs.length := by
  induction xs with
  | nil =>
    rw [List.nil_append, List.takeWhile_cons_of_neg (by simp [hy])]
  | cons x xs ih =>
    rw [List.cons_append, List.takeWhile_cons]
    split
    · exact Nat.succ_le_succ ih
    · exact Nat.zero_le _

section

variable {l : Line} {post lines : List Line}

theorem Opens.eq_append (h : Opens l post lines) : ∃ pre, lines = pre ++ l :: post := by
  rcases h with rfl | ⟨pre, b, rfl, -⟩
  · exact ⟨[], rfl⟩
  · exact ⟨pre ++ [b], List.append_cons pre b _⟩

theorem Behind.cons (h : Behind l post lines) (first : Line) : Behind l post (first :: lines) := by
  obtain ⟨pre, b, rfl, hb⟩ := h
  exact ⟨first :: pre, b, rfl, hb⟩

/-- Without some of the lines before it, a line still opens a block. -/
theorem Behind.drop (h : Behind l post lines) {n : Nat}
    (hn : n + (l :: post).length ≤ lines.length) : Opens l post (lines.drop n) := by
  obtain ⟨pre, b, rfl, hb⟩ := h
  simp only [List.length_append, List.length_cons] at hn
  rcases Nat.lt_or_ge pre.length n with hlt | hle
  · have hn' : (pre ++ [b]).length = n := by
      rw [List.length_append, List.length_singleton]
      omega
    left
    rw [List.append_cons, List.drop_left' hn']
  · right
    exact ⟨pre.drop n, b, by rw [List.drop_append_of_le_length hle], hb⟩

/-- Lines up to one that stops them end before a line that does. -/
theorem Behind.length_takeWhile (h : Behind l post lines) {p : Line → Bool} (hp : p l = false) :
    (lines.takeWhile p).length + (l :: post).length ≤ lines.length := by
  obtain ⟨pre, b, rfl, -⟩ := h
  have hle := length_takeWhile_append_le (pre ++ [b]) post hp
  simp only [List.append_assoc, List.cons_append, List.nil_append, List.length_append,
    List.length_cons, List.length_nil] at hle ⊢
  omega

/-- Lines up to a blank one end before the line behind it. -/
theorem Behind.drop_takeWhile (h : Behind l post lines) {p : Line → Bool}
    (hp : ∀ b : Line, b.isBlank = true → p b = false) :
    Behind l post (lines.drop (lines.takeWhile p).length) := by
  obtain ⟨pre, b, rfl, hb⟩ := h
  have hle := length_takeWhile_append_le pre (l :: post) (hp b hb)
  exact ⟨pre.drop _, b, by rw [List.drop_append_of_le_length hle], hb⟩

theorem Behind.drop_textBlock (h : Behind l post lines) :
    Behind l post (lines.drop (textBlock lines).length) :=
  h.drop_takeWhile fun b hb => by simp [hb]

variable (hl : isPrompt l.text = true)
include hl

theorem Behind.drop_indentedBlock (h : Behind l post lines) {indent : Nat} (hi : 0 < indent) :
    Opens l post (lines.drop (indentedBlock indent lines).length) := by
  have hle : (indentedBlock indent lines).length ≤ (lines.takeWhile (·.within indent)).length :=
    (dropBlankEnd_isPrefix _).length_le
  have hl := h.length_takeWhile (p := (·.within indent)) (within_of_isPrompt hl hi)
  exact h.drop (by omega)

/-- Where a line that is not blank opens a block, it is the first such line, or stands behind a blank
line after the first. -/
theorem Opens.dropWhile (h : Opens l post lines) :
    lines.dropWhile Line.isBlank = l :: post ∨
      ∃ first rest, lines.dropWhile Line.isBlank = first :: rest ∧ Behind l post rest := by
  have hl' : (l :: post).dropWhile Line.isBlank = l :: post :=
    List.dropWhile_cons_of_neg (by simp [isBlank_of_isPrompt hl])
  rcases h with rfl | ⟨pre, b, rfl, hb⟩
  · exact .inl hl'
  · induction pre with
    | nil =>
      left
      rw [List.nil_append, List.dropWhile_cons_of_pos hb, hl']
    | cons first pre ih =>
      rw [List.cons_append, List.dropWhile_cons]
      split
      · exact ih
      · exact .inr ⟨first, pre ++ b :: l :: post, rfl, pre, b, rfl, hb⟩

end

/-! ## Blocks that are read no further -/

/-- **A block shows a line:** one of its nodes shows the lines from this one on, and there are only
nodes and problems in it, and no title. -/
structure Shows (l : Line) (pieces : List Piece) : Prop where
  /-- There are only nodes and problems. -/
  leaves : ∀ p ∈ pieces, (∃ line t, p = .trouble line t) ∨ ∃ n, p = .node n ∧ n.kind ≠ .section
  /-- A node shows the line. -/
  node : ∃ kind block, (kind = .doctestBlock ∨ kind = .literalBlock) ∧
    .node (.atLine kind (joinedText (l :: block)) l.number) ∈ pieces

/-- **A block makes a line a title:** there are only titles on its line and problems. -/
structure Titles (l : Line) (pieces : List Piece) : Prop where
  /-- There are only titles and problems. -/
  leaves : ∀ p ∈ pieces, (∃ line t, p = .trouble line t) ∨ ∃ text, p = titleNode text l.number
  /-- There is a title. -/
  title : ∃ text, titleNode text l.number ∈ pieces

theorem Shows.of_nodes {l : Line} {pieces : List Piece} {kind : NodeKind} {block : List Line}
    (hkind : kind = .doctestBlock ∨ kind = .literalBlock)
    (hp : ∀ p ∈ pieces, (∃ line t, p = .trouble line t) ∨
      (∃ text line, p = .node (.atLine .paragraph text line)) ∨
      p = .node (.atLine kind (joinedText (l :: block)) l.number))
    (hn : .node (.atLine kind (joinedText (l :: block)) l.number) ∈ pieces) : Shows l pieces where
  leaves := by
    intro p hmem
    rcases hp p hmem with h | ⟨text, line, rfl⟩ | rfl
    · exact .inl h
    · exact .inr ⟨_, rfl, by simp [Node.atLine, Node.make]⟩
    · refine .inr ⟨_, rfl, ?_⟩
      rcases hkind with rfl | rfl
      · simp [Node.atLine, Node.make]
      · simp [Node.atLine, Node.make]
  node := ⟨kind, block, hkind, hn⟩

/-! ## The block before a prompt -/

theorem markerWidth?_pos {marker rest : List Char} {width : Nat} (hne : marker ≠ [])
    (h : markerWidth? marker rest = some width) : 0 < width := by
  unfold markerWidth? at h
  dsimp only at h
  split_ifs at h
  cases h
  obtain ⟨c, cs, rfl⟩ := List.exists_cons_of_ne_nil hne
  have hpos := Char.utf8Size_pos c
  rw [Text.byteLength]
  omega

theorem itemWidth?_pos {text : List Char} {width : Nat} (h : itemWidth? text = some width) :
    0 < width := by
  unfold itemWidth? at h
  split at h
  · cases h
  · split_ifs at h
    · exact markerWidth?_pos (List.cons_ne_nil _ _) h
    · split at h
      · exact markerWidth?_pos (List.cons_ne_nil _ _) h
      · cases h
    · dsimp only at h
      split at h
      · split_ifs at h
        exact markerWidth?_pos (List.append_ne_nil_of_right_ne_nil _ (List.cons_ne_nil _ _)) h
      · cases h

section

variable {l : Line} (hl : isPrompt l.text = true) {post rest : List Line} {first : Line}
include hl

theorem blockQuote_behind (h : Behind l post rest) : Opens l post (blockQuote first rest).2 :=
  (h.cons first).drop_indentedBlock hl Nat.one_pos

theorem listItem_behind (h : Behind l post rest) {width : Nat} (hw : 0 < width) :
    Opens l post (listItem width first rest).2 :=
  h.drop_indentedBlock hl hw

theorem explicitMarkup_behind (h : Behind l post rest) :
    Opens l post (explicitMarkup first rest).2 :=
  h.drop_indentedBlock hl Nat.one_pos

omit hl in
theorem overlined?_behind {taken : Taken} (ht : overlined? first rest = some taken)
    (h : Behind l post rest) : Opens l post taken.2 := by
  unfold overlined? at ht
  obtain ⟨c, -, ht⟩ := Option.bind_eq_some_iff.mp ht
  rcases rest with _ | ⟨title, _ | ⟨under, after⟩⟩
  · cases ht
  · cases ht
  · dsimp only at ht
    split_ifs at ht with hunder
    cases ht
    rw [Bool.and_eq_true, Bool.not_eq_true'] at hunder
    refine h.drop (n := 2) ?_
    -- The title is not blank, so the blank line before the prompt is below it.
    obtain ⟨_ | ⟨t, pre⟩, b, hrest, hb⟩ := h
    · rw [List.nil_append, List.cons.injEq] at hrest
      rw [hrest.1, hb] at hunder
      exact absurd hunder.2 (by decide)
    · rw [hrest]
      simp only [List.cons_append, List.length_cons, List.length_append]
      omega

omit hl in
theorem underlined?_behind {taken : Taken} (ht : underlined? first rest = some taken)
    (h : Behind l post rest) : Opens l post taken.2 := by
  have hdrop : Opens l post (rest.drop 1) := by
    refine h.drop ?_
    obtain ⟨pre, b, rfl, -⟩ := h
    simp only [List.length_cons, List.length_append]
    omega
  unfold underlined? at ht
  rcases rest with _ | ⟨under, after⟩
  · cases ht
  · dsimp only at ht
    split_ifs at ht
    · cases ht
      exact hdrop
    · cases ht
      exact hdrop

omit hl in
theorem section?_behind {taken : Taken} (ht : section? first rest = some taken)
    (h : Behind l post rest) : Opens l post taken.2 := by
  unfold section? at ht
  split at ht
  · rename_i hover
    cases ht
    exact overlined?_behind hover h
  · split_ifs at ht
    · cases ht
      exact .inr h
    · exact underlined?_behind ht h

omit hl in
theorem doctestBlock_behind (h : Behind l post rest) : Opens l post (doctestBlock first rest).2 :=
  .inr h.drop_textBlock

/-- **An announced literal block** leaves a prompt behind it, or it is quoted and shows it. -/
theorem literalBlock_behind (h : Behind l post rest) (last : Nat) :
    Opens l post (literalBlock last rest).2 ∨
      (literalBlock last rest).2 <:+ post ∧
        .node (.atLine .literalBlock (joinedText (l :: textBlock post)) l.number) ∈
          (literalBlock last rest).1 ∧
        ∀ p ∈ (literalBlock last rest).1, (∃ line t, p = .trouble line t) ∨
          p = .node (.atLine .literalBlock (joinedText (l :: textBlock post)) l.number) := by
  unfold literalBlock
  rcases Opens.dropWhile hl (.inr h) with hdrop | ⟨first, after, hdrop, hafter⟩
  · right
    obtain ⟨more, hmore, -⟩ := isPrompt_eq hl
    have hquote : l.text.head?.filter adornmentChars.contains = some '>' := by
      rw [hmore, List.head?_cons]
      decide
    rw [hdrop]
    dsimp only
    rw [if_neg (by rw [indent_of_isPrompt hl]; decide), hquote, textBlock_cons (isBlank_of_isPrompt hl)]
    refine ⟨List.drop_suffix _ post, List.mem_append_right _ List.mem_cons_self, fun p hp => ?_⟩
    rcases List.mem_append.mp hp with hp | hp
    · split_ifs at hp
      · exact .inl ⟨_, _, List.mem_singleton.mp hp⟩
      · exact absurd hp List.not_mem_nil
    · exact .inr (List.mem_singleton.mp hp)
  · left
    rw [hdrop]
    dsimp only
    split_ifs
    · exact (hafter.cons first).drop_indentedBlock hl Nat.one_pos
    · split
      · exact .inr (hafter.cons first)
      · exact .inr (hafter.cons first).drop_textBlock

/-- **A paragraph** leaves a prompt behind it, or the literal block that it announces shows it. -/
theorem paragraph_behind (h : Behind l post rest) :
    Opens l post (paragraph first rest).2 ∨
      (paragraph first rest).2 <:+ post ∧ Shows l (paragraph first rest).1 := by
  have hafter := h.drop_takeWhile (p := fun l => !l.isBlank && l.indent == 0) fun b hb => by simp [hb]
  have hnode (text : List Char) : ∀ p ∈ (if text.isEmpty then []
      else [Piece.node (.atLine .paragraph text first.number)]),
      p = .node (.atLine .paragraph text first.number) := by
    intro p hp
    split_ifs at hp
    · exact absurd hp List.not_mem_nil
    · exact List.mem_singleton.mp hp
  unfold paragraph
  dsimp only
  split
  · exact .inl (.inr hafter)
  · rcases literalBlock_behind hl hafter (((first :: rest).getLast?.map Line.number).getD 1) with
      hopens | ⟨hsuffix, hmem, hall⟩
    · exact .inl hopens
    · refine .inr ⟨hsuffix, .of_nodes (.inr rfl) (fun p hp => ?_) (List.mem_append_right _ hmem)⟩
      rcases List.mem_append.mp hp with hp | hp
      · exact .inr (.inl ⟨_, _, hnode _ p hp⟩)
      · exact (hall p hp).imp_right .inr

/-- **What the block before leaves of a prompt** at the margin behind a blank line: everything from
the prompt on, unless it shows the prompt. -/
theorem nextBlock_behind (first : Line) (h : Behind l post rest) :
    Opens l post (nextBlock first rest).2 ∨
      (nextBlock first rest).2 <:+ post ∧ Shows l (nextBlock first rest).1 := by
  unfold nextBlock
  split
  · exact .inl (blockQuote_behind hl h)
  · split
    · exact .inl (explicitMarkup_behind hl h)
    · split
      · exact .inl (section?_behind ‹_› h)
      · split
        · exact .inl (listItem_behind hl h (itemWidth?_pos ‹_›))
        · split
          · exact .inl (doctestBlock_behind h)
          · exact paragraph_behind hl h

end

/-! ## The block that begins with a prompt -/

section

variable {l : Line} (hl : isPrompt l.text = true) {post : List Line}

theorem overlined?_titles {taken : Taken} (h : overlined? l post = some taken) :
    Titles l taken.1 := by
  unfold overlined? at h
  obtain ⟨c, -, h⟩ := Option.bind_eq_some_iff.mp h
  split at h
  · split_ifs at h
    cases h
    exact ⟨fun p hp => .inr ⟨_, List.mem_singleton.mp hp⟩, _, List.mem_cons_self⟩
  · cases h

theorem underlined?_titles {taken : Taken} (h : underlined? l post = some taken) :
    Titles l taken.1 := by
  unfold underlined? at h
  split at h
  · cases h
  · dsimp only at h
    split_ifs at h
    · cases h
      exact ⟨fun p hp => .inr ⟨_, List.mem_singleton.mp hp⟩, _, List.mem_cons_self⟩
    · cases h
      refine ⟨fun p hp => ?_, _, List.mem_cons_of_mem _ List.mem_cons_self⟩
      rcases List.mem_cons.mp hp with hp | hp
      · exact .inl ⟨_, _, hp⟩
      · exact .inr ⟨_, List.mem_singleton.mp hp⟩

include hl

/-- A prompt is no transition: as adornment it is too short. -/
theorem section?_titles {taken : Taken} (h : section? l post = some taken) : Titles l taken.1 := by
  unfold section? at h
  split at h
  · rename_i hover
    cases h
    exact overlined?_titles hover
  · split_ifs at h with hadorned hlong
    · exfalso
      obtain ⟨more, hmore, hblank⟩ := isPrompt_eq hl
      rw [hmore] at hadorned hlong
      rcases hblank with rfl | ⟨more, rfl⟩
      · simp at hlong
      · simp [adornment?] at hadorned
    · exact underlined?_titles h

/-- **What a block makes of its prompt:** it shows it, or makes it a title. -/
theorem nextBlock_prompt (post : List Line) :
    Shows l (nextBlock l post).1 ∨ Titles l (nextBlock l post).1 ∧ (section? l post).isSome := by
  unfold nextBlock
  rw [if_neg (by rw [indent_of_isPrompt hl]; decide), isExplicitMarkup_of_isPrompt hl,
    if_neg Bool.false_ne_true]
  cases hsection : section? l post with
  | some taken => exact .inr ⟨section?_titles hl hsection, rfl⟩
  | none =>
    left
    rw [itemWidth?_of_isPrompt hl, if_pos hl]
    exact .of_nodes (.inl rfl) (fun p hp => .inr (.inr (List.mem_singleton.mp hp))) List.mem_cons_self

end

end Transcript.Rst
