import Mathlib.Data.List.Chain
import Transcript.Proofs.Except
import Transcript.Proofs.Lang.Lexed
import Transcript.Proofs.Lang.Written

/-!
# The layout of a source

A logical line goes up to a line end outside brackets, or to the end of the source. The tokens of a source are its
logical lines, each ended by one line end token. Before a line, a block may open or blocks may close; at the end of
the source all blocks close.

Results:
* `LaidOut`: logical lines as tokens with layout between them.
* `tokens_laidOut`: what a source is lexed as.
* `tokens_places`: where its tokens stand.
* `tokens_wellFormed`: layout, blocks and places of the tokens of a source are in order.
-/

namespace Transcript.Lang

/-! ## Logical lines -/

/-- Whether a token tells where lines end and blocks open and close, and where the source ends. -/
def Token.isLayout : Token → Bool
  | .newline | .indent | .dedent | .eof => true
  | _ => false

/-- No other token is layout. -/
theorem Token.ne_layout {t u : Token} (ht : t.isLayout = false) (hu : u.isLayout = true) : t ≠ u := by
  rintro rfl
  exact Bool.false_ne_true (ht.symm.trans hu)

/-- Whether a token opens or closes a block. -/
def Token.isBlock : Token → Bool
  | .indent | .dedent => true
  | _ => false

/-- The lexemes of a text, up to where it falls into none. -/
def lexemes (s : List Char) : List (Lexeme × List Char) :=
  match s with
  | [] => []
  | c :: rest =>
    match scan? (c :: rest) with
    | none => []
    | some (l, more) => (l, c :: rest.take more) :: lexemes (rest.drop more)
termination_by s.length
decreasing_by simp only [List.length_cons, List.length_drop]; omega

/-- A line, unless it has no tokens. -/
def closeLine (line : List Token) : List (List Token) := if line = [] then [] else [line]

/-- The logical lines of lexemes where so many brackets are open and the first line has these tokens before. -/
def logicalLinesFrom (depth : Nat) (line : List Token) : List (Lexeme × List Char) → List (List Token)
  | [] => closeLine line
  | (l, text) :: rest =>
    if l = .lineEnd ∧ depth = 0 then closeLine line ++ logicalLinesFrom 0 [] rest
    else
      match l.token text with
      | .ok (some t) => logicalLinesFrom (t.nest depth) (line ++ [t]) rest
      | _ => logicalLinesFrom depth line rest

/-- **The logical lines of a source:** each the tokens up to a line end outside brackets, or up to the end of the
source. Lines without tokens do not count. -/
def logicalLines (source : List Char) : List (List Token) := logicalLinesFrom 0 [] (lexemes source)

section

variable {depth : Nat} {line : List Token} {l : Lexeme} {text : List Char} {ls : List (Lexeme × List Char)}

theorem logicalLinesFrom_gap (hl : l.isGap = true) :
    logicalLinesFrom depth line ((l, text) :: ls) = logicalLinesFrom depth line ls := by
  cases l with
  | blanks | comment | joint => exact if_neg fun h => nomatch h.1
  | _ => cases hl

/-- A line end outside brackets ends the line. -/
theorem logicalLinesFrom_lineEnd :
    logicalLinesFrom 0 line ((.lineEnd, text) :: ls) = closeLine line ++ logicalLinesFrom 0 [] ls :=
  if_pos ⟨rfl, rfl⟩

/-- A line end in brackets does not. -/
theorem logicalLinesFrom_open (hdepth : depth ≠ 0) :
    logicalLinesFrom depth line ((.lineEnd, text) :: ls) = logicalLinesFrom depth line ls :=
  if_neg fun h => hdepth h.2

theorem logicalLinesFrom_token {t : Token} (ht : l.token text = .ok (some t)) :
    logicalLinesFrom depth line ((l, text) :: ls) = logicalLinesFrom (t.nest depth) (line ++ [t]) ls := by
  have hl : ¬(l = .lineEnd ∧ depth = 0) := by
    rintro ⟨rfl, -⟩
    cases ht
  refine (if_neg hl).trans ?_
  rw [ht]

end

/-! ## Lines as tokens -/

/-- The tokens of a logical line: there are some, and none is layout. -/
def IsLine (line : List Token) : Prop := line ≠ [] ∧ ∀ t ∈ line, t.isLayout = false

/-- **Logical lines as tokens**, with so many blocks around them. -/
inductive LaidOut : Nat → List (List Token) → List Token → Prop
  /-- At the end of the source all blocks close. -/
  | done (blocks : Nat) : LaidOut blocks [] (List.replicate blocks .dedent ++ [.eof])
  /-- A line may open a block. -/
  | deeper {blocks : Nat} {line : List Token} {lines : List (List Token)} {ts : List Token} (hline : IsLine line)
    (h : LaidOut (blocks + 1) lines ts) : LaidOut blocks (line :: lines) (.indent :: (line ++ .newline :: ts))
  /-- It may close blocks, or none. -/
  | back {blocks : Nat} (closed : Nat) {line : List Token} {lines : List (List Token)} {ts : List Token}
    (hline : IsLine line) (h : LaidOut blocks lines ts) :
    LaidOut (blocks + closed) (line :: lines) (List.replicate closed .dedent ++ (line ++ .newline :: ts))

/-- Tokens of lexemes from a state on: whole lines, or the rest of a line before them. -/
inductive Layout.Lays (st : Layout) (ls : List (Lexeme × List Char)) : List Token → Prop
  | lineStart {ts : List Token} (hstart : st.atLineStart = true)
    (h : LaidOut st.indents.length (logicalLinesFrom 0 [] ls) ts) : Lays st ls ts
  | inLine (rest : List Token) {lines : List (List Token)} {ts : List Token} (hstart : st.atLineStart = false)
    (hrest : ∀ t ∈ rest, t.isLayout = false)
    (hlines : ∀ line, line ≠ [] → logicalLinesFrom st.depth line ls = (line ++ rest) :: lines)
    (h : LaidOut st.indents.length lines ts) : Lays st ls (rest ++ .newline :: ts)

/-- Brackets are open only inside a line. -/
def Layout.Sound (st : Layout) : Prop := st.atLineStart = true → st.depth = 0

/-- No lexeme is lexed as layout, and a token counts brackets as its lexeme does. -/
theorem Lexeme.of_token {l : Lexeme} {text : List Char} {t : Token} (h : l.token text = .ok (some t)) :
    t.isLayout = false ∧ ∀ st : Layout, st.nest l = { st with depth := t.nest st.depth } := by
  cases l with
  | blanks | comment | joint | lineEnd => cases h
  | word =>
    simp only [Lexeme.token] at h
    split at h <;> cases h <;> exact ⟨rfl, fun _ => rfl⟩
  | decimal | whole =>
    simp only [Lexeme.token] at h
    split at h <;> cases h
    exact ⟨rfl, fun _ => rfl⟩
  | quoted =>
    obtain ⟨t', hquoted, ht⟩ : ∃ t', readQuoted text = .ok t' ∧ some t' = some t := by
      simp only [Lexeme.token] at h
      cases hquoted : readQuoted text with
      | error e =>
        rw [hquoted] at h
        cases h
      | ok t' =>
        rw [hquoted] at h
        exact ⟨t', rfl, Except.ok.inj h⟩
    cases ht
    obtain ⟨value, rfl⟩ | ⟨value, rfl, -⟩ := literal_of_readQuoted hquoted
    · exact ⟨rfl, fun _ => rfl⟩
    · exact ⟨rfl, fun _ => rfl⟩
  | symbol s =>
    cases h
    refine ⟨rfl, fun st => ?_⟩
    simp only [Layout.nest, Token.nest]
    split_ifs <;> rfl

/-- The blocks that stay open and those that close are all blocks. -/
theorem closeBlocks_length (column : Nat) (indents : List Nat) :
    (closeBlocks column indents).1.length + (closeBlocks column indents).2 = indents.length := by
  induction indents with
  | nil => rfl
  | cons i rest ih =>
    unfold closeBlocks
    split_ifs
    · simp only [List.length_cons]
      omega
    · rfl

section

variable {st st' : Layout} {l : Lexeme} {text : List Char} {here : List Placed}

/-- The layout before a token begins its line. -/
theorem Layout.Opening.begins {st₁ : Layout} {layout : List Placed} (h : st.Opening (.ok (st₁, layout)))
    (hst : st.Sound) : st₁.atLineStart = false := by
  cases h with
  | inLine hline =>
    rw [← Bool.not_eq_true]
    exact fun hstart => hline ⟨hstart, hst hstart⟩
  | deeper | back => rfl

/-- It only changes the blocks, and its tokens take no place. -/
theorem Layout.Opening.stays {st₁ : Layout} {layout : List Placed} (h : st.Opening (.ok (st₁, layout))) :
    st₁.depth = st.depth ∧ st₁.byte = st.byte ∧ ∀ p ∈ layout, p.start = st.byte ∧ p.stop = st.byte := by
  cases h with
  | inLine => exact ⟨rfl, rfl, List.forall_mem_nil _⟩
  | deeper => exact ⟨rfl, rfl, List.forall_mem_singleton.mpr ⟨rfl, rfl⟩⟩
  | back =>
    refine ⟨rfl, rfl, fun p hp => ?_⟩
    rw [List.eq_of_mem_replicate hp]
    exact ⟨rfl, rfl⟩

theorem Layout.Step.sound (h : st.Step l text st' here) (hst : st.Sound) : st'.Sound := by
  cases h with
  | gap | emptyLine => exact hst
  | lineEnd hl hdepth hstart => exact fun _ => hdepth
  | token hopen ht =>
    rw [(Lexeme.of_token ht).2]
    exact fun hstart => absurd ((hopen.begins hst).symm.trans hstart) Bool.false_ne_true

/-- The first token of a logical line, or a later one. -/
theorem Layout.Lays.token {st₁ : Layout} {layout : List Placed} {t : Token} {p : Placed} (hst : st.Sound)
    (hopen : st.Opening (.ok (st₁, layout))) (ht : l.token text = .ok (some t)) (hp : p.token = t)
    {ls : List (Lexeme × List Char)} {ts : List Token} (h : Layout.Lays ((st₁.nest l).pass text) ls ts) :
    Layout.Lays st ((l, text) :: ls) ((layout ++ [p]).map Placed.token ++ ts) := by
  obtain ⟨hlayout, hnest⟩ := Lexeme.of_token ht
  have hstart₁ := hopen.begins hst
  obtain ⟨hdepth₁, -⟩ := hopen.stays
  rw [hnest st₁] at h
  cases h with
  | lineStart hstart => exact absurd (hstart₁.symm.trans hstart) Bool.false_ne_true
  | @inLine rest lines ts _ hrest hlater h =>
    have hrest : ∀ u ∈ t :: rest, u.isLayout = false := List.forall_mem_cons.mpr ⟨hlayout, hrest⟩
    have hlines (line : List Token) :
        logicalLinesFrom st.depth line ((l, text) :: ls) = (line ++ t :: rest) :: lines := by
      have hne : line ++ [t] ≠ [] := List.append_ne_nil_of_right_ne_nil line (List.cons_ne_nil t [])
      rw [logicalLinesFrom_token ht, ← hdepth₁, List.append_cons line t rest]
      exact hlater _ hne
    have hline : IsLine (t :: rest) := ⟨List.cons_ne_nil t rest, hrest⟩
    rw [List.map_append, List.map_singleton, hp, List.append_assoc, List.singleton_append]
    cases hopen with
    | inLine => exact .inLine _ hstart₁ hrest (fun line _ => hlines line) h
    | deeper hstart =>
      refine .lineStart hstart.1 ?_
      rw [← hstart.2, hlines]
      exact .deeper hline h
    | back hstart =>
      refine .lineStart hstart.1 ?_
      rw [← hstart.2, hlines, ← closeBlocks_length st.column st.indents, List.map_replicate]
      exact .back _ hline h

/-- One lexeme before others. -/
theorem Layout.Step.lays (h : st.Step l text st' here) (hst : st.Sound) {ls : List (Lexeme × List Char)}
    {ts : List Token} (hlater : st'.Lays ls ts) : st.Lays ((l, text) :: ls) (here.map Placed.token ++ ts) := by
  cases h with
  | gap hl =>
    cases hlater with
    | lineStart hstart h =>
      refine .lineStart hstart ?_
      rw [logicalLinesFrom_gap hl]
      exact h
    | inLine rest hstart hrest hlines h =>
      refine .inLine rest hstart hrest (fun line hne => ?_) h
      rw [logicalLinesFrom_gap hl]
      exact hlines line hne
  | lineEnd hl hdepth hstart =>
    subst hl
    cases hlater with
    | lineStart _ h =>
      refine .inLine [] hstart (List.forall_mem_nil _) (fun line hne => ?_) h
      rw [hdepth, logicalLinesFrom_lineEnd, List.append_nil, closeLine, if_neg hne, List.singleton_append]
    | inLine rest hstart' => cases hstart'
  | emptyLine hl hdepth =>
    subst hl
    cases hlater with
    | lineStart hstart h =>
      refine .lineStart hstart ?_
      rw [logicalLinesFrom_lineEnd, closeLine, if_pos rfl, List.nil_append]
      exact h
    | inLine rest hstart hrest hlines h =>
      refine .inLine rest hstart hrest (fun line hne => ?_) h
      have hopen : st.depth ≠ 0 := fun h => absurd (hstart.symm.trans (hdepth h)) Bool.false_ne_true
      rw [logicalLinesFrom_open hopen]
      exact hlines line hne
  | token hopen ht => exact hlater.token hst hopen ht rfl

end

/-- The end of the source ends the line. -/
theorem Layout.lays_finish (st : Layout) : st.Lays [] (st.finish.map Placed.token) := by
  unfold Layout.finish
  rw [List.map_append, List.map_append, List.map_replicate, List.append_assoc]
  cases hstart : st.atLineStart with
  | true => exact .lineStart hstart (.done _)
  | false =>
    refine .inLine [] hstart (List.forall_mem_nil _) (fun line hne => ?_) (.done _)
    rw [List.append_nil]
    exact if_neg hne

theorem lays_of_tokensFrom {st : Layout} {s : List Char} {ps : List Placed} (hst : st.Sound)
    (h : tokensFrom st s = .ok ps) : st.Lays (lexemes s) (ps.map Placed.token) := by
  fun_induction tokensFrom st s generalizing ps with
  | case1 st =>
    cases h
    rw [lexemes]
    exact st.lays_finish
  | case2 st c rest hscan => cases h
  | case3 st c rest l more hscan e hadvance => cases h
  | case4 st c rest l more hscan st' here hadvance e hlater ih => cases h
  | case5 st c rest l more hscan st' here hadvance later hlater ih =>
    cases h
    have hstep := Layout.step_of_advance hadvance
    rw [lexemes, hscan, List.map_append]
    exact hstep.lays hst (ih (hstep.sound hst) hlater)

/-- **What a source is lexed as:** its logical lines, laid out. -/
theorem tokens_laidOut {source : List Char} {ps : List Placed} (h : tokens source = .ok ps) :
    LaidOut 0 (logicalLines source) (ps.map Placed.token) := by
  have hlays := lays_of_tokensFrom (fun _ => rfl) h
  generalize ps.map Placed.token = ts at hlays
  cases hlays with
  | lineStart _ h => exact h
  | inLine rest hstart => cases hstart

/-! ## Blocks -/

/-- **Tokens that close their blocks,** and so many around them. -/
inductive Closes : Nat → List Token → Prop
  | nil : Closes 0 []
  | indent {blocks : Nat} {ts : List Token} (h : Closes (blocks + 1) ts) : Closes blocks (.indent :: ts)
  | dedent {blocks : Nat} {ts : List Token} (h : Closes blocks ts) : Closes (blocks + 1) (.dedent :: ts)
  | other {blocks : Nat} {t : Token} {ts : List Token} (hindent : t ≠ .indent) (hdedent : t ≠ .dedent)
    (h : Closes blocks ts) : Closes blocks (t :: ts)

namespace Closes

variable {blocks : Nat} {ts : List Token}

theorem dedents (closed : Nat) (h : Closes blocks ts) :
    Closes (blocks + closed) (List.replicate closed .dedent ++ ts) := by
  induction closed with
  | zero => exact h
  | succ closed ih => exact .dedent ih

/-- Lines neither open nor close blocks. -/
theorem line {line : List Token} (hline : ∀ t ∈ line, t.isLayout = false) (h : Closes blocks ts) :
    Closes blocks (line ++ .newline :: ts) := by
  induction line with
  | nil => exact .other nofun nofun h
  | cons t line ih =>
    obtain ⟨ht, hline⟩ := List.forall_mem_cons.mp hline
    exact .other (Token.ne_layout ht rfl) (Token.ne_layout ht rfl) (ih hline)

theorem count_dedent (h : Closes blocks ts) : ts.count .dedent = ts.count .indent + blocks := by
  induction h with
  | nil => rfl
  | indent h ih =>
    rw [List.count_cons_of_ne (by decide), List.count_cons_self, ih]
    omega
  | dedent h ih =>
    rw [List.count_cons_self, List.count_cons_of_ne (by decide), ih]
    omega
  | other hindent hdedent h ih => rw [List.count_cons_of_ne hindent, List.count_cons_of_ne hdedent, ih]

/-- No block closes that is not open. -/
theorem count_dedent_le (h : Closes blocks ts) {before : List Token} (hbefore : before <+: ts) :
    before.count .dedent ≤ before.count .indent + blocks := by
  induction h generalizing before with
  | nil =>
    rw [List.prefix_nil.mp hbefore]
    exact Nat.zero_le _
  | indent h ih =>
    obtain rfl | ⟨later, rfl, hlater⟩ := List.prefix_cons_iff.mp hbefore
    · exact Nat.zero_le _
    · rw [List.count_cons_of_ne (by decide), List.count_cons_self]
      have hcount := ih hlater
      omega
  | dedent h ih =>
    obtain rfl | ⟨later, rfl, hlater⟩ := List.prefix_cons_iff.mp hbefore
    · exact Nat.zero_le _
    · rw [List.count_cons_self, List.count_cons_of_ne (by decide)]
      have hcount := ih hlater
      omega
  | other hindent hdedent h ih =>
    obtain rfl | ⟨later, rfl, hlater⟩ := List.prefix_cons_iff.mp hbefore
    · exact Nat.zero_le _
    · rw [List.count_cons_of_ne hindent, List.count_cons_of_ne hdedent]
      exact ih hlater

end Closes

/-! ## What stands where -/

/-- Where layout may stand: a block opens after a line end, and a line ends after a token of its own. -/
def Follows (t u : Token) : Prop := (u = .indent → t = .newline) ∧ (u = .newline → t.isLayout = false)

theorem Follows.of_ne {t u : Token} (hindent : u ≠ .indent) (hnewline : u ≠ .newline) : Follows t u :=
  ⟨fun h => absurd h hindent, fun h => absurd h hnewline⟩

/-- Blocks may close after any token. -/
theorem chain_dedents {ts : List Token} (h : ∀ t, (t :: ts).IsChain Follows) (closed : Nat) (t : Token) :
    (t :: (List.replicate closed .dedent ++ ts)).IsChain Follows := by
  induction closed generalizing t with
  | zero => exact h t
  | succ closed ih => exact .cons_cons (.of_ne nofun nofun) (ih _)

/-- The rest of a line after any token, and a line end. -/
theorem chain_rest {rest ts : List Token} (hrest : ∀ t ∈ rest, t.isLayout = false)
    (h : (Token.newline :: ts).IsChain Follows) {t : Token} (ht : rest = [] → t.isLayout = false) :
    (t :: (rest ++ .newline :: ts)).IsChain Follows := by
  induction rest generalizing t with
  | nil => exact .cons_cons ⟨nofun, fun _ => ht rfl⟩ h
  | cons u rest ih =>
    obtain ⟨hu, hrest⟩ := List.forall_mem_cons.mp hrest
    exact .cons_cons (.of_ne (Token.ne_layout hu rfl) (Token.ne_layout hu rfl)) (ih hrest fun _ => hu)

/-- A line may begin after any token. -/
theorem IsLine.chain {line ts : List Token} (hline : IsLine line) (h : (Token.newline :: ts).IsChain Follows)
    (t : Token) : (t :: (line ++ .newline :: ts)).IsChain Follows :=
  chain_rest hline.2 h fun hnil => absurd hnil hline.1

namespace LaidOut

variable {blocks : Nat} {lines : List (List Token)} {ts : List Token}

theorem closes (h : LaidOut blocks lines ts) : Closes blocks ts := by
  induction h with
  | done blocks =>
    have hend := Closes.dedents blocks (.other (t := .eof) nofun nofun .nil)
    rwa [Nat.zero_add] at hend
  | deeper hline h ih => exact .indent (.line hline.2 ih)
  | back closed hline h ih => exact .dedents closed (.line hline.2 ih)

/-- The last token, and it alone, is the end of the source. -/
theorem eof (h : LaidOut blocks lines ts) : ∃ before, ts = before ++ [.eof] ∧ .eof ∉ before := by
  have hnot {line : List Token} (hline : IsLine line) : .eof ∉ line :=
    fun hmem => nomatch hline.2 _ hmem
  induction h with
  | done blocks => exact ⟨_, rfl, fun hmem => nomatch List.eq_of_mem_replicate hmem⟩
  | @deeper blocks line lines ts hline h ih =>
    obtain ⟨before, rfl, hbefore⟩ := ih
    refine ⟨.indent :: (line ++ .newline :: before), by simp, ?_⟩
    simp [hbefore, hnot hline]
  | @back blocks closed line lines ts hline h ih =>
    obtain ⟨before, rfl, hbefore⟩ := ih
    refine ⟨List.replicate closed .dedent ++ (line ++ .newline :: before), by simp, ?_⟩
    simp [hbefore, hnot hline, List.mem_replicate]

theorem chain (h : LaidOut blocks lines ts) : (Token.newline :: ts).IsChain Follows := by
  induction h with
  | done blocks =>
    have hend (t : Token) : [t, .eof].IsChain Follows := .cons_cons (.of_ne nofun nofun) (.singleton _)
    exact chain_dedents hend blocks _
  | deeper hline h ih => exact .cons_cons ⟨fun _ => rfl, nofun⟩ (hline.chain ih _)
  | back closed hline h ih => exact chain_dedents (hline.chain ih) closed _

/-- What stands before a token, if anything does. -/
theorem follows {before after : List Token} {t : Token} (h : LaidOut blocks lines (before ++ t :: after)) :
    Follows (before.getLast?.getD .newline) t := by
  have hchain : ((Token.newline :: before) ++ t :: after).IsChain Follows := h.chain
  exact (List.isChain_append.mp hchain).2.2 _ List.getLast?_cons t rfl

/-- Without the blocks, the tokens are the lines, each ended once. -/
theorem lines_eq (h : LaidOut blocks lines ts) :
    ts.filter (!·.isBlock) = lines.flatMap (· ++ [.newline]) ++ [.eof] := by
  have hends (closed : Nat) : (List.replicate closed Token.dedent).filter (!·.isBlock) = [] :=
    List.filter_replicate_of_neg (by decide)
  have hkeeps {line : List Token} (hline : IsLine line) :
      (line ++ [Token.newline]).filter (!·.isBlock) = line ++ [.newline] := by
    refine List.filter_eq_self.mpr (List.forall_mem_append.mpr ⟨fun t ht => ?_, by decide⟩)
    have hlayout := hline.2 t ht
    cases t with
    | indent | dedent => cases hlayout
    | _ => rfl
  induction h with
  | done blocks =>
    rw [List.filter_append, hends]
    rfl
  | deeper hline h ih =>
    rw [List.append_cons, List.filter_cons_of_neg (by decide), List.filter_append, hkeeps hline, ih,
      List.flatMap_cons, ← List.append_assoc]
  | back closed hline h ih =>
    rw [List.append_cons, List.filter_append, List.filter_append, hends, hkeeps hline, ih, List.flatMap_cons,
      List.nil_append, ← List.append_assoc]

/-- Lines have tokens, and their tokens are none of layout. -/
theorem isLine (h : LaidOut blocks lines ts) : ∀ line ∈ lines, IsLine line := by
  induction h with
  | done blocks => exact List.forall_mem_nil _
  | deeper hline h ih | back closed hline h ih => exact List.forall_mem_cons.mpr ⟨hline, ih⟩

end LaidOut

/-! ## Places -/

/-- **A token stands in a source:** its text is a part of the source, and its place counts bytes. -/
def Placed.StandsIn (source : List Char) (p : Placed) : Prop :=
  ∃ before text after, source = before ++ text ++ after ∧ p.start = Text.byteLength before ∧
    p.stop = Text.byteLength (before ++ text)

section

variable {st st' : Layout} {l : Lexeme} {text : List Char} {here : List Placed}

/-- One lexeme takes the bytes of its text, and its tokens start where it does. -/
theorem Layout.Step.places (h : st.Step l text st' here) : st'.byte = st.byte + Text.byteLength text ∧
    ∀ p ∈ here, p.start = st.byte ∧ (p.stop = st.byte ∨ p.stop = st'.byte) := by
  cases h with
  | gap | emptyLine => exact ⟨rfl, List.forall_mem_nil _⟩
  | lineEnd => exact ⟨rfl, List.forall_mem_singleton.mpr ⟨rfl, .inr rfl⟩⟩
  | @token st₁ layout t hopen ht =>
    obtain ⟨-, hbyte, hlayout⟩ := hopen.stays
    rw [(Lexeme.of_token ht).2]
    refine ⟨congrArg (· + Text.byteLength text) hbyte, List.forall_mem_append.mpr ⟨fun p hp => ?_, ?_⟩⟩
    · exact ⟨(hlayout p hp).1, .inl (hlayout p hp).2⟩
    · exact List.forall_mem_singleton.mpr ⟨hbyte, .inr rfl⟩

/-- What takes no place or that of the text at hand. -/
theorem standsIn_of_step {before after : List Char} (text : List Char) {p : Placed}
    (hstart : p.start = Text.byteLength before)
    (hstop : p.stop = Text.byteLength before ∨ p.stop = Text.byteLength before + Text.byteLength text) :
    p.StandsIn (before ++ (text ++ after)) := by
  rcases hstop with hstop | hstop
  · refine ⟨before, [], text ++ after, by simp, hstart, ?_⟩
    rw [List.append_nil]
    exact hstop
  · refine ⟨before, text, after, by simp, hstart, ?_⟩
    rw [Text.byteLength_append]
    exact hstop

end

/-- Tokens at the end of a source stand there. -/
theorem Layout.finish_places (st : Layout) : ∀ p ∈ st.finish, p.start = st.byte ∧ p.stop = st.byte := by
  intro p hp
  unfold Layout.finish at hp
  simp only [List.mem_append, List.mem_replicate, List.mem_singleton] at hp
  rcases hp with (hp | ⟨-, rfl⟩) | rfl
  · split_ifs at hp
    · cases hp
    · rw [List.mem_singleton.mp hp]
      exact ⟨rfl, rfl⟩
  · exact ⟨rfl, rfl⟩
  · exact ⟨rfl, rfl⟩

/-- Tokens that start at the same place are in order. -/
theorem pairwise_of_start {ps : List Placed} {n : Nat} (h : ∀ p ∈ ps, p.start = n) :
    ps.Pairwise fun p q => p.start ≤ q.start :=
  List.pairwise_of_forall_mem_list fun p hp q hq => Nat.le_of_eq ((h p hp).trans (h q hq).symm)

/-- The tokens of the rest of a source. -/
theorem tokensFrom_places {st : Layout} {s : List Char} {ps : List Placed} (h : tokensFrom st s = .ok ps)
    (before : List Char) (hbyte : st.byte = Text.byteLength before) :
    (∀ p ∈ ps, p.StandsIn (before ++ s) ∧ st.byte ≤ p.start) ∧ ps.Pairwise fun p q => p.start ≤ q.start := by
  fun_induction tokensFrom st s generalizing ps before with
  | case1 st =>
    cases h
    have hplaces := st.finish_places
    refine ⟨fun p hp => ?_, pairwise_of_start fun p hp => (hplaces p hp).1⟩
    obtain ⟨hstart, hstop⟩ := hplaces p hp
    exact ⟨standsIn_of_step [] (hstart.trans hbyte) (.inl (hstop.trans hbyte)), hstart.ge⟩
  | case2 st c rest hscan => cases h
  | case3 st c rest l more hscan e hadvance => cases h
  | case4 st c rest l more hscan st' here hadvance e hlater ih => cases h
  | case5 st c rest l more hscan st' here hadvance later hlater ih =>
    cases h
    obtain ⟨hbyte', hhere⟩ := (Layout.step_of_advance hadvance).places
    have hsplit : c :: rest = (c :: rest.take more) ++ rest.drop more := by
      rw [List.cons_append, List.take_append_drop]
    have hbefore : st'.byte = Text.byteLength (before ++ (c :: rest.take more)) := by
      rw [hbyte', hbyte, Text.byteLength_append]
    obtain ⟨hstands, hsorted⟩ := ih hlater _ hbefore
    rw [List.append_assoc, ← hsplit] at hstands
    refine ⟨List.forall_mem_append.mpr ⟨fun p hp => ?_, fun p hp => ?_⟩, List.pairwise_append.mpr ⟨?_, hsorted, ?_⟩⟩
    · obtain ⟨hstart, hstop⟩ := hhere p hp
      rw [hsplit]
      refine ⟨standsIn_of_step _ (hstart.trans hbyte) ?_, hstart.ge⟩
      rwa [hbyte', hbyte] at hstop
    · obtain ⟨hin, hle⟩ := hstands p hp
      exact ⟨hin, by omega⟩
    · exact pairwise_of_start fun p hp => (hhere p hp).1
    · intro p hp q hq
      have hstart := (hhere p hp).1
      have hle := (hstands q hq).2
      omega

/-- **Where the tokens of a source stand.** -/
theorem tokens_places {source : List Char} {ps : List Placed} (h : tokens source = .ok ps) :
    (∀ p ∈ ps, p.StandsIn source) ∧ ps.Pairwise fun p q => p.start ≤ q.start := by
  obtain ⟨hstands, hsorted⟩ := tokensFrom_places h [] rfl
  exact ⟨fun p hp => (hstands p hp).1, hsorted⟩

/-! ## Sources -/

/-- **Tokens in order:** blocks, lines, and places. -/
structure WellFormed (source : List Char) (ps : List Placed) : Prop where
  /-- The last token, and it alone, is the end of the source. -/
  eof : ∃ before, ps.map Placed.token = before ++ [.eof] ∧ .eof ∉ before
  /-- No block closes that is not open. -/
  blocks_open : ∀ before, before <+: ps.map Placed.token → before.count .dedent ≤ before.count .indent
  /-- All blocks close. -/
  blocks_close : (ps.map Placed.token).count .dedent = (ps.map Placed.token).count .indent
  /-- A block opens at the beginning, or after a line end. -/
  indent_after : ∀ before after, ps.map Placed.token = before ++ .indent :: after →
    before = [] ∨ before.getLast? = some .newline
  /-- A line ends after a token of its own. -/
  newline_after : ∀ before after, ps.map Placed.token = before ++ .newline :: after →
    ∃ t, before.getLast? = some t ∧ t.isLayout = false
  /-- Without the blocks, the tokens are the logical lines, each ended once, and the end of the source. -/
  lines_end : (ps.map Placed.token).filter (!·.isBlock) =
    (logicalLines source).flatMap (· ++ [.newline]) ++ [.eof]
  /-- The lines have tokens, and none of layout. -/
  lines_plain : ∀ line ∈ logicalLines source, IsLine line
  /-- Tokens stand in the source. -/
  stands : ∀ p ∈ ps, p.StandsIn source
  /-- No token starts before one before it. -/
  sorted : ps.Pairwise fun p q => p.start ≤ q.start

/-- **Layout, blocks and places of the tokens of a source are in order.** -/
theorem tokens_wellFormed {source : List Char} {ps : List Placed} (h : tokens source = .ok ps) :
    WellFormed source ps := by
  have hlaid := tokens_laidOut h
  obtain ⟨hstands, hsorted⟩ := tokens_places h
  refine ⟨hlaid.eof, fun before hbefore => hlaid.closes.count_dedent_le hbefore, hlaid.closes.count_dedent,
    fun before after heq => ?_, fun before after heq => ?_, hlaid.lines_eq, hlaid.isLine, hstands, hsorted⟩
  · rw [heq] at hlaid
    have hlast := hlaid.follows.1 rfl
    cases hbefore : before.getLast? with
    | none => exact .inl (List.getLast?_eq_none_iff.mp hbefore)
    | some t =>
      rw [hbefore] at hlast
      exact .inr (congrArg some hlast)
  · rw [heq] at hlaid
    have hlast := hlaid.follows.2 rfl
    cases hbefore : before.getLast? with
    | none =>
      rw [hbefore] at hlast
      cases hlast
    | some t =>
      rw [hbefore] at hlast
      exact ⟨t, rfl, hlast⟩

/-- A source with a block, comments, and brackets that no line closes. -/
def unclosedSource : List Char := "if 'é':\n\n\ta = 1  # one\n  # none\n        b\nf(b,\n  [c".toList

theorem tokens_wellFormed_unclosed : ∃ ps, tokens unclosedSource = .ok ps ∧
    logicalLines unclosedSource =
      [[.keyword .if, .str ['é'], .symbol .colon], [.name "a", .symbol .assign, .int 1], [.name "b"],
        [.name "f", .symbol .openParen, .name "b", .symbol .comma, .symbol .openBracket, .name "c"]] ∧
    WellFormed unclosedSource ps := by
  have hsome : (tokens unclosedSource).toOption.isSome = true := by decide +kernel
  obtain ⟨ps, hps⟩ := Option.isSome_iff_exists.mp hsome
  have htokens : tokens unclosedSource = .ok ps := Except.toOption_eq_some.mp hps
  exact ⟨ps, htokens, by decide +kernel, tokens_wellFormed htokens⟩

end Transcript.Lang
