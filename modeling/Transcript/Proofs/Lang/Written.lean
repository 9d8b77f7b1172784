import Transcript.Proofs.Lang.Scan

/-!
# Texts that write tokens

A text writes tokens if it consists of their texts with single blanks between some of them, and no text
goes on with the token before it. Such a text is lexed as its tokens. Inside a line that is all; at the
start of a line, layout tokens come first, and they depend on the column and the blocks that are open.

Results:
* `Writes.lexes`: inside a line, what writes tokens is lexed as the tokens.
* `Lexes.first`: at the start of a line, layout tokens come first.
* `spacedAfter_writes`: tokens with single blanks between them.
* `tokens_line`: a source of one line.
* `Expr.Legible.inline`: the tokens of a legible expression stand on a line.
-/

namespace Transcript.Lang

/-! ## Stretches of a source -/

/-- **A stretch of a source is lexed as tokens,** from states with a property to states with one, before
the rest of the source. -/
def Lexes (S : Layout → Prop) (s : List Char) (ts : List Token) (S' : Layout → Prop) (rest : List Char) :
    Prop :=
  ∀ st, S st → ∃ st' ps, S' st' ∧ ps.map Placed.token = ts ∧
    tokensFrom st (s ++ rest) = (tokensFrom st' rest).map (ps ++ ·)

namespace Lexes

variable {S S' S'' : Layout → Prop} {s s' rest : List Char} {ts us : List Token}

theorem nil : Lexes S [] [] S rest := by
  refine fun st h => ⟨st, [], h, rfl, ?_⟩
  rw [List.nil_append]
  cases tokensFrom st rest <;> rfl

/-- Stretches that follow each other. -/
theorem append (h : Lexes S s ts S' (s' ++ rest)) (h' : Lexes S' s' us S'' rest) :
    Lexes S (s ++ s') (ts ++ us) S'' rest := by
  intro st hst
  obtain ⟨st₁, ps, hst₁, hps, hs⟩ := h st hst
  obtain ⟨st₂, qs, hst₂, hqs, hs'⟩ := h' st₁ hst₁
  refine ⟨st₂, ps ++ qs, hst₂, by rw [List.map_append, hps, hqs], ?_⟩
  rw [List.append_assoc, hs, hs']
  cases tokensFrom st₂ rest with
  | error e => rfl
  | ok later => exact congrArg Except.ok (List.append_assoc ps qs later).symm

theorem mono {T T' : Layout → Prop} (h : Lexes S s ts S' rest) (hT : ∀ st, T st → S st)
    (hT' : ∀ st, S' st → T' st) : Lexes T s ts T' rest := by
  intro st hst
  obtain ⟨st', ps, hst', hps, hs⟩ := h st (hT st hst)
  exact ⟨st', ps, hT' st' hst', hps, hs⟩

end Lexes

/-- One lexeme of a source. -/
theorem tokensFrom_cons {st st' : Layout} {l : Lexeme} {c : Char} {cs rest : List Char} {ps : List Placed}
    (hscan : scan? (c :: (cs ++ rest)) = some (l, cs.length)) (h : st.advance l (c :: cs) = .ok (st', ps)) :
    tokensFrom st (c :: cs ++ rest) = (tokensFrom st' rest).map (ps ++ ·) := by
  rw [List.cons_append, tokensFrom, hscan]
  simp only [List.take_left, List.drop_left, h]
  cases tokensFrom st' rest <;> rfl

/-! ## Inside a line -/

/-- The states inside a line: the open blocks, and how many brackets are open. -/
def InLine (blocks : List Nat) (depth : Nat) (st : Layout) : Prop :=
  st.indents = blocks ∧ st.depth = depth ∧ st.atLineStart = false

/-- The number of open brackets after a token. -/
def Token.nest (depth : Nat) : Token → Nat
  | .symbol s => if s.opens then depth + 1 else if s.closes then depth - 1 else depth
  | _ => depth

/-- The number of open brackets after tokens. -/
def nestAll (depth : Nat) (ts : List Token) : Nat := ts.foldl Token.nest depth

theorem nest_lexeme (st : Layout) {t : Token} (ht : t.Writable) :
    st.nest t.lexeme = { st with depth := t.nest st.depth } := by
  cases t with
  | symbol s =>
    simp only [Token.lexeme, Layout.nest, Token.nest]
    split
    · rfl
    · split <;> rfl
  | float _ | newline | indent | dedent | eof => cases ht
  | _ => rfl

/-- A token after its layout. -/
theorem advance_token {st st' : Layout} {t : Token} {layout : List Placed} (ht : t.Writable)
    (hopen : st.open = .ok (st', layout)) : ∃ after p, p.token = t ∧
      (after.indents = st'.indents ∧ after.depth = t.nest st'.depth ∧
        after.atLineStart = st'.atLineStart) ∧
      st.advance t.lexeme t.text = .ok (after, layout ++ [p]) := by
  have hadvance : st.advance t.lexeme t.text = .ok ((st'.nest t.lexeme).pass t.text,
      layout ++ [⟨t, st'.byte, ((st'.nest t.lexeme).pass t.text).byte, st'.line⟩]) := by
    have htoken := token_text ht
    unfold Layout.advance
    cases t with
    | float _ | newline | indent | dedent | eof => cases ht
    | _ =>
      simp only [Token.lexeme] at htoken ⊢
      simp only [hopen, htoken, bind, Except.bind]
  refine ⟨_, _, rfl, ?_, hadvance⟩
  rw [nest_lexeme st' ht]
  exact ⟨rfl, rfl, rfl⟩

theorem open_of_inLine {blocks : List Nat} {depth : Nat} {st : Layout} (h : InLine blocks depth st) :
    st.open = .ok (st, []) := by
  unfold Layout.open
  rw [h.2.2]
  rfl

section

variable {blocks blocks' : List Nat} {depth : Nat} {t : Token} {s rest : List Char} {ts us : List Token}

/-- A token inside a line. -/
theorem Lexes.token (ht : t.Writable) (hends : t.EndsAt rest) :
    Lexes (InLine blocks depth) t.text [t] (InLine blocks (t.nest depth)) rest := by
  intro st hst
  obtain ⟨after, p, hp, ⟨hindents, hdepth, hline⟩, hadvance⟩ := advance_token ht (open_of_inLine hst)
  obtain ⟨c, cs, htext, hscan⟩ := scan?_text ht hends
  refine ⟨after, [p], ⟨hindents.trans hst.1, by rw [hdepth, hst.2.1], hline.trans hst.2.2⟩, by
    rw [List.map_singleton, hp], ?_⟩
  rw [htext] at hadvance ⊢
  exact tokensFrom_cons hscan hadvance

/-- A blank inside a line. -/
theorem Lexes.blank (hrest : ∀ c ∈ rest.head?, isInlineBlank c = false) :
    Lexes (InLine blocks depth) [' '] [] (InLine blocks depth) rest := by
  intro st hst
  have hscan : scan? (' ' :: ([] ++ rest)) = some (.blanks, 0) := by
    have hrun : runLength isInlineBlank rest = 0 := runLength_append (List.all_nil (f := isInlineBlank)) hrest
    unfold scan?
    simp [isInlineBlank, hrun]
  refine ⟨st.pass [' '], [], hst, rfl, tokensFrom_cons hscan rfl⟩

/-- **Texts that write tokens** before the rest of a source. -/
inductive Writes (rest : List Char) : List Token → List Char → Prop
  | nil : Writes rest [] []
  | token {t : Token} {ts : List Token} {s : List Char} (ht : t.Writable) (hends : t.EndsAt (s ++ rest))
      (h : Writes rest ts s) : Writes rest (t :: ts) (t.text ++ s)
  | blank {ts : List Token} {s : List Char} (hs : ∀ c ∈ (s ++ rest).head?, isInlineBlank c = false)
      (h : Writes rest ts s) : Writes rest ts (' ' :: s)

namespace Writes

theorem append {s' : List Char} (h : Writes (s' ++ rest) ts s) (h' : Writes rest us s') :
    Writes rest (ts ++ us) (s ++ s') := by
  induction h with
  | nil => exact h'
  | token ht hends _ ih =>
    rw [List.cons_append, List.append_assoc]
    exact .token ht (by rwa [List.append_assoc]) ih
  | blank hs _ ih =>
    rw [List.cons_append]
    exact .blank (by rwa [List.append_assoc]) ih

/-- **What writes tokens inside a line is lexed as the tokens.** -/
theorem lexes (h : Writes rest ts s) :
    Lexes (InLine blocks depth) s ts (InLine blocks (nestAll depth ts)) rest := by
  induction h generalizing depth with
  | nil => exact .nil
  | token ht hends _ ih => exact (Lexes.token ht hends).append ih
  | blank hs _ ih => exact (Lexes.blank hs).append ih

end Writes

/-! ## The start of a line -/

/-- The states at the start of a line after blanks: the open blocks and the column. -/
def LineStart (blocks : List Nat) (column : Nat) (st : Layout) : Prop :=
  st.indents = blocks ∧ st.depth = 0 ∧ st.atLineStart = true ∧ st.column = column

/-- **The layout of a line** that starts at a column: the tokens before it, and the blocks open in it. -/
inductive Opens (column : Nat) (blocks : List Nat) : List Token → List Nat → Prop
  | deeper (h : blocks.head?.getD 0 < column) : Opens column blocks [.indent] (column :: blocks)
  | back {blocks' : List Nat} {closed : Nat} (hle : column ≤ blocks.head?.getD 0)
      (h : closeBlocks column blocks = (blocks', closed)) (htop : blocks'.head?.getD 0 = column) :
      Opens column blocks (List.replicate closed .dedent) blocks'

theorem open_of_lineStart {column : Nat} {layout : List Token} {st : Layout}
    (h : LineStart blocks column st) (ho : Opens column blocks layout blocks') :
    ∃ st' ps, InLine blocks' 0 st' ∧ ps.map Placed.token = layout ∧ st.open = .ok (st', ps) := by
  obtain ⟨rfl, hdepth, hline, rfl⟩ := h
  have hstart : (!(st.atLineStart && st.depth == 0)) = false := by rw [hline, hdepth]; rfl
  unfold Layout.open
  rw [hstart, if_neg Bool.false_ne_true]
  cases ho with
  | deeper hlt =>
    refine ⟨{ st with indents := st.column :: st.indents, atLineStart := false }, [st.mark .indent],
      ⟨rfl, hdepth, rfl⟩, rfl, ?_⟩
    exact if_pos hlt
  | @back _ closed hle hclose htop =>
    refine ⟨{ st with indents := blocks', atLineStart := false },
      List.replicate closed (st.mark .dedent), ⟨rfl, hdepth, rfl⟩, List.map_replicate, ?_⟩
    refine (if_neg (Nat.not_lt.mpr hle)).trans ?_
    rw [hclose]
    exact if_pos htop

/-- **The first token of a line** comes after the layout of the line. -/
theorem Lexes.first {column : Nat} {layout : List Token} (ho : Opens column blocks layout blocks')
    (ht : t.Writable) (hends : t.EndsAt rest) :
    Lexes (LineStart blocks column) t.text (layout ++ [t]) (InLine blocks' (t.nest 0)) rest := by
  intro st hst
  obtain ⟨st', ps, hst', hps, hopen⟩ := open_of_lineStart hst ho
  obtain ⟨after, p, hp, ⟨hindents, hdepth, hline⟩, hadvance⟩ := advance_token ht hopen
  obtain ⟨c, cs, htext, hscan⟩ := scan?_text ht hends
  refine ⟨after, ps ++ [p], ⟨hindents.trans hst'.1, by rw [hdepth, hst'.2.1], hline.trans hst'.2.2⟩, by
    rw [List.map_append, hps, List.map_singleton, hp], ?_⟩
  rw [htext] at hadvance ⊢
  exact tokensFrom_cons hscan hadvance

/-! ## Tokens with blanks between them -/

/-- **Tokens with single blanks between them.** -/
def spaced (ts : List Token) : List Char := Text.joinWith [' '] (ts.map Token.text)

/-- What goes on with no token: the end of the source or of a line, a blank, and what follows an item or
closes a bracket. -/
def Delimited (rest : List Char) : Prop :=
  ∀ c ∈ rest.head?, c ∈ [' ', '\n', ',', ':', ')', ']', '\x7d']

theorem Delimited.endsAt (h : Delimited rest) (t : Token) : t.EndsAt rest := by
  have hall : ∀ c ∈ [' ', '\n', ',', ':', ')', ']', '\x7d'],
      (isNamePart c = false ∧ c ≠ '.' ∧ isQuote c = false) ∧ c ∉ ['=', '>', '*', '/'] ∧
        c.isDigit = false := by
    intro c hc
    simp only [List.mem_cons, List.not_mem_nil, or_false] at hc
    rcases hc with rfl | rfl | rfl | rfl | rfl | rfl | rfl <;> decide
  have hword : EndsWord rest := fun c hc => (hall c (h c hc)).1
  have hsymbol (s : Symbol) : EndsSymbol s rest := fun c hc =>
    ⟨(hall c (h c hc)).2.1, fun _ => (hall c (h c hc)).2.2⟩
  cases t with
  | name n => exact hword
  | keyword k => exact hword
  | int n => exact hword
  | symbol s => exact hsymbol s
  | _ => trivial

/-- A text starts with no blank. -/
theorem Token.Writable.text_head (ht : t.Writable) (rest : List Char) :
    ∀ c ∈ (t.text ++ rest).head?, isInlineBlank c = false := by
  have hends : Delimited [] := nofun
  obtain ⟨c, cs, htext, hscan⟩ := scan?_text ht (hends.endsAt t)
  rw [htext]
  rintro _ ⟨⟩
  by_contra hblank
  rw [Bool.not_eq_false] at hblank
  have hblanks : scan? (c :: (cs ++ [])) = some (.blanks, runLength isInlineBlank (cs ++ [])) := by
    unfold scan?
    simp only [hblank, if_true]
  have hlexeme : t.lexeme = .blanks := by
    rw [hblanks] at hscan
    exact (congrArg Prod.fst (Option.some.inj hscan)).symm
  cases t <;> first | exact False.elim ht | cases hlexeme

/-- The tokens after the first one, with a blank before each of them. -/
def spacedAfter (ts : List Token) : List Char := ts.flatMap fun t => ' ' :: t.text

theorem spaced_cons (t : Token) (ts : List Token) : spaced (t :: ts) = t.text ++ spacedAfter ts := by
  induction ts generalizing t with
  | nil => simp [spaced, spacedAfter, Text.joinWith]
  | cons u ts ih =>
    have hjoin : spaced (t :: u :: ts) = t.text ++ ' ' :: spaced (u :: ts) := by
      simp [spaced, Text.joinWith]
    rw [hjoin, ih]
    simp [spacedAfter]

theorem Delimited.spacedAfter (h : Delimited rest) (ts : List Token) : Delimited (spacedAfter ts ++ rest) := by
  cases ts with
  | nil => exact h
  | cons t ts =>
    rintro c ⟨⟩
    exact List.mem_cons_self

/-- **Tokens after the first one** are written with the blanks between them. -/
theorem spacedAfter_writes (hts : ∀ t ∈ ts, t.Writable) (hrest : Delimited rest) :
    Writes rest ts (spacedAfter ts) := by
  induction ts with
  | nil => exact .nil
  | cons t ts ih =>
    obtain ⟨ht, hts⟩ := List.forall_mem_cons.mp hts
    have hcons : spacedAfter (t :: ts) = ' ' :: (t.text ++ spacedAfter ts) := rfl
    rw [hcons]
    refine .blank ?_ (.token ht ((hrest.spacedAfter ts).endsAt t) (ih hts))
    rw [List.append_assoc]
    exact ht.text_head _

/-! ## One line -/

/-- **A source of one line** is lexed as the tokens it writes, the end of the line and that of the source. -/
theorem tokens_line (h : Writes [] (t :: ts) s) (hs : ∀ c ∈ s.head?, isInlineBlank c = false) :
    ∃ ps, tokens s = .ok ps ∧ ps.map Placed.token = t :: ts ++ [.newline, .eof] := by
  cases h with
  | blank _ _ => exact absurd (hs ' ' rfl) (by decide)
  | @token _ _ s ht hends h =>
    have hopens : Opens 0 [] [] [] := .back (Nat.le_refl 0) rfl rfl
    have hfirst : Lexes (LineStart [] 0) t.text ([] ++ [t]) (InLine [] (t.nest 0)) (s ++ []) :=
      Lexes.first hopens ht hends
    have hline := hfirst.append h.lexes
    obtain ⟨st, ps, ⟨hindents, -, hstart⟩, hps, hs⟩ := hline .start ⟨rfl, rfl, rfl, rfl⟩
    refine ⟨ps ++ st.finish, ?_, ?_⟩
    · rw [List.append_nil] at hs
      rw [tokens, hs, tokensFrom]
      rfl
    · rw [List.map_append, hps]
      simp [Layout.finish, hstart, hindents, Layout.mark]

end

/-! ## Tokens of expressions

The tokens of an expression have texts, and their brackets are closed again, so the expression stands on a
line of its own. Both follow the way in which expressions are spelled.
-/

section

open Reader (sym key)

variable {full : Bool} {e : Expr} {t : Token} {ts us : List Token}

/-- **Tokens that stand on a line:** they have texts, and their brackets are closed. -/
structure Inline (ts : List Token) : Prop where
  /-- They have texts. -/
  writable : ∀ t ∈ ts, t.Writable
  /-- Their brackets are closed. -/
  balanced (depth : Nat) : nestAll depth ts = depth

/-- A token that is no bracket. -/
def Token.IsPlain (t : Token) : Prop := t.Writable ∧ ∀ depth, t.nest depth = depth

namespace Inline

theorem nil : Inline [] := ⟨nofun, fun _ => rfl⟩

theorem append (h : Inline ts) (h' : Inline us) : Inline (ts ++ us) where
  writable := List.forall_mem_append.mpr ⟨h.writable, h'.writable⟩
  balanced depth := by
    unfold nestAll
    rw [List.foldl_append]
    exact (congrArg (us.foldl Token.nest) (h.balanced depth)).trans (h'.balanced depth)

theorem flatMap {α : Type} {xs : List α} {f : α → List Token} (h : ∀ x ∈ xs, Inline (f x)) :
    Inline (xs.flatMap f) := by
  induction xs with
  | nil => exact nil
  | cons x xs ih =>
    obtain ⟨hx, hxs⟩ := List.forall_mem_cons.mp h
    exact hx.append (ih hxs)

theorem singleton (ht : t.IsPlain) : Inline [t] := ⟨List.forall_mem_singleton.mpr ht.1, ht.2⟩

theorem cons (ht : t.IsPlain) (h : Inline ts) : Inline (t :: ts) := (singleton ht).append h

/-- What stands in brackets. -/
theorem bracketed {o c : Symbol} (ho : o.opens = true) (hc : c.closes = true ∧ c.opens = false)
    (h : Inline ts) : Inline (sym o :: (ts ++ [sym c])) where
  writable := List.forall_mem_cons.mpr ⟨trivial, List.forall_mem_append.mpr
    ⟨h.writable, List.forall_mem_singleton.mpr trivial⟩⟩
  balanced depth := by
    have hopen : Token.nest depth (sym o) = depth + 1 := if_pos ho
    have hclose : Token.nest (depth + 1) (sym c) = depth := by
      simp only [Token.nest, hc.2, hc.1, if_true, Bool.false_eq_true, if_false, Nat.add_sub_cancel]
    unfold nestAll
    rw [List.foldl_cons, List.foldl_append, hopen]
    exact (congrArg (([sym c] : List Token).foldl Token.nest) (h.balanced (depth + 1))).trans hclose

theorem parens (h : Inline ts) : Inline (parens ts) := bracketed rfl ⟨rfl, rfl⟩ h

theorem enclose (h : Inline ts) (full : Bool) (level : Level) (e : Expr) :
    Inline (enclose full level e ts) := by
  unfold Lang.enclose
  split
  · exact h.parens
  · exact h

theorem keyword (k : Keyword) : Token.IsPlain (key k) := ⟨trivial, fun _ => rfl⟩

theorem symbol {s : Symbol} (h : s.opens = false ∧ s.closes = false) : Token.IsPlain (sym s) := by
  refine ⟨trivial, fun depth => ?_⟩
  simp only [Token.nest, h.1, h.2, Bool.false_eq_true, if_false]

theorem name {n : String} (h : IsName n) : Token.IsPlain (.name n) := ⟨h, fun _ => rfl⟩

theorem commaSeparated {parts : List (List Token)} (h : ∀ part ∈ parts, Inline part) :
    Inline (commaSeparated parts) := by
  induction parts with
  | nil => exact nil
  | cons part parts ih =>
    obtain ⟨hpart, hparts⟩ := List.forall_mem_cons.mp h
    rw [commaSeparated_cons]
    refine hpart.append ?_
    cases parts with
    | nil => exact nil
    | cons next parts => exact cons (symbol ⟨rfl, rfl⟩) (ih hparts)

theorem tupleItems {parts : List (List Token)} (h : ∀ part ∈ parts, Inline part) :
    Inline (tupleItems parts) := by
  unfold Lang.tupleItems
  split
  · exact (h _ List.mem_cons_self).append (singleton (symbol ⟨rfl, rfl⟩))
  · exact commaSeparated h

theorem spellAll {es : List Expr} (h : ∀ e ∈ es, Inline (e.spell full)) :
    ∀ part ∈ spellAll full es, Inline part := by
  rw [spellAll_eq_map, List.forall_mem_map]
  exact fun e he => (h e he).enclose full _ e

theorem spellOption {e? : Option Expr} (h : ∀ e ∈ e?, Inline (e.spell full)) : Inline (spellOption full e?) := by
  cases e? with
  | none => exact nil
  | some e => exact (h e rfl).enclose full _ e

end Inline

theorem BinaryOp.token_plain (op : BinaryOp) : op.token.IsPlain := by
  cases op <;> exact Inline.symbol ⟨rfl, rfl⟩

theorem CompareOp.tokens_inline (op : CompareOp) : Inline op.tokens := by
  cases op with
  | notMember | notSame => exact .cons (Inline.keyword _) (.singleton (Inline.keyword _))
  | member | same => exact .singleton (Inline.keyword _)
  | _ => exact .singleton (Inline.symbol ⟨rfl, rfl⟩)

theorem Constant.Legible.token_plain {c : Constant} (h : c.Legible) : c.token.IsPlain := by
  cases c with
  | bool b => cases b <;> exact Inline.keyword _
  | float d => cases h
  | none => exact Inline.keyword _
  | str s => exact ⟨trivial, fun _ => rfl⟩
  | int n => exact ⟨h, fun _ => rfl⟩
  | bytes b => exact ⟨h, fun _ => rfl⟩

/-- **The tokens of a legible expression** stand on a line. -/
theorem Expr.Legible.inline (h : e.Legible) (full : Bool) : Inline (e.spell full) := by
  have hcolon : Token.IsPlain (sym .colon) := Inline.symbol ⟨rfl, rfl⟩
  induction h with
  | constant h => exact .singleton h.token_plain
  | name h => exact .singleton (Inline.name h)
  | list h ih => exact (Inline.commaSeparated (.spellAll ih)).bracketed rfl ⟨rfl, rfl⟩
  | tuple h ih => exact (Inline.tupleItems (.spellAll ih)).parens
  | dict hk hv ihk ihv =>
    refine Inline.bracketed rfl ⟨rfl, rfl⟩ (Inline.commaSeparated ?_)
    rw [spellPairs_eq_map, List.forall_mem_map]
    exact fun item hi => ((ihk item hi).enclose full _ _).append (.cons hcolon ((ihv item hi).enclose full _ _))
  | @binary op l r hl hr ihl ihr =>
    exact (ihl.enclose full _ l).append (.cons op.token_plain (ihr.enclose full _ r))
  | @unary op e h ih =>
    refine .cons ?_ (ih.enclose full _ e)
    cases op with
    | not => exact Inline.keyword _
    | _ => exact Inline.symbol ⟨rfl, rfl⟩
  | @logic op l r hl hr ihl ihr =>
    refine (ihl.enclose full _ l).append (.cons ?_ (ihr.enclose full _ r))
    cases op <;> exact Inline.keyword _
  | @compare e rest h hne hrest ih ihrest =>
    refine (ih.enclose full _ e).append ?_
    clear hne
    induction rest with
    | nil => exact .nil
    | cons operand rest ihs =>
      obtain ⟨op, e'⟩ := operand
      obtain ⟨hoperand, hoperands⟩ := List.forall_mem_cons.mp ihrest
      exact op.tokens_inline.append ((hoperand.enclose full _ e').append
        (ihs (List.forall_mem_cons.mp hrest).2 hoperands))
  | call hf hargs hnames hdistinct hnamed ihf ihargs ihnamed =>
    refine (ihf.enclose full _ _).append (Inline.commaSeparated ?_).parens
    rw [List.forall_mem_append]
    refine ⟨.spellAll ihargs, ?_⟩
    rw [spellNamed_eq_map, List.forall_mem_map]
    exact fun arg ha => .cons (Inline.name (hnames arg ha))
      (.cons (Inline.symbol ⟨rfl, rfl⟩) ((ihnamed arg ha).enclose full _ _))
  | «attribute» h hn ih =>
    exact (ih.enclose full _ _).append (.cons (Inline.symbol ⟨rfl, rfl⟩) (.singleton (Inline.name hn)))
  | subscript h hi ih ihi =>
    exact (ih.enclose full _ _).append (Inline.bracketed rfl ⟨rfl, rfl⟩ (ihi.enclose full _ _))
  | sliced h hl hu ih ihl ihu =>
    have hslice := (Inline.spellOption ihl).append (.cons hcolon (Inline.spellOption ihu))
    exact (ih.enclose full _ _).append (Inline.bracketed rfl ⟨rfl, rfl⟩ (hslice.enclose full _ _))
  | conditional ht hy hn iht ihy ihn =>
    exact (ihy.enclose full _ _).append (.cons (Inline.keyword _) ((iht.enclose full _ _).append
      (.cons (Inline.keyword _) (ihn.enclose full _ _))))
  | await h ih => exact .cons (Inline.keyword _) (ih.enclose full _ _)

theorem Expr.Legible.inline_spellAt (h : e.Legible) (full : Bool) (level : Level) : Inline (e.spellAt full level) :=
  (h.inline full).enclose full level e

end

end Transcript.Lang
