import Transcript.Proofs.Lang.Datum
import Transcript.Proofs.Lang.Reread
import Mathlib.Data.List.Forall2

/-!
# Texts of data are sources

The text of a datum writes the tokens of an expression that builds the datum: a literal, a display of
the items, a sign before a number, or a call that makes a range. So it is a source with one statement,
if it is sound: its integers have an opposite, its bytes are ASCII, its steps are not zero, and its keys
are different.

Results:
* `Datum.Sound.legible`: the expression of a sound datum is legible.
* `Datum.Sound.shows`: the text of a sound datum shows the tokens of its expression.
* `Datum.Sound.statements_text`, `Datum.Sound.compile_text`: the text is a source that evaluates the
  expression.
-/

namespace Transcript.Lang

open Reader (sym key)

/-! ## Texts that show tokens -/

/-- What stands before something else in a source without going on with a symbol before it. -/
def Fresh (c : Char) : Prop := Text.isBlank c = false ∧ c ∉ ['=', '>', '*', '/']

instance (c : Char) : Decidable (Fresh c) := inferInstanceAs (Decidable (_ ∧ _))

/-- **A text that shows tokens** wherever an item may stand: it writes them, it has no blanks at its ends,
and it goes on with no symbol before it. -/
structure Shows (s : List Char) (ts : List Token) : Prop where
  /-- It writes the tokens. -/
  writes {rest : List Char} (hrest : Delimited rest) : Writes rest ts s
  /-- Its first character. -/
  head : ∃ c cs, s = c :: cs ∧ Fresh c
  /-- Its last character. -/
  last : ∃ cs c, s = cs ++ [c] ∧ Text.isBlank c = false

theorem Fresh.not_inlineBlank {c : Char} (h : Fresh c) : isInlineBlank c = false := by
  by_contra hblank
  simp only [isInlineBlank, Bool.not_eq_false, Bool.or_eq_true, beq_iff_eq] at hblank
  obtain ⟨hfresh, -⟩ := h
  rcases hblank with (rfl | rfl) | rfl <;> cases hfresh

/-- A symbol, a blank, and something else. -/
theorem Writes.symbol_blank {rest s : List Char} {ts : List Token} (k : Symbol) (h : Writes rest ts s)
    (hs : ∃ c cs, s = c :: cs ∧ Fresh c) : Writes rest (sym k :: ts) (k.text ++ ' ' :: s) := by
  obtain ⟨c, cs, rfl, hc⟩ := hs
  have hends : EndsSymbol k (' ' :: (c :: cs) ++ rest) := by
    rintro _ ⟨⟩
    exact ⟨by decide, fun _ => rfl⟩
  refine .token (t := sym k) trivial hends (.blank ?_ h)
  rintro _ ⟨⟩
  exact hc.not_inlineBlank

theorem isName_range : IsName "range" := ⟨⟨'r', ['a', 'n', 'g', 'e'], rfl, rfl, rfl⟩, rfl⟩

namespace Shows

variable {s s' rest : List Char} {ts us : List Token}

theorem head_append (h : Shows s ts) (s' : List Char) : ∃ c cs, s ++ s' = c :: cs ∧ Fresh c := by
  obtain ⟨c, cs, rfl, hc⟩ := h.head
  exact ⟨c, cs ++ s', rfl, hc⟩

theorem last_append (h : Shows s ts) (s' : List Char) : ∃ cs c, s' ++ s = cs ++ [c] ∧ Text.isBlank c = false := by
  obtain ⟨cs, c, rfl, hc⟩ := h.last
  exact ⟨s' ++ cs, c, (List.append_assoc _ _ _).symm, hc⟩

/-- Blanks around a text that shows tokens: there are none. -/
theorem trim (h : Shows s ts) : Text.trim s = s := by
  have hend (s : List Char) {c : Char} (hc : Text.isBlank c = false) :
      Text.dropEndWhile Text.isBlank (s ++ [c]) = s ++ [c] := by
    induction s with
    | nil => simp [Text.dropEndWhile, hc]
    | cons d s ih =>
      rw [List.cons_append, Text.dropEndWhile, ih]
      cases s <;> rfl
  obtain ⟨c, cs, rfl, hc⟩ := h.head
  obtain ⟨ds, d, heq, hd⟩ := h.last
  rw [Text.trim, Text.trimStart, List.dropWhile_cons_of_neg (by rw [hc.1]; exact Bool.false_ne_true), heq]
  exact hend ds hd

/-- One token. -/
theorem token {t : Token} (ht : t.Writable) (hhead : ∃ c cs, t.text = c :: cs ∧ Fresh c)
    (hlast : ∃ cs c, t.text = cs ++ [c] ∧ Text.isBlank c = false) : Shows t.text [t] where
  writes {rest} hrest := by
    have htoken : Writes rest [t] (t.text ++ []) := .token ht (hrest.endsAt t) .nil
    rwa [List.append_nil] at htoken
  head := hhead
  last := hlast

/-- A keyword. -/
theorem keyword {k : Keyword} (hk : k ∈ [Keyword.none, .true, .false]) : Shows k.text.toList [key k] := by
  simp only [List.mem_cons, List.not_mem_nil, or_false] at hk
  rcases hk with rfl | rfl | rfl
  · exact token (t := key .none) trivial ⟨'N', ['o', 'n', 'e'], rfl, by decide⟩ ⟨['N', 'o', 'n'], 'e', rfl, rfl⟩
  · exact token (t := key .true) trivial ⟨'T', ['r', 'u', 'e'], rfl, by decide⟩ ⟨['T', 'r', 'u'], 'e', rfl, rfl⟩
  · exact token (t := key .false) trivial ⟨'F', ['a', 'l', 's', 'e'], rfl, by decide⟩
      ⟨['F', 'a', 'l', 's'], 'e', rfl, rfl⟩

/-- The two ends of an item and what is between them. -/
theorem pair (h : Shows s ts) (h' : Shows s' us) : Shows (s ++ [':', ' '] ++ s') (ts ++ sym .colon :: us) where
  writes {rest} hrest := by
    have hafter := Writes.symbol_blank .colon (h'.writes hrest) h'.head
    rw [List.append_assoc]
    refine (h.writes ?_).append hafter
    rintro _ ⟨⟩
    decide
  head := by
    rw [List.append_assoc]
    exact h.head_append _
  last := h'.last_append _

/-- What comes before the first comma. -/
theorem commas_cons (s : List Char) (texts : List (List Char)) : ∃ more, commas (s :: texts) = s ++ more := by
  cases texts with
  | nil => exact ⟨[], (List.append_nil s).symm⟩
  | cons s' texts => exact ⟨[',', ' '] ++ commas (s' :: texts), List.append_assoc _ _ _⟩

/-- **Items with commas between them** write their tokens. -/
theorem commas_writes {texts : List (List Char)} {parts : List (List Token)}
    (h : List.Forall₂ Shows texts parts) (hrest : Delimited rest) :
    Writes rest (commaSeparated parts) (commas texts) := by
  induction h with
  | nil => exact .nil
  | @cons s part texts parts hs h ih =>
    rw [commaSeparated_cons]
    cases h with
    | nil =>
      rw [commaTail, List.append_nil]
      exact hs.writes hrest
    | @cons s' part' texts parts hs' h =>
      obtain ⟨more, hmore⟩ := commas_cons s' texts
      have hafter := Writes.symbol_blank .comma ih (by rw [hmore]; exact hs'.head_append more)
      have hcommas : commas (s :: s' :: texts) = s ++ (',' :: ' ' :: commas (s' :: texts)) :=
        List.append_assoc _ _ _
      rw [hcommas]
      refine (hs.writes ?_).append hafter
      rintro _ ⟨⟩
      decide

/-- Items before something else start with no blank. -/
theorem commas_head {texts : List (List Char)} {parts : List (List Token)} (h : List.Forall₂ Shows texts parts)
    (s : List Char) {c : Char} (hc : Fresh c) : ∃ d ds, commas texts ++ c :: s = d :: ds ∧ Fresh d := by
  cases h with
  | nil => exact ⟨c, s, rfl, hc⟩
  | @cons s' part texts parts hs' h =>
    obtain ⟨more, hmore⟩ := commas_cons s' texts
    rw [hmore, List.append_assoc]
    exact hs'.head_append _

/-- **What stands in brackets.** -/
theorem bracketed (o c : Symbol) (hb : (o, c) ∈ [(Symbol.openParen, Symbol.closeParen),
    (.openBracket, .closeBracket), (.openBrace, .closeBrace)])
    (h : ∀ rest, Delimited rest → Writes rest ts s) (hs : ∃ d ds, s ++ c.text = d :: ds ∧ Fresh d) :
    Shows (o.text ++ (s ++ c.text)) (sym o :: (ts ++ [sym c])) where
  writes {rest} hrest := by
    have hclose : Delimited (c.text ++ rest) ∧ o ≠ .dot := by
      simp only [List.mem_cons, List.not_mem_nil, or_false, Prod.mk.injEq] at hb
      rcases hb with ⟨rfl, rfl⟩ | ⟨rfl, rfl⟩ | ⟨rfl, rfl⟩ <;>
        exact ⟨by rintro _ ⟨⟩; decide, by decide⟩
    have hlast : Writes rest [sym c] (c.text ++ []) := .token (t := sym c) trivial (hrest.endsAt _) .nil
    rw [List.append_nil] at hlast
    have hinner := (h _ hclose.1).append hlast
    obtain ⟨d, ds, hd, hfresh⟩ := hs
    refine .token (t := sym o) trivial (fun x hx => ?_) hinner
    rw [hd] at hx
    cases hx
    exact ⟨hfresh.2, fun ho => absurd ho hclose.2⟩
  head := by
    simp only [List.mem_cons, List.not_mem_nil, or_false, Prod.mk.injEq] at hb
    rcases hb with ⟨rfl, rfl⟩ | ⟨rfl, rfl⟩ | ⟨rfl, rfl⟩ <;> exact ⟨_, _, rfl, by decide⟩
  last := by
    rw [← List.append_assoc]
    simp only [List.mem_cons, List.not_mem_nil, or_false, Prod.mk.injEq] at hb
    rcases hb with ⟨rfl, rfl⟩ | ⟨rfl, rfl⟩ | ⟨rfl, rfl⟩ <;> exact ⟨_, _, rfl, by decide⟩

/-- Items in parentheses; a comma follows a single one. -/
theorem tuple {texts : List (List Char)} {parts : List (List Token)} (h : List.Forall₂ Shows texts parts) :
    Shows (showTuple texts) (parens (tupleItems parts)) := by
  have hmany := bracketed .openParen .closeParen (by decide) (fun _ => commas_writes h)
    (commas_head h [] (by decide))
  cases h with
  | nil => exact hmany
  | @cons s part texts parts hs h =>
    cases h with
    | cons _ _ => exact hmany
    | nil =>
      have hcomma {rest : List Char} (hrest : Delimited rest) : Writes rest [sym .comma] [','] :=
        .token (t := sym .comma) trivial (hrest.endsAt _) .nil
      have hwrites (rest : List Char) (hrest : Delimited rest) :
          Writes rest (part ++ [sym .comma]) (s ++ [',']) := by
        refine (hs.writes ?_).append (hcomma hrest)
        rintro _ ⟨⟩
        decide
      have hone := bracketed .openParen .closeParen (by decide) hwrites (by
        rw [List.append_assoc]
        exact hs.head_append _)
      have htext : showTuple [s] = Symbol.openParen.text ++ (s ++ [','] ++ Symbol.closeParen.text) := by
        simp [showTuple, Symbol.text]
      rw [htext]
      exact hone

/-- The call of a function. -/
theorem applied (h : Shows ('(' :: s) ts) : Shows ("range".toList ++ '(' :: s) (.name "range" :: ts) where
  writes {rest} hrest := by
    refine .token (t := .name "range") isName_range (fun c hc => ?_) (h.writes hrest)
    cases hc
    decide
  head := ⟨_, _, rfl, by decide⟩
  last := h.last_append _

/-! ### Numbers -/

/-- Digits. -/
theorem digits {n : Int64} (hn : 0 ≤ n) : Shows (showInt n.toInt) [.int n] := by
  have hall : ∀ c ∈ showInt n.toInt, c.isDigit = true := by
    rw [showInt_of_nonneg hn]
    exact fun c hc => Nat.isDigit_of_mem_toDigits (by decide) (by decide) hc
  have hne : showInt n.toInt ≠ [] := by
    rw [showInt_of_nonneg hn]
    exact Nat.toDigits_ne_nil
  have hblank {c : Char} (hc : c.isDigit = true) : Text.isBlank c = false := by
    simp only [Char.isDigit, Bool.and_eq_true, decide_eq_true_eq, ge_iff_le, UInt32.le_iff_toNat_le,
      Char.reduceVal, UInt32.reduceToNat] at hc
    have hnat : c.val.toNat = c.toNat := rfl
    simp only [Text.isBlank, Bool.or_eq_false_iff, Bool.and_eq_false_iff, decide_eq_false_iff_not,
      beq_eq_false_iff_ne]
    omega
  refine token (t := .int n) hn ?_ ?_
  · obtain ⟨c, cs, hcs⟩ := List.exists_cons_of_ne_nil hne
    have hc := hall c (by rw [hcs]; exact List.mem_cons_self)
    refine ⟨c, cs, hcs, hblank hc, ?_⟩
    simp [ne_of_isDigit hc (d := '=') rfl, ne_of_isDigit hc (d := '>') rfl, ne_of_isDigit hc (d := '*') rfl,
      ne_of_isDigit hc (d := '/') rfl]
  · refine ⟨_, _, (List.dropLast_append_getLast hne).symm, hblank (hall _ (List.getLast_mem hne))⟩

/-- A sign before a number. -/
theorem negated (h : Shows s ts) : Shows ('-' :: s) (sym .minus :: ts) where
  writes {rest} hrest := by
    obtain ⟨c, cs, rfl, hc⟩ := h.head
    refine .token (t := sym .minus) trivial (fun x hx => ?_) (h.writes hrest)
    cases hx
    exact ⟨hc.2, nofun⟩
  head := ⟨_, _, rfl, by decide⟩
  last := h.last_append ['-']

/-! ### Literals -/

theorem isQuote_fresh {q : Char} (h : isQuote q = true) : Fresh q := by
  rcases isQuote_iff.mp h with rfl | rfl <;> decide

/-- A shown text. -/
theorem text (s : List Char) : Shows (showText s) [.str s] := by
  have hquote := isQuote_fresh (quoteFor_isQuote s)
  exact token (t := .str s) trivial ⟨_, _, rfl, hquote⟩ ⟨quoteFor s :: _, _, rfl, hquote.1⟩

/-- Shown bytes. -/
theorem bytes {b : List UInt8} (h : ∀ x ∈ b, x.toNat < 128) : Shows (showBytes b) [.bytes b] := by
  have hquote : Fresh (quoteForBytes b) := isQuote_fresh (quoteFor_isQuote _)
  exact token (t := .bytes b) h ⟨_, _, rfl, by decide⟩ ⟨'b' :: quoteForBytes b :: _, _, rfl, hquote.1⟩

end Shows

/-! ## The expression of a datum -/

/-- An integer as an expression. A literal has no sign. -/
def intExpr (n : Int64) : Expr :=
  if n < 0 then .unary .negate (.constant (.int (-n))) else .constant (.int n)

namespace Datum

mutual

/-- **The expression that builds a datum.** -/
def expr : Datum → Expr
  | .none => .constant .none
  | .bool b => .constant (.bool b)
  | .int n => intExpr n
  | .str s => .constant (.str s)
  | .bytes b => .constant (.bytes b)
  | .range start stop step =>
    .call (.name "range") ((if step = 1 then [start, stop] else [start, stop, step]).map intExpr) []
  | .list items => .list (exprs items)
  | .tuple items => .tuple (exprs items)
  | .dict items => .dict (pairExprs items)

/-- The expressions that build data. -/
def exprs : List Datum → List Expr
  | [] => []
  | d :: ds => d.expr :: exprs ds

/-- The expressions that build the entries of a dictionary. -/
def pairExprs : List (Datum × Datum) → List (Expr × Expr)
  | [] => []
  | (k, v) :: items => (k.expr, v.expr) :: pairExprs items

end

theorem exprs_eq_map (ds : List Datum) : exprs ds = ds.map expr := by
  induction ds with
  | nil => rfl
  | cons d ds ih => exact congrArg (_ :: ·) ih

theorem pairExprs_eq_map (items : List (Datum × Datum)) :
    pairExprs items = items.map fun item => (item.1.expr, item.2.expr) := by
  induction items with
  | nil => rfl
  | cons item items ih => exact congrArg (_ :: ·) ih

/-- **Sound data:** those that their texts denote. Integers have an opposite, bytes are ASCII, steps are
not zero, and the keys of a dictionary are different. -/
inductive Sound : Datum → Prop
  | none : Sound .none
  | bool (b : Bool) : Sound (.bool b)
  | int {n : Int64} (h : n ≠ Int64.minValue) : Sound (.int n)
  | str (s : List Char) : Sound (.str s)
  | bytes {b : List UInt8} (h : ∀ x ∈ b, x.toNat < 128) : Sound (.bytes b)
  | range {start stop step : Int64} (hstart : start ≠ Int64.minValue) (hstop : stop ≠ Int64.minValue)
      (hstep : step ≠ Int64.minValue) (hzero : step ≠ 0) : Sound (.range start stop step)
  | list {items : List Datum} (h : ∀ d ∈ items, Sound d) : Sound (.list items)
  | tuple {items : List Datum} (h : ∀ d ∈ items, Sound d) : Sound (.tuple items)
  | dict {items : List (Datum × Datum)} (hk : ∀ item ∈ items, Sound item.1)
      (hv : ∀ item ∈ items, Sound item.2) (hd : items.Pairwise fun a b => a.1.equal b.1 = false) :
      Sound (.dict items)

end Datum

theorem toInt_neg_of_ne {n : Int64} (h : n ≠ Int64.minValue) : (-n).toInt = -n.toInt := by
  have hne : n.toInt ≠ -2 ^ 63 := fun heq => h (Int64.toInt_inj.mp (heq.trans Int64.toInt_minValue.symm))
  have hlow := Int64.le_toInt n
  have hhigh := Int64.toInt_lt n
  rw [Int64.toInt_neg, Int.bmod_eq_of_le (by omega) (by omega)]

theorem nonneg_neg_of_lt {n : Int64} (h : n ≠ Int64.minValue) (hn : n < 0) : 0 ≤ -n := by
  have hlt : n.toInt < 0 := Int64.lt_iff_toInt_lt.mp hn
  refine Int64.le_iff_toInt_le.mpr ?_
  rw [toInt_neg_of_ne h]
  exact Int.neg_nonneg_of_nonpos (Int.le_of_lt hlt)

theorem intExpr_legible {n : Int64} (h : n ≠ Int64.minValue) : (intExpr n).Legible := by
  unfold intExpr
  split
  · rename_i hn
    have hnonneg : (Constant.int (-n)).Legible := nonneg_neg_of_lt h hn
    exact .unary (.constant hnonneg)
  · rename_i hn
    have hnonneg : (Constant.int n).Legible := Int64.not_lt.mp hn
    exact .constant hnonneg

/-- **A shown integer** shows its expression. -/
theorem intExpr_shows {n : Int64} (h : n ≠ Int64.minValue) :
    Shows (showInt n.toInt) ((intExpr n).spell false) := by
  unfold intExpr
  split
  · rename_i hn
    have hlt : n.toInt < 0 := Int64.lt_iff_toInt_lt.mp hn
    have hnonneg := nonneg_neg_of_lt h hn
    have hshow : showInt n.toInt = '-' :: showInt (-n).toInt := by
      rw [showInt_of_nonneg hnonneg, toInt_neg_of_ne h, Int.natAbs_neg]
      exact if_pos hlt
    rw [hshow]
    exact (Shows.digits hnonneg).negated
  · rename_i hn
    exact .digits (Int64.not_lt.mp hn)

/-- The parts of what is made of several expressions. -/
theorem spellAll_shows {α : Type} {f : α → List Char} {g : α → Expr} {as : List α}
    (h : ∀ a ∈ as, Shows (f a) ((g a).spell false)) :
    List.Forall₂ Shows (as.map f) (spellAll false (as.map g)) := by
  rw [spellAll_eq_map, List.map_map, List.forall₂_map_left_iff, List.forall₂_map_right_iff, List.forall₂_same]
  intro a ha
  rw [Function.comp_apply, Expr.spellAt_loosest]
  exact h a ha

namespace Datum

variable {d : Datum}

/-- **The expression of a sound datum** is legible. -/
theorem Sound.legible (h : d.Sound) : d.expr.Legible := by
  induction h with
  | none => exact .constant trivial
  | bool b => exact .constant trivial
  | int h => exact intExpr_legible h
  | str s => exact .constant trivial
  | bytes h => exact .constant h
  | @range start stop step hstart hstop hstep hzero =>
    refine .call (.name isName_range) ?_ nofun .nil nofun
    rw [List.forall_mem_map]
    intro n hn
    refine intExpr_legible ?_
    split at hn
    · rcases hn with _ | ⟨_, _ | ⟨_, ⟨⟩⟩⟩ <;> assumption
    · rcases hn with _ | ⟨_, _ | ⟨_, _ | ⟨_, ⟨⟩⟩⟩⟩ <;> assumption
  | list h ih =>
    refine .list ?_
    rw [exprs_eq_map, List.forall_mem_map]
    exact ih
  | tuple h ih =>
    refine .tuple ?_
    rw [exprs_eq_map, List.forall_mem_map]
    exact ih
  | dict hk hv hd ihk ihv =>
    refine .dict ?_ ?_
    · rw [pairExprs_eq_map, List.forall_mem_map]
      exact ihk
    · rw [pairExprs_eq_map, List.forall_mem_map]
      exact ihv

/-- Building a datum awaits nothing. -/
theorem expr_awaits (d : Datum) : d.expr.awaits = false := by
  have hint (n : Int64) : (intExpr n).awaits = false := by
    unfold intExpr
    split <;> rfl
  have hall {es : List Expr} (h : ∀ e ∈ es, e.awaits = false) : awaitsAny es = false := by
    induction es with
    | nil => rfl
    | cons e es ih =>
      obtain ⟨he, hes⟩ := List.forall_mem_cons.mp h
      rw [awaitsAny, he, ih hes]
      rfl
  induction d with
  | int n => exact hint n
  | range start stop step =>
    have hargs : awaitsAny ((if step = 1 then [start, stop] else [start, stop, step]).map intExpr) = false :=
      hall (List.forall_mem_map.mpr fun n _ => hint n)
    rw [expr, Expr.awaits, hargs]
    rfl
  | list items ih =>
    refine hall ?_
    rw [exprs_eq_map]
    exact List.forall_mem_map.mpr ih
  | tuple items ih =>
    refine hall ?_
    rw [exprs_eq_map]
    exact List.forall_mem_map.mpr ih
  | dict items ihk ihv =>
    rw [expr, pairExprs_eq_map, Expr.awaits]
    induction items with
    | nil => rfl
    | cons item items ih =>
      obtain ⟨hk, hks⟩ := List.forall_mem_cons.mp ihk
      obtain ⟨hv, hvs⟩ := List.forall_mem_cons.mp ihv
      rw [List.map_cons, awaitsAnyPair, hk, hv, ih hks hvs]
      rfl
  | _ => rfl

/-- **The text of a sound datum** shows the tokens of its expression. -/
theorem Sound.shows (h : d.Sound) : Shows d.text (d.expr.spell false) := by
  induction h with
  | none => exact .keyword (k := .none) (by decide)
  | bool b =>
    cases b with
    | true => exact .keyword (k := .true) (by decide)
    | false => exact .keyword (k := .false) (by decide)
  | int h => exact intExpr_shows h
  | str s => exact .text s
  | bytes h => exact .bytes h
  | @range start stop step hstart hstop hstep hzero =>
    have hends : ∀ n ∈ (if step = 1 then [start, stop] else [start, stop, step]), n ≠ Int64.minValue := by
      split <;> simp [hstart, hstop, hstep]
    have hargs := spellAll_shows fun n hn => intExpr_shows (hends n hn)
    have hparens := Shows.bracketed .openParen .closeParen (by decide) (fun _ => Shows.commas_writes hargs)
      (Shows.commas_head hargs [] (by decide))
    have htext : (Datum.range start stop step).text = "range".toList ++ (Symbol.openParen.text ++
        (commas ((if step = 1 then [start, stop] else [start, stop, step]).map (showInt ·.toInt)) ++
          Symbol.closeParen.text)) := by
      change "range(".toList ++ commas _ ++ [')'] = _
      split <;> simp [Symbol.text]
    have hspell : (Datum.range start stop step).expr.spell false = [.name "range"] ++ (sym .openParen ::
        (commaSeparated (spellAll false
          ((if step = 1 then [start, stop] else [start, stop, step]).map intExpr)) ++ [sym .closeParen])) := by
      rw [expr, Expr.spell, spellNamed, List.append_nil]
      rfl
    rw [htext, hspell]
    exact hparens.applied
  | @list items h ih =>
    have hitems : List.Forall₂ Shows (texts items) (spellAll false (exprs items)) := by
      rw [texts_eq_map, exprs_eq_map]
      exact spellAll_shows ih
    exact .bracketed .openBracket .closeBracket (by decide) (fun _ => Shows.commas_writes hitems)
      (Shows.commas_head hitems [] (by decide))
  | @tuple items h ih =>
    have hitems : List.Forall₂ Shows (texts items) (spellAll false (exprs items)) := by
      rw [texts_eq_map, exprs_eq_map]
      exact spellAll_shows ih
    exact .tuple hitems
  | @dict items hk hv hd ihk ihv =>
    have hitems : List.Forall₂ Shows (pairTexts items) (spellPairs false (pairExprs items)) := by
      rw [pairTexts_eq_map, pairExprs_eq_map, spellPairs_eq_map, List.map_map, List.forall₂_map_left_iff,
        List.forall₂_map_right_iff, List.forall₂_same]
      intro item hi
      rw [Function.comp_apply, pairTokens, Expr.spellAt_loosest, Expr.spellAt_loosest]
      exact (ihk item hi).pair (ihv item hi)
    exact .bracketed .openBrace .closeBrace (by decide) (fun _ => Shows.commas_writes hitems)
      (Shows.commas_head hitems [] (by decide))

/-- **The text of a sound datum** is the source of one statement, which builds the datum. -/
theorem Sound.statements_text (h : d.Sound) (filename : String) :
    (statements d.text filename).map (List.map Stmt.action) = .ok [.eval d.expr] := by
  have hend : Delimited [] := nofun
  obtain ⟨c, cs, htext, hc⟩ := h.shows.head
  refine statements_written h.legible (h.shows.writes hend) ?_ filename
  rw [htext]
  rintro _ ⟨⟩
  exact hc.not_inlineBlank

/-- **The text of a sound datum** compiles. -/
theorem Sound.compile_text (h : d.Sound) (filename : String) :
    ∃ line, compile d.text filename .eval false = .ok ⟨filename, .eval, false, [.mk line (.eval d.expr)]⟩ := by
  have hstatements := h.statements_text filename
  cases hbody : statements d.text filename with
  | error problem =>
    rw [hbody] at hstatements
    cases hstatements
  | ok body =>
    rw [hbody] at hstatements
    obtain ⟨s, rfl, hs⟩ := List.map_eq_singleton_iff.mp (Except.ok.inj hstatements)
    obtain ⟨line, action⟩ := s
    cases hs
    have hawaits : blockAwaits [.mk line (.eval d.expr)] = false := by
      simp [blockAwaits, Stmt.awaits, Action.awaits, d.expr_awaits]
    refine ⟨line, ?_⟩
    rw [compile, hbody]
    simp [suits, blockProblem?, Stmt.scopeProblem?, Action.scopeProblem?, Scope.module, hawaits, bind,
      Except.bind]

end Datum

end Transcript.Lang
