import Transcript.Proofs.Lang.Literal
import Transcript.Proofs.Lang.Spell
import Mathlib.Data.List.TakeWhile

/-!
# Tokens are scanned from their texts

A token that is no layout and no floating point number has a text. The text is scanned as one lexeme, and
the lexeme makes the token again, if what follows does not go on with it: a word or a number ends before
anything but a letter, a digit, an underscore, a point or a quote, a symbol ends before anything that makes
a longer symbol of it, and a quoted literal ends with its quote.

Results:
* `scan?_text`: the text of a token is one lexeme.
* `token_text`: the lexeme makes the token.
-/

namespace Transcript.Lang

/-! ## Texts of tokens -/

/-- The text of a token; layout has none. -/
def Token.text : Token → List Char
  | .name n => n.toList
  | .int n => showInt n.toInt
  | .str s => showText s
  | .bytes b => showBytes b
  | .keyword k => k.text.toList
  | .symbol s => s.text
  | .float _ | .newline | .indent | .dedent | .eof => []

/-- Tokens that are written as their texts. -/
def Token.Writable : Token → Prop
  | .name n => IsName n
  | .int n => 0 ≤ n
  | .bytes b => ∀ x ∈ b, x.toNat < 128
  | .str _ | .keyword _ | .symbol _ => True
  | .float _ | .newline | .indent | .dedent | .eof => False

/-- The lexeme of a token. -/
def Token.lexeme : Token → Lexeme
  | .name _ | .keyword _ => .word
  | .int _ => .whole
  | .str _ | .bytes _ => .quoted
  | .symbol s => .symbol s
  | .float _ | .newline | .indent | .dedent | .eof => .blanks

/-- What does not go on with a word or a number. -/
def EndsWord (rest : List Char) : Prop :=
  ∀ c ∈ rest.head?, isNamePart c = false ∧ c ≠ '.' ∧ isQuote c = false

/-- What does not go on with a symbol. -/
def EndsSymbol (s : Symbol) (rest : List Char) : Prop :=
  ∀ c ∈ rest.head?, c ∉ ['=', '>', '*', '/'] ∧ (s = .dot → c.isDigit = false)

/-- **What does not go on with a token.** -/
def Token.EndsAt (rest : List Char) : Token → Prop
  | .name _ | .keyword _ | .int _ => EndsWord rest
  | .symbol s => EndsSymbol s rest
  | _ => True

/-! ## Words -/

/-- A word. -/
def IsWord (w : List Char) : Prop := ∃ c cs, w = c :: cs ∧ isNameStart c = true ∧ cs.all isNamePart = true

theorem runLength_append {p : Char → Bool} {cs rest : List Char} (hcs : cs.all p = true)
    (hrest : ∀ c ∈ rest.head?, p c = false) : runLength p (cs ++ rest) = cs.length := by
  unfold runLength
  rw [List.takeWhile_append_of_pos (List.all_eq_true.mp hcs)]
  cases rest with
  | nil => simp
  | cons c rest => simp [hrest c rfl]

theorem Keyword.isWord (k : Keyword) : IsWord k.text.toList := by
  cases k <;> exact ⟨_, _, rfl, by decide, by decide⟩

/-- **What a quoted literal starts with:** a prefix and a quote. -/
theorem quote_of_literalLength? {s : List Char} {n : Nat} (h : literalLength? s = some n) :
    ∃ lead q rest, s = lead ++ q :: rest ∧ isQuote q = true ∧ lead.map Char.toLower ∈ literalPrefixes := by
  unfold literalLength? at h
  simp only [List.contains_eq_mem, decide_eq_true_eq] at h
  split at h
  · rename_i hlead
    split at h
    · rename_i q rest hdrop
      generalize hw : (s.take 3).takeWhile (!isQuote ·) = lead at hlead hdrop
      have hshort : lead.length ≤ 2 := by
        have hall : ∀ p ∈ literalPrefixes, p.length ≤ 2 := by decide
        simpa using hall _ hlead
      have hprefix : lead <+: s := hw ▸ (List.takeWhile_prefix _).trans (List.take_prefix _ _)
      have hs : s = lead ++ q :: rest := by
        rw [← hdrop, List.prefix_iff_eq_append.mp hprefix]
      refine ⟨lead, q, rest, hs, ?_, hlead⟩
      -- The prefix is cut off after three characters, but it is shorter than that.
      have htake : s.take 3 = lead ++ q :: rest.take (2 - lead.length) := by
        obtain ⟨m, hm⟩ : ∃ m, 3 = lead.length + (m + 1) := ⟨2 - lead.length, by omega⟩
        rw [hs, hm, List.take_length_add_append, List.take_succ_cons]
        congr 3
        omega
      have hnone : (q :: rest.take (2 - lead.length)).takeWhile (!isQuote ·) = [] := by
        have hnot : ∀ c ∈ lead, (!isQuote c) = true := by
          rw [← hw]
          exact fun c hc => List.mem_takeWhile_imp (p := (!isQuote ·)) hc
        have happend := hw
        rw [htake, List.takeWhile_append_of_pos hnot] at happend
        exact List.append_right_eq_self.mp happend
      by_contra hq
      rw [List.takeWhile_cons_of_pos (by simpa using hq)] at hnone
      exact List.cons_ne_nil _ _ hnone
    · cases h
  · cases h

/-- What starts neither with a quote nor with a prefix is no quoted literal. -/
theorem literalLength?_of_head {c : Char} (hq : isQuote c = false) (hc : c.toLower ∉ ['u', 'r', 'b'])
    (rest : List Char) : literalLength? (c :: rest) = none := by
  rw [Option.eq_none_iff_forall_ne_some]
  intro n hn
  obtain ⟨lead, q, rest', hs, hquote, hlead⟩ := quote_of_literalLength? hn
  cases lead with
  | nil =>
    cases hs
    exact Bool.false_ne_true (hq.symm.trans hquote)
  | cons d lead =>
    cases hs
    have hall : ∀ p ∈ literalPrefixes, ∀ x ∈ p.head?, x ∈ ['u', 'r', 'b'] := by simp [literalPrefixes]
    exact hc (hall _ hlead _ rfl)

theorem isNamePart_of_toLower {c : Char} (h : c.toLower ∈ ['u', 'r', 'b']) : isNamePart c = true := by
  by_cases hupper : c.isUpper = true
  · have hletter : c.isAlpha = true := (Bool.or_eq_true _ _).mpr (.inl hupper)
    simp [isNamePart, Char.isAlphanum, hletter]
  · have hsame : c.toLower = c := dif_neg fun hbetween => hupper (decide_eq_true hbetween)
    rw [hsame] at h
    rcases List.mem_cons.mp h with rfl | h
    · rfl
    rcases List.mem_cons.mp h with rfl | h
    · rfl
    · cases List.mem_singleton.mp h
      rfl

/-- A word is no quoted literal, if no quote follows it. -/
theorem literalLength?_word {w rest : List Char} (hw : w.all isNamePart = true)
    (hrest : EndsWord rest) : literalLength? (w ++ rest) = none := by
  rw [Option.eq_none_iff_forall_ne_some]
  intro n hn
  obtain ⟨lead, q, rest', hs, hquote, hlead⟩ := quote_of_literalLength? hn
  have hpart : lead.all isNamePart = true := by
    rw [List.all_eq_true]
    intro c hc
    have hall : ∀ p ∈ literalPrefixes, ∀ x ∈ p, x ∈ ['u', 'r', 'b'] := by simp [literalPrefixes]
    exact isNamePart_of_toLower (hall _ hlead _ (List.mem_map_of_mem hc))
  have hqpart : isNamePart q = false := by
    rcases isQuote_iff.mp hquote with rfl | rfl <;> rfl
  have hlength : w.length = lead.length := by
    rw [← runLength_append hw fun c hc => (hrest c hc).1, hs,
      runLength_append hpart (by rintro c ⟨⟩; exact hqpart)]
  obtain ⟨-, rfl⟩ := List.append_inj hs hlength
  exact Bool.false_ne_true ((hrest q rfl).2.2.symm.trans hquote)

theorem isNamePart_of_isNameStart {c : Char} (h : isNameStart c = true) : isNamePart c = true := by
  simp only [isNameStart, isNamePart, Char.isAlphanum, Bool.or_eq_true] at h ⊢
  tauto

/-- **A word is scanned** up to its end. -/
theorem scan?_word {c : Char} {cs rest : List Char} (hc : isNameStart c = true)
    (hcs : cs.all isNamePart = true) (hrest : EndsWord rest) :
    scan? (c :: (cs ++ rest)) = some (.word, cs.length) := by
  have hpart : isNamePart c = true := isNamePart_of_isNameStart hc
  have hne (d : Char) (hd : isNameStart d = false) : c ≠ d := by
    rintro rfl
    exact Bool.false_ne_true (hd.symm.trans hc)
  have hword : (c :: cs).all isNamePart = true := by rw [List.all_cons, hpart, hcs]; rfl
  have hliteral : literalLength? (c :: (cs ++ rest)) = none := literalLength?_word hword hrest
  have hblank : isInlineBlank c = false := by
    simp [isInlineBlank, hne ' ' rfl, hne '\t' rfl, hne '\x0c' rfl]
  have hrun : runLength isNamePart (cs ++ rest) = cs.length :=
    runLength_append hcs fun d hd => (hrest d hd).1
  unfold scan?
  simp only [hblank, hne '#' rfl, hne '\n' rfl, hne '\r' rfl, hne '\\' rfl, hliteral, hc, hrun, if_true,
    if_false, Bool.false_eq_true]

/-! ## Numbers -/

theorem isNamePart_of_isDigit {c : Char} (h : c.isDigit = true) : isNamePart c = true := by
  simp [isNamePart, Char.isAlphanum, h]

theorem isNameStart_of_isDigit {c : Char} (h : c.isDigit = true) : isNameStart c = false := by
  have hne : c ≠ '_' := ne_of_isDigit h rfl
  simp only [Char.isDigit, Bool.and_eq_true, decide_eq_true_eq, ge_iff_le, UInt32.le_iff_toNat_le,
    Char.reduceVal, UInt32.reduceToNat] at h
  have hletter : c.isAlpha =
      (decide (c.val ≥ 'A'.val ∧ c.val ≤ 'Z'.val) || (decide (c.val ≥ 'a'.val) && decide (c.val ≤ 'z'.val))) := rfl
  simp only [isNameStart, hletter, Bool.or_eq_false_iff, Bool.and_eq_false_iff, decide_eq_false_iff_not,
    beq_eq_false_iff_ne, ge_iff_le, UInt32.le_iff_toNat_le, Char.reduceVal, UInt32.reduceToNat]
  exact ⟨⟨by omega, by omega⟩, hne⟩

/-- Nothing that a number is followed by makes an exponent. -/
theorem exponentLength_of_endsWord {rest : List Char} (h : EndsWord rest) : exponentLength rest = 0 := by
  cases rest with
  | nil => rfl
  | cons c rest =>
    have hne (d : Char) (hd : isNamePart d = true) : c ≠ d := by
      rintro rfl
      exact Bool.false_ne_true ((h c rfl).1.symm.trans hd)
    unfold exponentLength
    simp [hne 'e' rfl, hne 'E' rfl]

/-- Nothing that follows a leading zero is a base, be it a digit or the end. -/
theorem basedLength_of_head {s : List Char} (h : ∀ c ∈ s.head?, c.isDigit = true ∨ isNamePart c = false) :
    basedLength s = 0 := by
  cases s with
  | nil => rfl
  | cons c s =>
    have hne (d : Char) (hd : d.isDigit = false) (hd' : isNamePart d = true) : c ≠ d := by
      rintro rfl
      rcases h c rfl with hc | hc
      · exact Bool.false_ne_true (hd.symm.trans hc)
      · exact Bool.false_ne_true (hc.symm.trans hd')
    unfold basedLength
    simp [hne 'x' rfl rfl, hne 'X' rfl rfl, hne 'o' rfl rfl, hne 'O' rfl rfl, hne 'b' rfl rfl,
      hne 'B' rfl rfl]

/-- **Digits are scanned** up to their end. -/
theorem scan?_digits {c : Char} {cs rest : List Char} (h : ∀ d ∈ c :: cs, d.isDigit = true)
    (hrest : EndsWord rest) : scan? (c :: (cs ++ rest)) = some (.whole, cs.length) := by
  have hc : c.isDigit = true := h c List.mem_cons_self
  have hne (d : Char) (hd : d.isDigit = false) : c ≠ d := ne_of_isDigit hc hd
  have hblank : isInlineBlank c = false := by
    simp [isInlineBlank, hne ' ' rfl, hne '\t' rfl, hne '\x0c' rfl]
  have hword : (c :: cs).all isNamePart = true :=
    List.all_eq_true.mpr fun d hd => isNamePart_of_isDigit (h d hd)
  have hliteral : literalLength? (c :: (cs ++ rest)) = none := literalLength?_word hword hrest
  have hstart : isNameStart c = false := isNameStart_of_isDigit hc
  have hrun : runLength isDigitPart (cs ++ rest) = cs.length := by
    refine runLength_append ?_ fun d hd => ?_
    · rw [List.all_eq_true]
      intro d hd
      simp [isDigitPart, h d (List.mem_cons_of_mem c hd)]
    · have hpart := (hrest d hd).1
      simp only [isNamePart, isDigitPart, Char.isAlphanum, Bool.or_eq_false_iff] at hpart ⊢
      exact ⟨hpart.1.2, hpart.2⟩
  have hbased : basedLength (cs ++ rest) = 0 := by
    refine basedLength_of_head ?_
    cases cs with
    | nil => exact fun d hd => .inr (hrest d hd).1
    | cons d cs =>
      rintro _ ⟨⟩
      exact .inl (h d (by simp))
  have hnumber : scanNumber c (cs ++ rest) = (.whole, cs.length) := by
    unfold scanNumber
    simp only [hbased, hrun, List.drop_left, ite_self, ne_eq, not_true, if_false]
    split
    · exact absurd rfl (hrest '.' rfl).2.1
    · rw [exponentLength_of_endsWord hrest, if_pos rfl]
  unfold scan?
  simp only [hblank, hne '#' rfl, hne '\n' rfl, hne '\r' rfl, hne '\\' rfl, hliteral, hstart, hc, hnumber,
    if_true, if_false, Bool.false_eq_true]

/-! ## Symbols -/

theorem Symbol.ofText?_eq_some {s : Symbol} {t : List Char} (h : Symbol.ofText? t = some s) : s.text = t := by
  have hfound := List.find?_some h
  exact beq_iff_eq.mp hfound

/-- A longer symbol goes on with an equals sign, a greater sign, a star or a slash. -/
theorem Symbol.longer (s s' : Symbol) (c : Char) (cs : List Char) (h : s'.text = s.text ++ c :: cs) :
    c ∈ ['=', '>', '*', '/'] := by
  have hall : ∀ s s' : Symbol, s.text <+: s'.text →
      (s'.text.drop s.text.length).head?.all (['=', '>', '*', '/'].contains ·) = true := by
    intro s s'
    cases s <;> cases s' <;> decide
  have hlonger := hall s s' (h ▸ List.prefix_append _ _)
  rw [h, List.drop_left] at hlonger
  exact List.contains_iff_mem.mp hlonger

/-- **A symbol is scanned** up to its end. -/
theorem Symbol.scan?_text {s : Symbol} {rest : List Char} (hrest : EndsSymbol s rest) :
    Symbol.scan? (s.text ++ rest) = some s := by
  have hpart (k : Nat) : Symbol.ofText? (s.text ++ rest.take k) = none ∨
      Symbol.ofText? (s.text ++ rest.take k) = some s := by
    cases htake : rest.take k with
    | nil =>
      rw [List.append_nil]
      exact .inr (Symbol.ofText?_text s)
    | cons c cs =>
      refine .inl (Option.eq_none_iff_forall_ne_some.mpr fun s' hs' => ?_)
      have hc : c ∈ rest.head? := by
        cases rest with
        | nil => cases k <;> cases htake
        | cons d rest =>
          cases k with
          | zero => cases htake
          | succ k => cases htake; rfl
      exact (hrest c hc).1 (Symbol.longer s s' c cs (Symbol.ofText?_eq_some hs'))
  have htake (n k : Nat) (hn : n = s.text.length + k) :
      (s.text ++ rest).take n = s.text ++ rest.take k := by rw [hn, List.take_length_add_append]
  have hexact : Symbol.ofText? (s.text ++ rest.take 0) = some s := by
    rw [List.take_zero, List.append_nil, Symbol.ofText?_text]
  have hlength : s.text.length = 1 ∨ s.text.length = 2 ∨ s.text.length = 3 := by
    cases s <;> simp [Symbol.text]
  unfold Symbol.scan?
  rcases hlength with hlength | hlength | hlength
  · rw [htake 3 2 (by omega), htake 2 1 (by omega), htake 1 0 (by omega), hexact]
    rcases hpart 2 with htwo | htwo <;> rcases hpart 1 with hone | hone <;> rw [htwo, hone] <;> rfl
  · rw [htake 3 1 (by omega), htake 2 0 (by omega), hexact]
    rcases hpart 1 with hone | hone <;> rw [hone] <;> rfl
  · rw [htake 3 0 (by omega), hexact]
    rfl

/-- What a symbol starts with starts no other lexeme, but for a point before digits. -/
theorem Symbol.text_head (s : Symbol) : ∃ c cs, s.text = c :: cs ∧ isInlineBlank c = false ∧
    c ∉ ['#', '\n', '\r', '\\'] ∧ isQuote c = false ∧ isNamePart c = false ∧
    (c = '.' → s = .dot ∧ cs = []) := by
  cases s <;> exact ⟨_, _, rfl, by decide, by decide, by decide, by decide, by decide⟩

theorem scan?_symbol {s : Symbol} {c : Char} {cs rest : List Char} (hs : s.text = c :: cs)
    (hrest : EndsSymbol s rest) : scan? (c :: (cs ++ rest)) = some (.symbol s, cs.length) := by
  obtain ⟨c', cs', hs', hblank, hother, hquote, hpart, hdot⟩ := s.text_head
  obtain ⟨rfl, rfl⟩ := List.cons.inj (hs.symm.trans hs')
  have hscan : Symbol.scan? (c :: (cs ++ rest)) = some s := by
    rw [← List.cons_append, ← hs]
    exact Symbol.scan?_text hrest
  simp only [List.mem_cons, List.not_mem_nil, or_false, not_or] at hother
  obtain ⟨hhash, hfeed, hreturn, hback⟩ := hother
  have hlower : c.toLower ∉ ['u', 'r', 'b'] := fun h =>
    Bool.false_ne_true (hpart.symm.trans (isNamePart_of_toLower h))
  have hliteral := literalLength?_of_head hquote hlower (cs ++ rest)
  have hstart : isNameStart c = false ∧ c.isDigit = false := by
    simp only [isNamePart, isNameStart, Char.isAlphanum, Bool.or_eq_false_iff] at hpart ⊢
    exact ⟨⟨hpart.1.1, hpart.2⟩, hpart.1.2⟩
  have hnumber : (decide (c = '.') && (cs ++ rest).head?.any Char.isDigit) = false := by
    by_cases hc : c = '.'
    · obtain ⟨rfl, rfl⟩ := hdot hc
      cases hhead : rest.head? with
      | none => simp [hhead]
      | some d => simp [hhead, (hrest d hhead).2 rfl]
    · simp [hc]
  unfold scan?
  simp only [hblank, hhash, hfeed, hreturn, hback, hliteral, hstart.1, hstart.2, hnumber, hscan, if_false,
    Bool.false_eq_true, Option.map_some, hs, List.length_cons, Nat.add_sub_cancel]

/-! ## Tokens -/

theorem scan?_quoted {lead body rest : List Char} {quote c : Char} {cs : List Char}
    (h : Quoted lead quote body) (hlead : lead = [] ∨ lead = ['b'])
    (hs : lead ++ quote :: (body ++ [quote]) = c :: cs) :
    scan? (c :: (cs ++ rest)) = some (.quoted, cs.length) := by
  have hfirst : c ∉ [' ', '\t', '\x0c', '#', '\n', '\r', '\\'] := by
    rcases hlead with rfl | rfl
    · obtain ⟨rfl, -⟩ := List.cons.inj hs
      rcases isQuote_iff.mp h.isQuote with rfl | rfl <;> decide
    · obtain ⟨rfl, -⟩ := List.cons.inj hs
      decide
  have hliteral : literalLength? (c :: (cs ++ rest)) = some (cs.length + 1) := by
    have hlength := h.literalLength?_eq rest
    rw [hs] at hlength
    refine Eq.trans (congrArg literalLength? ?_) hlength
    rw [← List.cons_append, ← hs]
    simp
  simp only [List.mem_cons, List.not_mem_nil, or_false, not_or] at hfirst
  obtain ⟨hspace, htab, hform, hhash, hfeed, hreturn, hback⟩ := hfirst
  unfold scan?
  simp [isInlineBlank, hspace, htab, hform, hhash, hfeed, hreturn, hback, hliteral]

/-- **The text of a token is one lexeme,** if what follows does not go on with it. -/
theorem scan?_text {t : Token} {rest : List Char} (ht : t.Writable) (hrest : t.EndsAt rest) :
    ∃ c cs, t.text = c :: cs ∧ scan? (c :: (cs ++ rest)) = some (t.lexeme, cs.length) := by
  cases t with
  | name n =>
    obtain ⟨⟨c, cs, hn, hc, hcs⟩, -⟩ := ht
    exact ⟨c, cs, hn, scan?_word hc hcs hrest⟩
  | keyword k =>
    obtain ⟨c, cs, hk, hc, hcs⟩ := k.isWord
    exact ⟨c, cs, hk, scan?_word hc hcs hrest⟩
  | int n =>
    obtain ⟨c, cs, hdigits⟩ := List.exists_cons_of_ne_nil (Nat.toDigits_ne_nil (n := n.toInt.natAbs) (b := 10))
    have hall : ∀ d ∈ c :: cs, d.isDigit = true := fun d hd =>
      Nat.isDigit_of_mem_toDigits (by decide) (by decide) (hdigits ▸ hd)
    exact ⟨c, cs, (showInt_of_nonneg ht).trans hdigits, scan?_digits hall hrest⟩
  | str s =>
    have hquoted := quoted_showChars (.inl rfl) (quoteFor_isQuote s) s
    exact ⟨_, _, rfl, scan?_quoted hquoted (.inl rfl) rfl⟩
  | bytes b =>
    have hquote : isQuote (quoteForBytes b) = true := quoteFor_isQuote _
    have hquoted := quoted_showChars (.inr rfl) hquote (b.map fun x => Char.ofNat x.toNat)
    exact ⟨_, _, showBytes_eq ht, scan?_quoted hquoted (.inr rfl) rfl⟩
  | symbol s =>
    obtain ⟨c, cs, hs, -⟩ := s.text_head
    exact ⟨c, cs, hs, scan?_symbol hs hrest⟩
  | _ => cases ht

/-- **The lexeme of a token makes the token.** -/
theorem token_text {t : Token} (ht : t.Writable) : t.lexeme.token t.text = .ok (some t) := by
  cases t with
  | name n =>
    have hname : Keyword.ofText? n = none := ht.2
    simp [Token.lexeme, Token.text, Lexeme.token, hname]
  | keyword k =>
    simp [Token.lexeme, Token.text, Lexeme.token, Keyword.ofText?_text]
  | int n =>
    simp [Token.lexeme, Token.text, Lexeme.token, readWhole?_showInt ht]
  | str s =>
    simp [Token.lexeme, Token.text, Lexeme.token, readQuoted_showText]
    rfl
  | bytes b =>
    simp [Token.lexeme, Token.text, Lexeme.token, readQuoted_showBytes ht]
    rfl
  | symbol s => rfl
  | _ => cases ht

end Transcript.Lang
