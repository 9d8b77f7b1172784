import Transcript.Lang.Lexer
import Transcript.Lang.Show
import Mathlib.Data.List.Basic

/-!
# Literals and their texts

Integers, texts and bytes are shown as literals that denote them: digits are read back as their number,
and each character of a shown text is one that stands for itself or an escape of it, with no quote and no
line end among them.

Results:
* `readWhole?_showInt`: an integer that is not negative is read from its digits.
* `unescape_showChars`: what is shown of a text is its escape.
* `quotedLength?_showChars`: a shown text ends with its closing quote.
* `readQuoted_showText`, `readQuoted_showBytes`: texts and ASCII bytes are read from their shown form.
-/

namespace Transcript.Lang

/-! ## Whole numbers -/

theorem digitOf_eq_of_isDigit {c : Char} (h : c.isDigit = true) : digitOf c = c.toNat - '0'.toNat := by
  unfold digitOf
  rw [if_pos h]
  rfl

theorem ne_of_isDigit {c d : Char} (h : c.isDigit = true) (hd : d.isDigit = false) : c ≠ d := by
  rintro rfl
  exact Bool.false_ne_true (hd.symm.trans h)

/-- Digits are read as the number they write. -/
theorem readBased?_ten {ds : List Char} (h : ∀ c ∈ ds, c.isDigit = true) (hne : ds ≠ []) :
    readBased? 10 ds =
      if 0x8000000000000000 ≤ Nat.ofDigitChars 10 ds 0 then none
      else some (Int64.ofNat (Nat.ofDigitChars 10 ds 0)) := by
  have hfold (n : Nat) :
      ds.foldl (fun n c => n * 10 + digitOf c) n = Nat.ofDigitChars 10 ds n := by
    rw [Nat.ofDigitChars_eq_foldl]
    refine List.foldl_ext _ _ n fun m c hc => ?_
    rw [digitOf_eq_of_isDigit (h c hc), Nat.mul_comm]
  unfold readBased?
  simp [hfold, hne]

/-- A leading zero counts for nothing. -/
theorem readWhole?_digits {ds : List Char} (h : ∀ c ∈ ds, c.isDigit = true) (hne : ds ≠ []) :
    readWhole? ds =
      if 0x8000000000000000 ≤ Nat.ofDigitChars 10 ds 0 then none
      else some (Int64.ofNat (Nat.ofDigitChars 10 ds 0)) := by
  have hfilter : ds.filter (· != '_') = ds :=
    List.filter_eq_self.mpr fun c hc => bne_iff_ne.mpr (ne_of_isDigit (h c hc) rfl)
  unfold readWhole?
  rw [hfilter]
  split
  · rename_i b digits
    have hb := h b (by simp)
    have hbase (d : Char) (hd : d.isDigit = false) : b ≠ d := ne_of_isDigit hb hd
    simp only [hbase 'x' rfl, hbase 'X' rfl, hbase 'o' rfl, hbase 'O' rfl, hbase 'b' rfl, hbase 'B' rfl,
      decide_false, Bool.or_self, Bool.false_eq_true, if_false]
    have hrest : ∀ c ∈ b :: digits, c.isDigit = true := fun c hc => h c (List.mem_cons_of_mem _ hc)
    rw [readBased?_ten hrest (List.cons_ne_nil b digits), Nat.ofDigitChars_cons (c := '0')]
    rfl
  · exact readBased?_ten h hne

theorem showInt_of_nonneg {n : Int64} (h : 0 ≤ n) : showInt n.toInt = Nat.toDigits 10 n.toInt.natAbs := by
  have hn : ¬ n.toInt < 0 := Int.not_lt.mpr (Int64.le_iff_toInt_le.mp h)
  unfold showInt
  rw [if_neg hn]

/-- **An integer is read** from its digits. -/
theorem readWhole?_showInt {n : Int64} (h : 0 ≤ n) : readWhole? (showInt n.toInt) = some n := by
  have hnonneg : 0 ≤ n.toInt := Int64.le_iff_toInt_le.mp h
  have hlt : n.toInt < 2 ^ 63 := Int64.toInt_lt n
  rw [showInt_of_nonneg h,
    readWhole?_digits (fun c hc => Nat.isDigit_of_mem_toDigits (by decide) (by decide) hc)
      Nat.toDigits_ne_nil,
    Nat.ofDigitChars_ten_toDigits, if_neg (by omega)]
  refine congrArg some (Int64.toInt_inj.mp ?_)
  rw [Int64.toInt_ofNat_of_lt (by omega)]
  omega

/-! ## Shown characters -/

/-- What stands for a character in a literal with some quotes: it ends no literal, and it denotes the
character. -/
structure Denotes (quote : Char) (text : List Char) (c : Char) : Prop where
  /-- A literal goes on after it. -/
  goesOn (s : List Char) : quotedLength? quote (text ++ s) = (quotedLength? quote s).map (· + text.length)
  /-- It is the character without its escape. -/
  denotes (s : List Char) : unescape (text ++ s) = (unescape s).map (c :: ·)

theorem isQuote_iff {c : Char} : isQuote c = true ↔ c = '\'' ∨ c = '"' := by simp [isQuote]

theorem quoteFor_isQuote (s : List Char) : isQuote (quoteFor s) = true := by
  unfold quoteFor
  split <;> rfl

/-- Two hexadecimal digits and the number they write. -/
theorem hexEscape?_hexByte {n : Nat} (h : n < 128) : hexEscape? (hexByte n) = some (Char.ofNat n) := by
  have hall : ∀ n : Fin 128, hexEscape? (hexByte n) = some (Char.ofNat n) := by decide +kernel
  exact hall ⟨n, h⟩

theorem digitChar_ordinary {n : Nat} (h : n < 16) :
    isQuote n.digitChar = false ∧ n.digitChar ≠ '\n' ∧ n.digitChar ≠ '\\' := by
  have hall : ∀ n : Fin 16, isQuote (n : Nat).digitChar = false ∧ (n : Nat).digitChar ≠ '\n' ∧
      (n : Nat).digitChar ≠ '\\' := by decide
  exact hall ⟨n, h⟩

variable {quote c : Char}

/-- An ordinary character goes on with a literal. -/
theorem quotedLength?_cons (hq : c ≠ quote) (hn : c ≠ '\n') (hb : c ≠ '\\') (s : List Char) :
    quotedLength? quote (c :: s) = (quotedLength? quote s).map (· + 1) := by
  rw [quotedLength?.eq_def]
  simp only [hq, hn, hb, if_false]

/-- A backslash takes the next character with it. -/
theorem quotedLength?_escape (hquote : isQuote quote = true) (hn : c ≠ '\n') (s : List Char) :
    quotedLength? quote ('\\' :: c :: s) = (quotedLength? quote s).map (· + 2) := by
  have hq : '\\' ≠ quote := by
    rintro rfl
    cases hquote
  rw [quotedLength?.eq_def]
  simp [hq, hn]

/-- **What is shown of a character denotes it.** -/
theorem denotes_showChar (hquote : isQuote quote = true) (c : Char) : Denotes quote (showChar quote c) c := by
  have hescape {d : Char} (hd : d ≠ '\n') (hu : ∀ s, unescape ('\\' :: d :: s) = (unescape s).map (c :: ·)) :
      Denotes quote ['\\', d] c := ⟨quotedLength?_escape hquote hd, hu⟩
  unfold showChar
  split
  · subst c
    exact hescape (by decide) fun s => rfl
  split
  · subst c
    exact hescape (by decide) fun s => rfl
  split
  · subst c
    exact hescape (by decide) fun s => rfl
  split
  · subst c
    exact hescape (by decide) fun s => rfl
  split
  · subst c
    rcases isQuote_iff.mp hquote with rfl | rfl
    · exact hescape (by decide) fun s => rfl
    · exact hescape (by decide) fun s => rfl
  rename_i hb hn hr ht hq
  split
  · rename_i hcontrol
    have hlt : c.toNat < 128 := by
      simp only [Bool.or_eq_true, decide_eq_true_eq] at hcontrol
      omega
    constructor
    · intro s
      have hdigit {n : Nat} (h : n < 16) (s : List Char) :
          quotedLength? quote (n.digitChar :: s) = (quotedLength? quote s).map (· + 1) := by
        obtain ⟨hordinary, hfeed, hback⟩ := digitChar_ordinary h
        refine quotedLength?_cons ?_ hfeed hback s
        rintro rfl
        exact Bool.false_ne_true (hordinary.symm.trans hquote)
      change quotedLength? quote ('\\' :: 'x' :: (c.toNat / 16).digitChar :: (c.toNat % 16).digitChar :: s) = _
      rw [quotedLength?_escape hquote (by decide), hdigit (by omega), hdigit (by omega)]
      cases quotedLength? quote s <;> rfl
    · intro s
      have hhex := hexEscape?_hexByte hlt
      rw [Char.ofNat_toNat] at hhex
      change unescape ('\\' :: 'x' :: (c.toNat / 16).digitChar :: (c.toNat % 16).digitChar :: s) = _
      rw [unescape]
      rw [hexByte] at hhex
      rw [hhex]
  · refine ⟨quotedLength?_cons hq hn hb, fun s => ?_⟩
    change unescape (c :: s) = _
    rw [unescape]
    exact hb

/-- The characters of a text as they are shown between quotes. -/
def showChars (quote : Char) (s : List Char) : List Char := s.flatMap (showChar quote)

/-- **A shown text ends** with its closing quote. -/
theorem quotedLength?_showChars (hquote : isQuote quote = true) (s rest : List Char) :
    quotedLength? quote (showChars quote s ++ quote :: rest) = some ((showChars quote s).length + 1) := by
  induction s with
  | nil =>
    rw [quotedLength?.eq_def]
    simp [showChars]
  | cons c s ih =>
    have hshow : showChars quote (c :: s) = showChar quote c ++ showChars quote s := List.flatMap_cons
    rw [hshow, List.append_assoc, (denotes_showChar hquote c).goesOn, ih, List.length_append]
    exact congrArg some (by dsimp only; omega)

/-- **What is shown of a text is its escape.** -/
theorem unescape_showChars (hquote : isQuote quote = true) (s : List Char) :
    unescape (showChars quote s) = .ok s := by
  induction s with
  | nil => rfl
  | cons c s ih =>
    have hshow : showChars quote (c :: s) = showChar quote c ++ showChars quote s := List.flatMap_cons
    rw [hshow, (denotes_showChar hquote c).denotes, ih]
    rfl

/-! ## Quoted literals -/

/-- A quoted literal with a prefix: its quotes, and what stands between them. -/
structure Quoted (lead : List Char) (quote : Char) (body : List Char) : Prop where
  /-- The prefix has no quotes. -/
  noQuote : ∀ c ∈ lead, isQuote c = false
  /-- It is short. -/
  short : lead.length ≤ 2
  /-- It may stand before a literal. -/
  mayLead : literalPrefixes.contains (lead.map Char.toLower) = true
  /-- The quote is one. -/
  isQuote : isQuote quote = true
  /-- The literal ends where the body does. -/
  ends (rest : List Char) : quotedLength? quote (body ++ quote :: rest) = some (body.length + 1)

namespace Quoted

variable {lead body : List Char} {quote : Char} (h : Quoted lead quote body)

include h

theorem takeWhile_lead (rest : List Char) : (lead ++ quote :: rest).takeWhile (!Lang.isQuote ·) = lead := by
  rw [List.takeWhile_append_of_pos fun c hc => by rw [h.noQuote c hc]; rfl,
    List.takeWhile_cons_of_neg (by rw [h.isQuote]; decide), List.append_nil]

/-- **A quoted literal** is as long as it is. -/
theorem literalLength?_eq (rest : List Char) :
    literalLength? (lead ++ quote :: (body ++ quote :: rest)) =
      some (lead ++ quote :: (body ++ [quote])).length := by
  have hlead : ((lead ++ quote :: (body ++ quote :: rest)).take 3).takeWhile (!Lang.isQuote ·) = lead := by
    obtain ⟨n, hn⟩ : ∃ n, 3 = lead.length + (n + 1) := ⟨2 - lead.length, by have := h.short; omega⟩
    rw [hn, List.take_length_add_append, List.take_succ_cons]
    exact h.takeWhile_lead _
  unfold literalLength?
  simp only [hlead, h.mayLead, if_true, List.drop_left, h.ends, Option.map_some]
  refine congrArg some ?_
  rw [List.length_append, List.length_cons, List.length_append, List.length_singleton]
  omega

end Quoted

/-- What stands between the quotes. -/
theorem body_quoted (lead body : List Char) (quote : Char) :
    ((lead ++ quote :: (body ++ [quote])).drop (lead.length + 1)).dropLast = body := by
  rw [← List.drop_drop, List.drop_left, List.drop_succ_cons, List.drop_zero, List.dropLast_concat]

theorem quoted_showChars {lead : List Char} (hlead : lead = [] ∨ lead = ['b']) {quote : Char}
    (hquote : isQuote quote = true) (s : List Char) : Quoted lead quote (showChars quote s) where
  noQuote := by rcases hlead with rfl | rfl <;> simp [Lang.isQuote]
  short := by rcases hlead with rfl | rfl <;> decide
  mayLead := by rcases hlead with rfl | rfl <;> decide
  isQuote := hquote
  ends := quotedLength?_showChars hquote s

/-- **A text is read** from its shown form. -/
theorem readQuoted_showText (s : List Char) : readQuoted (showText s) = .ok (.str s) := by
  have hquote := quoteFor_isQuote s
  have hquoted := quoted_showChars (.inl rfl) hquote s
  have hlead := hquoted.takeWhile_lead (showChars (quoteFor s) s ++ [quoteFor s])
  change readQuoted ([] ++ quoteFor s :: (showChars (quoteFor s) s ++ [quoteFor s])) = _
  unfold readQuoted
  simp only [hlead, body_quoted, unescape_showChars hquote]
  rfl

/-- The quote around bytes. -/
def quoteForBytes (b : List UInt8) : Char := quoteFor (b.map fun x => Char.ofNat x.toNat)

/-- ASCII bytes are shown as the text of their characters, after a prefix. -/
theorem showBytes_eq {b : List UInt8} (h : ∀ x ∈ b, x.toNat < 128) :
    showBytes b = ['b'] ++ quoteForBytes b ::
      (showChars (quoteForBytes b) (b.map fun x => Char.ofNat x.toNat) ++ [quoteForBytes b]) := by
  have hchars : b.flatMap (showByte (quoteForBytes b)) =
      showChars (quoteForBytes b) (b.map fun x => Char.ofNat x.toNat) := by
    rw [showChars, List.flatMap_map]
    refine List.flatMap_congr fun x hx => ?_
    unfold showByte
    rw [if_neg (Nat.not_le.mpr (h x hx))]
  rw [← hchars]
  rfl

theorem char_ofNat_toNat {n : Nat} (h : n < 128) : (Char.ofNat n).toNat = n := by
  have hall : ∀ n : Fin 128, (Char.ofNat n).toNat = n := by decide +kernel
  exact hall ⟨n, h⟩

/-- **ASCII bytes are read** from their shown form. -/
theorem readQuoted_showBytes {b : List UInt8} (h : ∀ x ∈ b, x.toNat < 128) :
    readQuoted (showBytes b) = .ok (.bytes b) := by
  have hquote : isQuote (quoteForBytes b) = true := quoteFor_isQuote _
  have hquoted := quoted_showChars (.inr rfl) hquote (b.map fun x => Char.ofNat x.toNat)
  have hlead := hquoted.takeWhile_lead
    (showChars (quoteForBytes b) (b.map fun x => Char.ofNat x.toNat) ++ [quoteForBytes b])
  have hascii : ((b.map fun x => Char.ofNat x.toNat).all fun c => decide (c.toNat < 128)) = true := by
    rw [List.all_map, List.all_eq_true]
    intro x hx
    simp only [Function.comp_apply, char_ofNat_toNat (h x hx), decide_eq_true_eq]
    exact h x hx
  have hvalue : ((b.map fun x => Char.ofNat x.toNat).map fun c => UInt8.ofNat c.toNat) = b := by
    rw [List.map_map]
    refine (List.map_congr_left fun x hx => ?_).trans (List.map_id b)
    rw [Function.comp_apply, char_ofNat_toNat (h x hx), UInt8.ofNat_toNat, id]
  rw [showBytes_eq h]
  unfold readQuoted
  simp only [hlead, body_quoted, unescape_showChars hquote]
  change (if (b.map fun x => Char.ofNat x.toNat).all (fun c => decide (c.toNat < 128)) = true then
    Except.ok (Token.bytes _) else _) = _
  rw [if_pos hascii, hvalue]

end Transcript.Lang
