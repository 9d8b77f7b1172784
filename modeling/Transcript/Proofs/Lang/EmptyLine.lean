import Transcript.Proofs.Lang.Lexed
import Transcript.Proofs.Lang.Written

/-!
# Lines without tokens

A lexeme lies within the text, and none but a line end and a joint goes over a line feed. So what stands before
a line feed is scanned as if the text ended there, unless it is what such a lexeme starts with, and lines are lexed
one after another.

A line of blanks, perhaps with a comment, holds no token, and it neither opens nor closes a block, wherever it
stands. So such lines may be put between any two lines of a source, unless a backslash joins these: the source
says the same, or fails for the same reason. What comes later only moves.

Results:
* `scan?_le`: a lexeme lies within the text.
* `scan?_append_feed`: what follows a line feed does not count for a lexeme before it.
* `tokensFrom_moved`: tokens and problems move with their source.
* `tokensFrom_line`: lines are lexed one after another.
* `tokensFrom_emptyLine`: a line without tokens only passes.
* `emptyLines_invisible`: lines without tokens say nothing.
-/

namespace Transcript.Lang

/-! ## Lexemes lie within the text -/

theorem exponentLength_le (s : List Char) : exponentLength s ≤ s.length := by
  unfold exponentLength
  split
  · split_ifs
    · split
      · rename_i sign digits
        have hdigits := runLength_le Char.isDigit digits
        have hrest := runLength_le Char.isDigit (sign :: digits)
        rw [List.length_cons] at hrest
        rw [List.length_cons, List.length_cons]
        dsimp only
        split_ifs <;> omega
      · exact Nat.zero_le _
    · exact Nat.zero_le _
  · exact Nat.le_refl _

theorem basedLength_le (s : List Char) : basedLength s ≤ s.length := by
  unfold basedLength
  split
  · rename_i b digits
    dsimp only
    -- The digits of any base are a run of characters.
    have hbound {n : Nat} (hn : n ≤ digits.length) : (if n = 0 then 0 else n + 1) ≤ (b :: digits).length := by
      rw [List.length_cons]
      split_ifs <;> omega
    refine hbound ?_
    split_ifs
    · exact runLength_le _ _
    · exact runLength_le _ _
    · exact runLength_le _ _
    · exact Nat.zero_le _
  · exact Nat.le_refl _

theorem scanNumber_le (first : Char) (rest : List Char) : (scanNumber first rest).2 ≤ rest.length := by
  have hbased : (if first = '0' then basedLength rest else 0) ≤ rest.length := by
    split_ifs
    · exact basedLength_le rest
    · exact Nat.zero_le _
  have hrun := runLength_le isDigitPart rest
  have hdrop : (rest.drop (runLength isDigitPart rest)).length = rest.length - runLength isDigitPart rest :=
    List.length_drop
  unfold scanNumber
  generalize (if first = '0' then basedLength rest else 0) = based at hbased ⊢
  dsimp only
  split_ifs
  · exact hbased
  · split
    · rename_i after hafter
      have hmore := runLength_le isDigitPart after
      have hexponent := exponentLength_le (after.drop (runLength isDigitPart after))
      rw [hafter, List.length_cons] at hdrop
      rw [List.length_drop] at hexponent
      dsimp only
      omega
    · have hexponent := exponentLength_le (rest.drop (runLength isDigitPart rest))
      split_ifs
      · exact hrun
      · dsimp only
        omega

theorem quotedLength?_le {quote : Char} {s : List Char} {n : Nat} (h : quotedLength? quote s = some n) :
    n ≤ s.length := by
  fun_induction quotedLength? quote s generalizing n with
  | case1 => cases h
  | case2 => cases h; simp
  | case3 => cases h
  | case4 => cases h
  | case5 => cases h
  | case6 _ _ _ _ _ ih =>
    obtain ⟨m, hm, rfl⟩ := Option.map_eq_some_iff.mp h
    exact Nat.add_le_add_right (ih hm) 2
  | case7 _ _ _ _ _ ih =>
    obtain ⟨m, hm, rfl⟩ := Option.map_eq_some_iff.mp h
    exact Nat.add_le_add_right (ih hm) 1

theorem literalLength?_le {s : List Char} {n : Nat} (h : literalLength? s = some n) : n ≤ s.length := by
  unfold literalLength? at h
  dsimp only at h
  generalize ((s.take 3).takeWhile (!isQuote ·)).length = lead at h
  split_ifs at h
  split at h
  · rename_i q rest hdrop
    obtain ⟨m, hm, rfl⟩ := Option.map_eq_some_iff.mp h
    have hlength : (s.drop lead).length = s.length - lead := List.length_drop
    have hquoted := quotedLength?_le hm
    rw [hdrop, List.length_cons] at hlength
    omega
  · cases h

theorem Symbol.scan?_prefix {s : List Char} {y : Symbol} (h : Symbol.scan? s = some y) : y.text <+: s := by
  have htake {k : Nat} (hk : Symbol.ofText? (s.take k) = some y) : y.text <+: s :=
    Symbol.ofText?_eq_some hk ▸ List.take_prefix k s
  unfold Symbol.scan? at h
  rcases Option.or_eq_some_iff.mp h with h | ⟨-, h⟩
  · exact htake h
  rcases Option.or_eq_some_iff.mp h with h | ⟨-, h⟩
  · exact htake h
  · exact htake h

/-- The lexeme of a token, as the number of characters after the first. -/
def scanToken? (c : Char) (rest : List Char) : Option (Lexeme × Nat) :=
  match literalLength? (c :: rest) with
  | some n => some (.quoted, n - 1)
  | none =>
    if isNameStart c then some (.word, runLength isNamePart rest)
    else if c.isDigit then some (scanNumber c rest)
    else if c = '.' && rest.head?.any Char.isDigit then
      some (.decimal, runLength isDigitPart rest + exponentLength (rest.drop (runLength isDigitPart rest)))
    else (Symbol.scan? (c :: rest)).map fun s => (.symbol s, s.text.length - 1)

/-- The characters that no token starts with: those of blanks, comments, line ends and joints. -/
def startsNoToken (c : Char) : Bool := isInlineBlank c || ['#', '\n', '\r', '\\'].contains c

theorem startsNoToken_iff {c : Char} :
    startsNoToken c = true ↔ isInlineBlank c = true ∨ c = '#' ∨ c = '\n' ∨ c = '\r' ∨ c = '\\' := by
  simp [startsNoToken]

theorem scan?_of_token {c : Char} (h : startsNoToken c = false) (rest : List Char) :
    scan? (c :: rest) = scanToken? c rest := by
  simp only [startsNoToken, Bool.or_eq_false_iff, List.contains_eq_mem, decide_eq_false_iff_not, List.mem_cons,
    List.not_mem_nil, or_false, not_or] at h
  obtain ⟨hblank, hhash, hfeed, hreturn, hback⟩ := h
  unfold scan? scanToken?
  dsimp only
  rw [hblank, if_neg Bool.false_ne_true, if_neg hhash, if_neg hfeed, if_neg hreturn]
  exact if_neg hback

theorem scan?_return (rest : List Char) :
    scan? ('\r' :: rest) = if ['\n'] <+: rest then some (.lineEnd, 1) else none := by
  have hblank : ¬isInlineBlank '\r' = true := by decide
  have hhash : '\r' ≠ '#' := by decide
  have hfeed : '\r' ≠ '\n' := by decide
  unfold scan?
  dsimp only
  rw [if_neg hblank, if_neg hhash, if_neg hfeed, if_pos rfl]
  split
  · rw [if_pos (by simp)]
  · rename_i hnot
    rw [if_neg]
    rintro ⟨more, rfl⟩
    exact hnot more rfl

theorem scan?_backslash (rest : List Char) :
    scan? ('\\' :: rest) = if ['\n'] <+: rest then some (.joint, 1)
      else if ['\r', '\n'] <+: rest then some (.joint, 2) else none := by
  have hblank : ¬isInlineBlank '\\' = true := by decide
  have hhash : '\\' ≠ '#' := by decide
  have hfeed : '\\' ≠ '\n' := by decide
  have hreturn : '\\' ≠ '\r' := by decide
  unfold scan?
  dsimp only
  rw [if_neg hblank, if_neg hhash, if_neg hfeed, if_neg hreturn, if_pos rfl]
  split
  · rw [if_pos (by simp)]
  · rw [if_neg (by simp), if_pos (by simp)]
  · rename_i hnoFeed hnoReturn
    rw [if_neg, if_neg]
    · rintro ⟨more, rfl⟩
      exact hnoReturn more rfl
    · rintro ⟨more, rfl⟩
      exact hnoFeed more rfl

theorem scanToken?_le {c : Char} {rest : List Char} {l : Lexeme} {n : Nat} (h : scanToken? c rest = some (l, n)) :
    n ≤ rest.length := by
  unfold scanToken? at h
  split at h
  · rename_i hliteral
    cases h
    exact Nat.sub_le_of_le_add (literalLength?_le hliteral)
  · split_ifs at h
    · cases h
      exact runLength_le _ _
    · obtain rfl : (scanNumber c rest).2 = n := congrArg Prod.snd (Option.some.inj h)
      exact scanNumber_le c rest
    · cases h
      have hrun := runLength_le isDigitPart rest
      have hexponent := exponentLength_le (rest.drop (runLength isDigitPart rest))
      rw [List.length_drop] at hexponent
      omega
    · obtain ⟨y, hy, hn⟩ := Option.map_eq_some_iff.mp h
      cases hn
      exact Nat.sub_le_of_le_add (Symbol.scan?_prefix hy).length_le

/-- **A lexeme lies within the text.** -/
theorem scan?_le {c : Char} {rest : List Char} {l : Lexeme} {n : Nat} (h : scan? (c :: rest) = some (l, n)) :
    n ≤ rest.length := by
  cases hc : startsNoToken c with
  | false =>
    rw [scan?_of_token hc] at h
    exact scanToken?_le h
  | true =>
    rcases startsNoToken_iff.mp hc with hblank | rfl | rfl | rfl | rfl
    · simp only [scan?, hblank, if_true] at h
      cases h
      exact runLength_le _ _
    · cases h
      exact runLength_le _ _
    · cases h
      exact Nat.zero_le _
    · rw [scan?_return] at h
      split_ifs at h with hfeed
      cases h
      exact hfeed.length_le
    · rw [scan?_backslash] at h
      split_ifs at h with hfeed hreturn
      · cases h
        exact hfeed.length_le
      · cases h
        exact hreturn.length_le

/-! ## Up to a line feed -/

section

variable (s rest : List Char)

theorem runLength_append_feed {p : Char → Bool} (hp : p '\n' = false) :
    runLength p (s ++ '\n' :: rest) = runLength p s := by
  unfold runLength
  rw [List.takeWhile_append]
  split_ifs with h
  · rw [List.takeWhile_cons_of_neg (by simp [hp]), List.append_nil, (List.takeWhile_prefix p).eq_of_length h]
  · rfl

theorem exponentLength_append_feed : exponentLength (s ++ '\n' :: rest) = exponentLength s := by
  have hrun (t : List Char) := runLength_append_feed t rest (p := Char.isDigit) rfl
  have hnone : runLength Char.isDigit ('\n' :: rest) = 0 := hrun []
  match s with
  | [] => rfl
  | [e] =>
    simp only [List.cons_append, List.nil_append, exponentLength]
    rw [hnone]
    simp
  | e :: sign :: digits =>
    simp only [List.cons_append, exponentLength]
    rw [hrun digits, ← List.cons_append, hrun (sign :: digits)]

theorem basedLength_append_feed : basedLength (s ++ '\n' :: rest) = basedLength s := by
  cases s with
  | nil => rfl
  | cons b digits =>
    simp only [List.cons_append, basedLength]
    rw [runLength_append_feed digits rest rfl, runLength_append_feed digits rest rfl,
      runLength_append_feed digits rest rfl]

/-- A number after its first digits, as the number of characters after the first. -/
def scanFraction (digits : Nat) : List Char → Lexeme × Nat
  | '.' :: after =>
    let more := runLength isDigitPart after
    (.decimal, digits + 1 + more + exponentLength (after.drop more))
  | after =>
    let e := exponentLength after
    if e = 0 then (.whole, digits) else (.decimal, digits + e)

theorem scanFraction_of_ne (digits : Nat) {t : List Char} (h : t.head? ≠ some '.') :
    scanFraction digits t =
      if exponentLength t = 0 then (.whole, digits) else (.decimal, digits + exponentLength t) := by
  unfold scanFraction
  split
  · exact absurd rfl h
  · rfl

theorem scanFraction_append_feed (digits : Nat) : scanFraction digits (s ++ '\n' :: rest) = scanFraction digits s := by
  by_cases h : s.head? = some '.'
  · obtain ⟨after, rfl⟩ := List.head?_eq_some_iff.mp h
    simp only [List.cons_append, scanFraction]
    rw [runLength_append_feed after rest rfl, List.drop_append_of_le_length (runLength_le _ _),
      exponentLength_append_feed]
  · have hne : (s ++ '\n' :: rest).head? ≠ some '.' := by
      cases s with
      | nil => simp
      | cons c cs => exact h
    rw [scanFraction_of_ne digits hne, scanFraction_of_ne digits h, exponentLength_append_feed]

theorem scanNumber_append_feed (first : Char) : scanNumber first (s ++ '\n' :: rest) = scanNumber first s := by
  have hfraction (t : List Char) : scanNumber first t =
      if (if first = '0' then basedLength t else 0) ≠ 0 then (.whole, if first = '0' then basedLength t else 0)
      else scanFraction (runLength isDigitPart t) (t.drop (runLength isDigitPart t)) := rfl
  rw [hfraction, hfraction, basedLength_append_feed, runLength_append_feed s rest rfl,
    List.drop_append_of_le_length (runLength_le _ _), scanFraction_append_feed]

theorem quotedLength?_append_feed {quote : Char} (hquote : isQuote quote = true) :
    quotedLength? quote (s ++ '\n' :: rest) = quotedLength? quote s := by
  have hfeed : '\n' ≠ quote := by
    rintro rfl
    cases hquote
  have hend : quotedLength? quote ('\n' :: rest) = none := by
    rw [quotedLength?.eq_def]
    simp [hfeed]
  fun_induction quotedLength? quote s with
  | case1 => exact hend
  | case2 more =>
    rw [List.cons_append, quotedLength?.eq_def]
    simp
  | case3 more =>
    rw [List.cons_append, quotedLength?.eq_def]
    simp [hfeed]
  | case4 hq hn =>
    rw [List.cons_append, List.nil_append, quotedLength?.eq_def]
    simp [hq]
  | case5 more hq hn =>
    rw [List.cons_append, List.cons_append, quotedLength?.eq_def]
    simp [hq]
  | case6 more d hd hq hn ih =>
    rw [List.cons_append, List.cons_append, quotedLength?_escape hquote hd, ih]
  | case7 d more hq hn hb ih => rw [List.cons_append, quotedLength?_cons hq hn hb, ih]

/-- A short prefix without quotes, and a quoted literal behind it. -/
theorem literalLength?_of_lead {lead : List Char} (hlead : lead.map Char.toLower ∈ literalPrefixes) {quote : Char}
    (hquote : isQuote quote = true) :
    literalLength? (lead ++ quote :: rest) = (quotedLength? quote rest).map (lead.length + 1 + ·) := by
  have hshort : lead.length ≤ 2 := by
    have hall : ∀ p ∈ literalPrefixes, p.length ≤ 2 := by decide
    simpa using hall _ hlead
  have hnone : ∀ c ∈ lead, (!isQuote c) = true := by
    intro c hc
    have hall : ∀ p ∈ literalPrefixes, p.all (!isQuote ·) = true := by decide
    rcases hq : isQuote c with _ | _
    · rfl
    · have hlower : (!isQuote c.toLower) = true := List.all_eq_true.mp (hall _ hlead) _ (List.mem_map_of_mem hc)
      rcases isQuote_iff.mp hq with rfl | rfl <;> cases hlower
  have htake : ((lead ++ quote :: rest).take 3).takeWhile (!isQuote ·) = lead := by
    obtain ⟨n, hn⟩ : ∃ n, 3 = lead.length + (n + 1) := ⟨2 - lead.length, by omega⟩
    rw [hn, List.take_length_add_append, List.take_succ_cons, List.takeWhile_append_of_pos hnone,
      List.takeWhile_cons_of_neg (by simp [hquote]), List.append_nil]
  unfold literalLength?
  simp [htake, hlead]

theorem literalLength?_append_feed : literalLength? (s ++ '\n' :: rest) = literalLength? s := by
  by_cases h : ∃ lead quote more, s = lead ++ quote :: more ∧ isQuote quote = true ∧
      lead.map Char.toLower ∈ literalPrefixes
  · obtain ⟨lead, quote, more, rfl, hquote, hlead⟩ := h
    rw [List.append_assoc, List.cons_append, literalLength?_of_lead _ hlead hquote, literalLength?_of_lead _ hlead hquote,
      quotedLength?_append_feed more rest hquote]
  · have hnone : literalLength? s = none := by
      rw [Option.eq_none_iff_forall_ne_some]
      exact fun n hn => h (quote_of_literalLength? hn)
    rw [hnone, Option.eq_none_iff_forall_ne_some]
    intro n hn
    obtain ⟨lead, quote, more, hs, hquote, hlead⟩ := quote_of_literalLength? hn
    rcases List.append_eq_append_iff.mp hs with ⟨ahead, rfl, hrest⟩ | ⟨behind, rfl, hrest⟩
    · cases ahead with
      | nil =>
        cases hrest
        cases hquote
      | cons c cs =>
        cases hrest
        have hall : ∀ p ∈ literalPrefixes, '\n' ∉ p := by decide
        exact hall _ hlead (by simp)
    · cases behind with
      | nil =>
        cases hrest
        cases hquote
      | cons c cs =>
        cases hrest
        exact h ⟨lead, quote, cs, rfl, hquote, hlead⟩

theorem Symbol.ofText?_of_feed {t : List Char} (h : '\n' ∈ t) : Symbol.ofText? t = none := by
  rw [Option.eq_none_iff_forall_ne_some]
  intro y hy
  rw [← Symbol.ofText?_eq_some hy] at h
  have hall : ∀ y : Symbol, '\n' ∉ y.text := by
    intro y
    cases y <;> decide
  exact hall y h

theorem Symbol.scan?_append_feed : Symbol.scan? (s ++ '\n' :: rest) = Symbol.scan? s := by
  match s with
  | [] => simp [Symbol.scan?, Symbol.ofText?, Symbol.all, Symbol.text]
  | [a] => simp [Symbol.scan?, Symbol.ofText?_of_feed]
  | [a, b] => simp [Symbol.scan?, Symbol.ofText?_of_feed, ← Option.or_assoc]
  | a :: b :: c :: cs => rfl

theorem scanToken?_append_feed (c : Char) : scanToken? c (s ++ '\n' :: rest) = scanToken? c s := by
  have hliteral : literalLength? (c :: (s ++ '\n' :: rest)) = literalLength? (c :: s) :=
    literalLength?_append_feed (c :: s) rest
  have hsymbol : Symbol.scan? (c :: (s ++ '\n' :: rest)) = Symbol.scan? (c :: s) :=
    Symbol.scan?_append_feed (c :: s) rest
  have hhead : (s ++ '\n' :: rest).head?.any Char.isDigit = s.head?.any Char.isDigit := by
    cases s <;> rfl
  unfold scanToken?
  rw [hliteral, hsymbol, hhead, runLength_append_feed s rest rfl, runLength_append_feed s rest rfl,
    List.drop_append_of_le_length (runLength_le _ _), exponentLength_append_feed, scanNumber_append_feed]

/-- **What follows a line feed does not count** for a lexeme before it, except where the lexeme may go over the
line feed. -/
theorem scan?_append_feed {c : Char} (h : c :: s ∉ [['\r'], ['\\'], ['\\', '\r']]) :
    scan? (c :: (s ++ '\n' :: rest)) = scan? (c :: s) := by
  cases hc : startsNoToken c with
  | false => rw [scan?_of_token hc, scan?_of_token hc, scanToken?_append_feed]
  | true =>
    rcases startsNoToken_iff.mp hc with hblank | rfl | rfl | rfl | rfl
    · have hfeed : isInlineBlank '\n' = false := rfl
      simp only [scan?, hblank, if_true, runLength_append_feed s rest hfeed]
    · have hcomment (t : List Char) : scan? ('#' :: t) = some (.comment, runLength (· != '\n') t) := rfl
      have hrun := runLength_append_feed s rest (p := (· != '\n')) rfl
      rw [hcomment, hcomment, hrun]
    · rfl
    · have hne : s ≠ [] := by
        rintro rfl
        exact h List.mem_cons_self
      rw [scan?_return, scan?_return]
      obtain ⟨d, more, rfl⟩ := List.exists_cons_of_ne_nil hne
      simp
    · rw [scan?_backslash, scan?_backslash]
      rcases s with _ | ⟨d, _ | ⟨e, more⟩⟩
      · exact absurd (by simp) h
      · have hd : '\r' ≠ d := by
          rintro rfl
          exact h (by simp)
        simp [hd]
      · simp

end

/-! ## Sources that move -/

/-- A state so many bytes and lines later. -/
def Layout.moved (bytes lines : Nat) (st : Layout) : Layout :=
  { st with byte := st.byte + bytes, line := st.line + lines }

/-- A token so many bytes and lines later. -/
def Placed.moved (bytes lines : Nat) (p : Placed) : Placed :=
  { p with start := p.start + bytes, stop := p.stop + bytes, line := p.line + lines }

section

variable (bytes lines : Nat) (st : Layout)

theorem pass_moved (text : List Char) : (st.moved bytes lines).pass text = (st.pass text).moved bytes lines := by
  simp only [Layout.pass, Layout.moved, Nat.add_right_comm]

theorem passLineEnd_moved (text : List Char) :
    (st.moved bytes lines).passLineEnd text = (st.passLineEnd text).moved bytes lines := by
  unfold Layout.passLineEnd
  rw [pass_moved]
  rfl

theorem nest_moved (l : Lexeme) : (st.moved bytes lines).nest l = (st.nest l).moved bytes lines := by
  unfold Layout.nest
  split
  · split_ifs <;> rfl
  · rfl

theorem finish_moved : (st.moved bytes lines).finish = st.finish.map (Placed.moved bytes lines) := by
  obtain ⟨indents, depth, start, column, byte, line⟩ := st
  cases start <;> simp [Layout.finish, Layout.moved, Layout.mark, Placed.moved]

/-- What a step gives so many bytes and lines later. -/
def movedStep (step : Layout × List Placed) : Layout × List Placed :=
  (step.1.moved bytes lines, step.2.map (Placed.moved bytes lines))

theorem open_moved : (st.moved bytes lines).open = st.open.map (movedStep bytes lines) := by
  have hopening := st.opening
  generalize st.open = opened at hopening ⊢
  refine Layout.Opening.open_eq ?_
  cases hopening with
  | inLine h => exact .inLine h
  | deeper h hlt => exact .deeper h hlt
  | back h hle htop =>
    simp only [Except.map, movedStep, List.map_replicate]
    exact @Layout.Opening.back (st.moved bytes lines) h hle htop
  | astray h hle htop => exact .astray h hle htop

theorem advance_moved (l : Lexeme) (text : List Char) :
    (st.moved bytes lines).advance l text = (st.advance l text).map (movedStep bytes lines) := by
  have hplace : (st.moved bytes lines).place l text = (st.place l text).map (movedStep bytes lines) := by
    unfold Layout.place
    rw [open_moved]
    cases st.open with
    | error e => rfl
    | ok opened =>
      simp only [bind, Except.bind, Except.map, movedStep]
      cases l.token text with
      | error e => rfl
      | ok t? =>
        rw [nest_moved, pass_moved]
        cases t? with
        | none => rfl
        | some t =>
          simp [Placed.moved, Layout.moved]
  cases l with
  | blanks | comment | joint =>
    simp only [Layout.advance, pass_moved]
    rfl
  | lineEnd =>
    simp only [Layout.advance, passLineEnd_moved]
    by_cases hend : (st.depth == 0 && !st.atLineStart) = true
    · rw [if_pos hend]
      exact if_pos hend
    · rw [if_neg hend]
      exact if_neg hend
  | word | decimal | whole | quoted | symbol s => exact hplace

/-- **Tokens and problems move with their source.** -/
theorem tokensFrom_moved (s : List Char) :
    tokensFrom (st.moved bytes lines) s =
      ((tokensFrom st s).map (List.map (Placed.moved bytes lines))).mapError fun e => (e.1 + bytes, e.2) := by
  fun_induction tokensFrom st s with
  | case1 st =>
    rw [tokensFrom, finish_moved]
    rfl
  | case2 st c rest hscan =>
    rw [tokensFrom, hscan]
    rfl
  | case3 st c rest l more hscan e hadvance =>
    rw [tokensFrom, hscan]
    simp only [advance_moved, hadvance]
    rfl
  | case4 st c rest l more hscan st' here hadvance e hlater ih =>
    rw [tokensFrom, hscan]
    simp only [advance_moved, hadvance]
    simp only [Except.map, movedStep, ih, hlater]
    rfl
  | case5 st c rest l more hscan st' here hadvance later hlater ih =>
    rw [tokensFrom, hscan]
    simp only [advance_moved, hadvance]
    simp only [Except.map, movedStep, ih, hlater]
    simp [Except.mapError]

end

/-! ## Lines -/

/-- A line that a backslash joins with the next one. -/
def JoinsNext (line : List Char) : Prop := ['\\'] <:+ line ∨ ['\\', '\r'] <:+ line

instance (line : List Char) : Decidable (JoinsNext line) :=
  inferInstanceAs (Decidable (['\\'] <:+ line ∨ ['\\', '\r'] <:+ line))

/-- The states at the beginning of a line: a logical line starts, or goes on in brackets. -/
def Layout.AtLine (st : Layout) : Prop := st.column = 0 ∧ (st.depth = 0 → st.atLineStart = true)

/-- A line end, with or without a carriage return. -/
theorem tokensFrom_lineEnd (st : Layout) {ending : List Char} (h : ending = ['\n'] ∨ ending = ['\r', '\n']) :
    ∃ st' ps, st'.AtLine ∧ ∀ rest, tokensFrom st (ending ++ rest) = (tokensFrom st' rest).map (ps ++ ·) := by
  have hadvance : ∃ st' ps, st'.AtLine ∧ st.advance .lineEnd ending = .ok (st', ps) := by
    by_cases hend : (st.depth == 0 && !st.atLineStart) = true
    · exact ⟨_, _, ⟨rfl, fun _ => rfl⟩, if_pos hend⟩
    · refine ⟨_, _, ⟨rfl, fun hdepth => ?_⟩, if_neg hend⟩
      have hzero : st.depth = 0 := hdepth
      show st.atLineStart = true
      simpa [hzero] using hend
  obtain ⟨st', ps, hst', hadvance⟩ := hadvance
  refine ⟨st', ps, hst', fun rest => ?_⟩
  rcases h with rfl | rfl
  · exact tokensFrom_cons rfl hadvance
  · exact tokensFrom_cons rfl hadvance

/-- A lexeme that is lexed as nothing. -/
theorem tokensFrom_error {st : Layout} {l : Lexeme} {c : Char} {cs rest : List Char} {e : LexProblem}
    (hscan : scan? (c :: (cs ++ rest)) = some (l, cs.length)) (h : st.advance l (c :: cs) = .error e) :
    tokensFrom st (c :: cs ++ rest) = .error (st.byte, e) := by
  rw [List.cons_append, tokensFrom, hscan]
  simp only [List.take_left, h]

/-- A lexeme of a line is the same before whatever comes after the line. -/
theorem scan?_in_line {c : Char} {s : List Char} (hfeed : c :: s ∉ [['\r'], ['\\'], ['\\', '\r']]) {l : Lexeme}
    {more : Nat} (hscan : scan? (c :: s) = some (l, more)) (rest : List Char) :
    c :: s ++ '\n' :: rest = c :: s.take more ++ (s.drop more ++ '\n' :: rest) ∧
    scan? (c :: (s.take more ++ (s.drop more ++ '\n' :: rest))) = some (l, (s.take more).length) := by
  have hsplit : s.take more ++ (s.drop more ++ '\n' :: rest) = s ++ '\n' :: rest := by
    rw [← List.append_assoc, List.take_append_drop]
  rw [List.cons_append, List.cons_append, hsplit, scan?_append_feed s rest hfeed, hscan, List.length_take,
    Nat.min_eq_left (scan?_le hscan)]
  exact ⟨rfl, rfl⟩

/-- **Lines are lexed one after another:** whatever comes after a line, it fails in the same way, or gives the
same tokens and leads to the same state. -/
theorem tokensFrom_line (st : Layout) (line : List Char) (h : ¬JoinsNext line) :
    (∃ e, ∀ rest, tokensFrom st (line ++ '\n' :: rest) = .error e) ∨
    ∃ st' ps, st'.AtLine ∧ ∀ rest, tokensFrom st (line ++ '\n' :: rest) = (tokensFrom st' rest).map (ps ++ ·) := by
  induction hlength : line.length using Nat.strong_induction_on generalizing st line with
  | _ n ih =>
    subst hlength
    match line with
    | [] => exact .inr (tokensFrom_lineEnd st (.inl rfl))
    | c :: s =>
      -- The carriage return of the line end is a lexeme with the line feed only.
      by_cases hreturn : c :: s = ['\r']
      · rw [hreturn]
        exact .inr (tokensFrom_lineEnd st (.inr rfl))
      have hfeed : c :: s ∉ [['\r'], ['\\'], ['\\', '\r']] := by
        simp only [List.mem_cons, List.not_mem_nil, or_false, not_or]
        exact ⟨hreturn, fun heq => h (.inl (heq ▸ List.suffix_rfl)), fun heq => h (.inr (heq ▸ List.suffix_rfl))⟩
      cases hscan : scan? (c :: s) with
      | none =>
        refine .inl ⟨(st.byte, strayProblem c), fun rest => ?_⟩
        rw [List.cons_append, tokensFrom, scan?_append_feed s rest hfeed, hscan]
      | some scanned =>
        obtain ⟨l, more⟩ := scanned
        have hsplit := scan?_in_line hfeed hscan
        cases hadvance : st.advance l (c :: s.take more) with
        | error e =>
          refine .inl ⟨(st.byte, e), fun rest => ?_⟩
          rw [(hsplit rest).1, tokensFrom_error (hsplit rest).2 hadvance]
        | ok step =>
          obtain ⟨st₁, here⟩ := step
          have hsuffix : s.drop more <:+ c :: s := (List.drop_suffix more s).trans (List.suffix_cons c s)
          have hlater : ¬JoinsNext (s.drop more) :=
            fun hjoins => h (hjoins.imp (fun hend => hend.trans hsuffix) fun hend => hend.trans hsuffix)
          have hshorter : (s.drop more).length < (c :: s).length := by
            rw [List.length_drop, List.length_cons]
            omega
          rcases ih _ hshorter st₁ (s.drop more) hlater rfl with ⟨e, he⟩ | ⟨st', ps, hst', hps⟩
          · refine .inl ⟨e, fun rest => ?_⟩
            rw [(hsplit rest).1, tokensFrom_cons (hsplit rest).2 hadvance, he]
            rfl
          · refine .inr ⟨st', here ++ ps, hst', fun rest => ?_⟩
            rw [(hsplit rest).1, tokensFrom_cons (hsplit rest).2 hadvance, hps]
            cases tokensFrom st' rest with
            | error e => rfl
            | ok later => exact congrArg Except.ok (List.append_assoc here ps later).symm

/-! ## Lines without tokens -/

/-- **A line without tokens,** with its line end: spaces and tabs, perhaps with a comment after them. -/
def IsEmptyLine (line : List Char) : Prop :=
  ∃ blanks comment ending, line = blanks ++ comment ++ ending ∧ (∀ c ∈ blanks, c = ' ' ∨ c = '\t') ∧
    (comment = [] ∨ comment.head? = some '#' ∧ '\n' ∉ comment) ∧ (ending = ['\n'] ∨ ending = ['\r', '\n'])

section

variable {st : Layout} {rest : List Char}

/-- A lexeme without tokens only leads to another state. -/
theorem tokensFrom_pass {st' : Layout} {l : Lexeme} {c : Char} {cs : List Char}
    (hscan : scan? (c :: (cs ++ rest)) = some (l, cs.length)) (h : st.advance l (c :: cs) = .ok (st', [])) :
    tokensFrom st (c :: cs ++ rest) = tokensFrom st' rest := by
  rw [tokensFrom_cons hscan h]
  cases tokensFrom st' rest <;> rfl

/-- What separates lexemes only passes. -/
theorem tokensFrom_gap {l : Lexeme} {c : Char} {cs : List Char}
    (hscan : scan? (c :: (cs ++ rest)) = some (l, cs.length)) (hl : l.isGap = true) :
    tokensFrom st (c :: cs ++ rest) = tokensFrom (st.pass (c :: cs)) rest := by
  refine tokensFrom_pass hscan ?_
  cases l with
  | blanks | comment | joint => rfl
  | _ => cases hl

theorem tokensFrom_blanks {blanks : List Char} (h : ∀ c ∈ blanks, c = ' ' ∨ c = '\t')
    (hrest : ∀ c ∈ rest.head?, isInlineBlank c = false) :
    tokensFrom st (blanks ++ rest) = tokensFrom (st.pass blanks) rest := by
  have hblank {c : Char} (hc : c = ' ' ∨ c = '\t') : isInlineBlank c = true := by
    rcases hc with rfl | rfl <;> rfl
  cases blanks with
  | nil => rfl
  | cons c blanks =>
    obtain ⟨hc, hblanks⟩ := List.forall_mem_cons.mp h
    have hall : blanks.all isInlineBlank = true := List.all_eq_true.mpr fun c hc => hblank (hblanks c hc)
    refine tokensFrom_gap (l := .blanks) ?_ rfl
    simp only [scan?, hblank hc, if_true, runLength_append hall hrest]

theorem tokensFrom_comment {comment : List Char} (h : '\n' ∉ comment) :
    tokensFrom st ('#' :: comment ++ '\n' :: rest) = tokensFrom (st.pass ('#' :: comment)) ('\n' :: rest) := by
  have hall : comment.all (· != '\n') = true := by
    refine List.all_eq_true.mpr fun c hc => ?_
    rw [bne_iff_ne]
    rintro rfl
    exact h hc
  have hend : ∀ c ∈ ('\n' :: rest).head?, (c != '\n') = false := by
    rintro c ⟨⟩
    rfl
  refine tokensFrom_gap (l := .comment) ?_ rfl
  exact congrArg (fun n => some (Lexeme.comment, n)) (runLength_append hall hend)

/-- A line end that ends no logical line only passes. -/
theorem tokensFrom_emptyEnd (st : Layout) (hst : st.depth = 0 → st.atLineStart = true) {ending : List Char}
    (h : ending = ['\n'] ∨ ending = ['\r', '\n']) :
    tokensFrom st (ending ++ rest) = tokensFrom (st.passLineEnd ending) rest := by
  have hadvance : st.advance .lineEnd ending = .ok (st.passLineEnd ending, []) := by
    refine if_neg fun hend => ?_
    rw [Bool.and_eq_true, beq_iff_eq, Bool.not_eq_true'] at hend
    exact absurd ((hst hend.1).symm.trans hend.2) (by decide)
  rcases h with rfl | rfl
  · exact tokensFrom_pass rfl hadvance
  · exact tokensFrom_pass rfl hadvance

theorem passLineEnd_append (st : Layout) (text ending : List Char) :
    (st.pass text).passLineEnd ending = st.passLineEnd (text ++ ending) := by
  simp only [Layout.passLineEnd, Layout.pass, Text.byteLength_append, List.count_append, Nat.add_assoc]

/-- **A line without tokens only passes,** wherever it stands. -/
theorem tokensFrom_emptyLine (hst : st.depth = 0 → st.atLineStart = true) {line : List Char} (h : IsEmptyLine line) :
    tokensFrom st (line ++ rest) = tokensFrom (st.passLineEnd line) rest := by
  obtain ⟨blanks, comment, ending, rfl, hblanks, hcomment, hending⟩ := h
  rw [List.append_assoc, List.append_assoc]
  rcases hcomment with rfl | ⟨hhead, hcomment⟩
  · have hrest : ∀ c ∈ (ending ++ rest).head?, isInlineBlank c = false := by
      rcases hending with rfl | rfl
      · rintro c ⟨⟩
        rfl
      · rintro c ⟨⟩
        rfl
    rw [List.nil_append, List.append_nil, tokensFrom_blanks hblanks hrest,
      tokensFrom_emptyEnd (st.pass blanks) hst hending, passLineEnd_append]
  · -- The comment takes the carriage return before the line feed with it.
    obtain ⟨text, htext, hline⟩ : ∃ text, '\n' ∉ text ∧ comment ++ ending = '#' :: text ++ ['\n'] := by
      obtain ⟨text, rfl⟩ := List.head?_eq_some_iff.mp hhead
      have htext : '\n' ∉ text := fun hmem => hcomment (List.mem_cons_of_mem '#' hmem)
      rcases hending with rfl | rfl
      · exact ⟨text, htext, rfl⟩
      · exact ⟨text ++ ['\r'], by simpa using htext, by simp⟩
    have hrest : ∀ c ∈ ('#' :: text ++ '\n' :: rest).head?, isInlineBlank c = false := by
      rintro c ⟨⟩
      rfl
    have hjoin : comment ++ (ending ++ rest) = '#' :: text ++ '\n' :: rest := by
      rw [← List.append_assoc, hline, List.append_assoc]
      rfl
    rw [hjoin, List.append_assoc blanks, hline, tokensFrom_blanks hblanks hrest, tokensFrom_comment htext]
    have hend := @tokensFrom_emptyEnd rest ((st.pass blanks).pass ('#' :: text)) hst ['\n'] (.inl rfl)
    rw [List.singleton_append] at hend
    rw [hend, passLineEnd_append, passLineEnd_append]

theorem Layout.AtLine.passLineEnd_eq (h : st.AtLine) (text : List Char) :
    st.passLineEnd text = st.moved (Text.byteLength text) (text.count '\n') := by
  unfold Layout.passLineEnd Layout.pass Layout.moved
  rw [h.1]

/-- **Lines without tokens only move what comes after them.** -/
theorem tokensFrom_emptyLines (hst : st.AtLine) {inserted : List (List Char)}
    (h : ∀ line ∈ inserted, IsEmptyLine line) (rest : List Char) :
    ∃ bytes lines, tokensFrom st (inserted.flatten ++ rest) = tokensFrom (st.moved bytes lines) rest := by
  induction inserted generalizing st with
  | nil => exact ⟨0, 0, rfl⟩
  | cons line inserted ih =>
    obtain ⟨hline, hinserted⟩ := List.forall_mem_cons.mp h
    have hmoved : (st.passLineEnd line).AtLine := ⟨rfl, hst.2⟩
    obtain ⟨bytes, lines, hrest⟩ := ih hmoved hinserted
    refine ⟨Text.byteLength line + bytes, line.count '\n' + lines, ?_⟩
    rw [List.flatten_cons, List.append_assoc, tokensFrom_emptyLine hst.2 hline, hrest, hst.passLineEnd_eq]
    simp only [Layout.moved, Nat.add_assoc]

end

/-! ## Sources -/

/-- What tokens say, wherever they stand: the tokens themselves, or why there are none. -/
def saidBy (tokens : Except (Nat × LexProblem) (List Placed)) : Except LexProblem (List Token) :=
  (tokens.map (List.map Placed.token)).mapError Prod.snd

/-- **What a source says.** -/
def said (source : List Char) : Except LexProblem (List Token) := saidBy (tokens source)

theorem saidBy_map (ps : List Placed) (tokens : Except (Nat × LexProblem) (List Placed)) :
    saidBy (tokens.map (ps ++ ·)) = (saidBy tokens).map (ps.map Placed.token ++ ·) := by
  cases tokens with
  | error e => rfl
  | ok later => exact congrArg Except.ok List.map_append

/-- **What moves says the same.** -/
theorem saidBy_moved (bytes lines : Nat) (st : Layout) (s : List Char) :
    saidBy (tokensFrom (st.moved bytes lines) s) = saidBy (tokensFrom st s) := by
  rw [tokensFrom_moved]
  cases tokensFrom st s with
  | error e => rfl
  | ok ps =>
    refine congrArg Except.ok ?_
    rw [List.map_map]
    rfl

/-- **Lines without tokens say nothing.** -/
theorem emptyLines_invisible (before after : List Char) (inserted : List (List Char)) (hbefore : ¬JoinsNext before)
    (hinserted : ∀ line ∈ inserted, IsEmptyLine line) :
    said (before ++ '\n' :: (inserted.flatten ++ after)) = said (before ++ '\n' :: after) := by
  unfold said tokens
  rcases tokensFrom_line .start before hbefore with ⟨e, he⟩ | ⟨st, ps, hst, hps⟩
  · rw [he, he]
  · obtain ⟨bytes, lines, hlines⟩ := tokensFrom_emptyLines hst hinserted after
    rw [hps, hps, saidBy_map, saidBy_map, hlines, saidBy_moved]

/-- A block that goes on with an open bracket. -/
def bracketBefore : List Char := "if x:\n  y = (1,".toList

/-- Where it closes. -/
def bracketAfter : List Char := "2)\nz".toList

/-- A deeper comment, a blank line, and a comment at the margin. -/
def bracketInserted : List (List Char) := ["\t # deep\n".toList, "\r\n".toList, "#\\\r\n".toList]

theorem emptyLines_invisible_bracket :
    said (bracketBefore ++ '\n' :: (bracketInserted.flatten ++ bracketAfter)) =
      said (bracketBefore ++ '\n' :: bracketAfter) ∧
    (said (bracketBefore ++ '\n' :: bracketAfter)).toOption =
      some [.keyword .if, .name "x", .symbol .colon, .newline, .indent, .name "y", .symbol .assign,
        .symbol .openParen, .int 1, .symbol .comma, .int 2, .symbol .closeParen, .newline, .dedent, .name "z",
        .newline, .eof] := by
  have hbefore : ¬JoinsNext bracketBefore := by decide +kernel
  refine ⟨emptyLines_invisible bracketBefore bracketAfter bracketInserted hbefore ?_, by decide +kernel⟩
  refine List.forall_mem_cons.mpr ⟨?_, List.forall_mem_cons.mpr ⟨?_, List.forall_mem_singleton.mpr ?_⟩⟩
  · have hblanks : ∀ c ∈ ['\t', ' '], c = ' ' ∨ c = '\t' := by simp
    exact ⟨['\t', ' '], "# deep".toList, ['\n'], rfl, hblanks, .inr ⟨rfl, by decide⟩, .inl rfl⟩
  · exact ⟨[], [], ['\r', '\n'], rfl, List.forall_mem_nil _, .inl rfl, .inr rfl⟩
  · exact ⟨[], "#\\".toList, ['\r', '\n'], rfl, List.forall_mem_nil _, .inr ⟨rfl, by decide⟩, .inr rfl⟩

end Transcript.Lang
