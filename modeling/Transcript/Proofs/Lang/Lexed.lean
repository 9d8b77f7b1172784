import Transcript.Proofs.Lang.Scan

/-!
# What sources are lexed as

The first token of a logical line opens a block, closes some, or closes none; or the line returns to no block
around it. All other lexemes leave the blocks alone: blanks, comments and joints only pass, a line end ends a
logical line unless there is none or a bracket is open, and a token inside a line stands for itself.

The tokens of a source are layout, floating point numbers, or tokens with texts: words are names where
they are no keywords, whole numbers are not negative, and bytes are ASCII. A deeper line holds a token,
because its layout is made when its first token is read.

Results:
* `Layout.opening`: what comes before a token.
* `Layout.step_of_advance`: what one lexeme does.
* `Lexeme.token_isReal`: the token of a scanned lexeme has a text, or is a floating point number.
* `tokens_lexed`: a source without floating point numbers is lexed as tokens with texts, and layout.
-/

namespace Transcript.Lang

/-! ## Layout before a token -/

/-- The blocks that stay open around a line that is not deeper. -/
def Layout.around (st : Layout) : List Nat := (closeBlocks st.column st.indents).1

/-- How many blocks close before a line that is not deeper. -/
def Layout.closed (st : Layout) : Nat := (closeBlocks st.column st.indents).2

/-- The state in a line with these blocks around it. -/
def Layout.within (st : Layout) (indents : List Nat) : Layout := { st with indents := indents, atLineStart := false }

/-- **What comes before a token.** -/
inductive Layout.Opening (st : Layout) : Except LexProblem (Layout × List Placed) → Prop
  /-- Inside a line, nothing. -/
  | inLine (h : ¬(st.atLineStart = true ∧ st.depth = 0)) : Opening st (.ok (st, []))
  /-- A deeper line opens a block. -/
  | deeper (h : st.atLineStart = true ∧ st.depth = 0) (hlt : st.current < st.column) :
    Opening st (.ok (st.within (st.column :: st.indents), [st.mark .indent]))
  /-- Another line closes the blocks that are deeper. -/
  | back (h : st.atLineStart = true ∧ st.depth = 0) (hle : st.column ≤ st.current)
    (htop : st.around.head?.getD 0 = st.column) :
    Opening st (.ok (st.within st.around, List.replicate st.closed (st.mark .dedent)))
  /-- It has to return to a block around it. -/
  | astray (h : st.atLineStart = true ∧ st.depth = 0) (hle : st.column ≤ st.current)
    (htop : st.around.head?.getD 0 ≠ st.column) : Opening st (.error .badDedent)

/-- Nothing else comes before a token. -/
theorem Layout.Opening.open_eq {st : Layout} {r : Except LexProblem (Layout × List Placed)} (h : st.Opening r) :
    st.open = r := by
  have hstart (h : st.atLineStart = true ∧ st.depth = 0) : (!(st.atLineStart && st.depth == 0)) = false := by
    rw [h.1, h.2]
    rfl
  unfold Layout.open
  cases h with
  | inLine h =>
    have hline : (!(st.atLineStart && st.depth == 0)) = true := by
      rw [Bool.not_eq_true', Bool.eq_false_iff]
      intro hboth
      rw [Bool.and_eq_true, beq_iff_eq] at hboth
      exact h hboth
    rw [hline]
    exact if_pos rfl
  | deeper h hlt =>
    rw [hstart h, if_neg Bool.false_ne_true]
    exact if_pos hlt
  | back h hle htop =>
    rw [hstart h, if_neg Bool.false_ne_true]
    exact (if_neg (Nat.not_lt.mpr hle)).trans (if_pos htop)
  | astray h hle htop =>
    rw [hstart h, if_neg Bool.false_ne_true]
    exact (if_neg (Nat.not_lt.mpr hle)).trans (if_neg htop)

theorem Layout.opening (st : Layout) : st.Opening st.open := by
  have hcases : ∃ r, st.Opening r := by
    by_cases h : st.atLineStart = true ∧ st.depth = 0
    · rcases Nat.lt_or_ge st.current st.column with hlt | hle
      · exact ⟨_, .deeper h hlt⟩
      · by_cases htop : st.around.head?.getD 0 = st.column
        · exact ⟨_, .back h hle htop⟩
        · exact ⟨_, .astray h hle htop⟩
    · exact ⟨_, .inLine h⟩
  obtain ⟨r, h⟩ := hcases
  rw [h.open_eq]
  exact h

/-! ## One lexeme -/

/-- Whether a lexeme only separates others: blanks, a comment, or a joint. -/
def Lexeme.isGap : Lexeme → Bool
  | .blanks | .comment | .joint => true
  | _ => false

/-- **What one lexeme does:** the state after it, and the tokens that it gives. -/
inductive Layout.Step (st : Layout) (l : Lexeme) (text : List Char) : Layout → List Placed → Prop
  /-- What separates lexemes only passes. -/
  | gap (hl : l.isGap = true) : Step st l text (st.pass text) []
  /-- A line end ends the logical line. -/
  | lineEnd (hl : l = .lineEnd) (hdepth : st.depth = 0) (hstart : st.atLineStart = false) :
    Step st l text { st.passLineEnd text with atLineStart := true }
      [⟨.newline, st.byte, (st.passLineEnd text).byte, st.line⟩]
  /-- It does not if there is none, or if it goes on in brackets. -/
  | emptyLine (hl : l = .lineEnd) (h : st.depth = 0 → st.atLineStart = true) :
    Step st l text (st.passLineEnd text) []
  /-- A token comes after its layout. -/
  | token {st₁ : Layout} {layout : List Placed} {t : Token} (hopen : st.Opening (.ok (st₁, layout)))
    (ht : l.token text = .ok (some t)) :
    Step st l text ((st₁.nest l).pass text)
      (layout ++ [⟨t, st₁.byte, ((st₁.nest l).pass text).byte, st₁.line⟩])

/-- What a lexeme gives that stands in a line: the layout before it, and its token if it has one. -/
def Layout.place (st : Layout) (l : Lexeme) (text : List Char) : Except LexProblem (Layout × List Placed) := do
  let (st, layout) ← st.open
  let after := (st.nest l).pass text
  match ← l.token text with
  | some t => .ok (after, layout ++ [⟨t, st.byte, after.byte, st.line⟩])
  | none => .ok (after, layout)

/-- A lexeme with a token stands after the layout before it. -/
theorem Layout.step_of_place {st st' : Layout} {l : Lexeme} {text : List Char} {here : List Placed}
    (h : st.place l text = .ok (st', here)) (hsome : l.token text ≠ .ok none) : st.Step l text st' here := by
  have hopening := st.opening
  unfold Layout.place at h
  cases hopen : st.open with
  | error e =>
    rw [hopen] at h
    cases h
  | ok opened =>
    rw [hopen] at h hopening
    simp only [bind, Except.bind] at h
    cases ht : l.token text with
    | error e =>
      rw [ht] at h
      cases h
    | ok t? =>
      rw [ht] at h
      cases t? with
      | none => exact absurd ht hsome
      | some t =>
        cases h
        exact .token hopening ht

/-- **What one lexeme does.** -/
theorem Layout.step_of_advance {st st' : Layout} {l : Lexeme} {text : List Char} {here : List Placed}
    (h : st.advance l text = .ok (st', here)) : st.Step l text st' here := by
  cases l with
  | blanks | comment | joint =>
    cases h
    exact .gap rfl
  | lineEnd =>
    simp only [Layout.advance] at h
    split at h
    · rename_i hend
      rw [Bool.and_eq_true, beq_iff_eq, Bool.not_eq_true'] at hend
      cases h
      exact .lineEnd rfl hend.1 hend.2
    · rename_i hend
      cases h
      refine .emptyLine rfl fun hdepth => ?_
      simpa [hdepth] using hend
  | word => exact step_of_place h (by simp only [Lexeme.token]; split <;> simp)
  | decimal => exact step_of_place h (by simp only [Lexeme.token]; split <;> simp)
  | whole => exact step_of_place h (by simp only [Lexeme.token]; split <;> simp)
  | quoted => exact step_of_place h (by simp only [Lexeme.token]; cases readQuoted text <;> simp [Except.map])
  | symbol s => exact step_of_place h (by simp [Lexeme.token])

/-! ## Tokens of lexemes -/

/-- A token that has a text, or is a floating point number. -/
def Token.IsReal (t : Token) : Prop := t.Writable ∨ ∃ d, t = .float d

theorem int64_ofNat_nonneg {n : Nat} (h : n < 0x8000000000000000) : 0 ≤ Int64.ofNat n := by
  refine Int64.le_iff_toInt_le.mpr ?_
  rw [Int64.toInt_ofNat_of_lt h]
  exact Int.natCast_nonneg n

/-- Whole numbers are not negative. -/
theorem nonneg_of_readWhole? {s : List Char} {n : Int64} (h : readWhole? s = some n) : 0 ≤ n := by
  have hbased {base : Nat} {digits : List Char} (h : readBased? base digits = some n) : 0 ≤ n := by
    simp only [readBased?] at h
    split at h
    · cases h
    · rename_i hlt
      cases h
      simp only [Bool.or_eq_true, decide_eq_true_eq, not_or, Nat.not_le] at hlt
      exact int64_ofNat_nonneg hlt.2
  unfold readWhole? at h
  split at h
  · split at h
    · exact hbased h
    split at h
    · exact hbased h
    split at h
    · exact hbased h
    · exact hbased h
  · exact hbased h

/-- Quoted literals are texts or ASCII bytes. -/
theorem literal_of_readQuoted {s : List Char} {t : Token} (h : readQuoted s = .ok t) :
    (∃ value, t = .str value) ∨ ∃ value, t = .bytes value ∧ ∀ x ∈ value, x.toNat < 128 := by
  have hend {letters value : List Char} (h : (if letters.contains 'b' then
      if value.all (·.toNat < 128) then Except.ok (.bytes (value.map fun c => UInt8.ofNat c.toNat))
      else .error .bytesNotAscii
    else .ok (.str value) : Except LexProblem Token) = .ok t) :
      (∃ value, t = .str value) ∨ ∃ value, t = .bytes value ∧ ∀ x ∈ value, x.toNat < 128 := by
    split at h
    · split at h
      · rename_i hall
        cases h
        refine .inr ⟨_, rfl, fun x hx => ?_⟩
        obtain ⟨c, hc, rfl⟩ := List.mem_map.mp hx
        have hlt : c.toNat < 128 := of_decide_eq_true (List.all_eq_true.mp hall c hc)
        rw [UInt8.toNat_ofNat_of_lt' (Nat.lt_trans hlt (by decide))]
        exact hlt
      · cases h
    · cases h
      exact .inl ⟨_, rfl⟩
  unfold readQuoted at h
  dsimp only at h
  split at h
  · exact hend h
  · simp only [bind, Except.bind] at h
    split at h
    · cases h
    · exact hend h

/-- A scanned word is a word. -/
theorem scan?_eq_word {c : Char} {rest : List Char} {n : Nat} (h : scan? (c :: rest) = some (.word, n)) :
    isNameStart c = true ∧ n = runLength isNamePart rest := by
  have hnumber : (scanNumber c rest).1 ≠ .word := by
    unfold scanNumber
    generalize (if c = '0' then basedLength rest else 0) = based
    dsimp only
    split
    · simp
    split
    · simp
    · split <;> simp
  simp only [scan?] at h
  split at h
  · cases h
  split at h
  · cases h
  split at h
  · cases h
  split at h
  · split at h <;> cases h
  split at h
  · split at h <;> cases h
  split at h
  · cases h
  split at h
  · rename_i hc
    cases h
    exact ⟨hc, rfl⟩
  split at h
  · exact absurd (congrArg Prod.fst (Option.some.inj h)) hnumber
  split at h
  · cases h
  · obtain ⟨s, -, hs⟩ := Option.map_eq_some_iff.mp h
    cases hs

/-- **The token of a scanned lexeme** has a text, or is a floating point number. -/
theorem Lexeme.token_isReal {c : Char} {rest : List Char} {l : Lexeme} {n : Nat} {t : Token}
    (h : scan? (c :: rest) = some (l, n)) (ht : l.token (c :: rest.take n) = .ok (some t)) : t.IsReal := by
  cases l with
  | blanks | comment | joint | lineEnd => cases ht
  | word =>
    obtain ⟨hc, rfl⟩ := scan?_eq_word h
    have hword : IsWord (c :: rest.take (runLength isNamePart rest)) := by
      refine ⟨c, _, rfl, hc, ?_⟩
      have htake : rest.take (runLength isNamePart rest) = rest.takeWhile isNamePart :=
        (List.prefix_iff_eq_take.mp (List.takeWhile_prefix isNamePart)).symm
      rw [htake]
      exact List.all_takeWhile
    simp only [Lexeme.token] at ht
    split at ht
    · cases ht
      exact .inl trivial
    · rename_i hname
      cases ht
      refine .inl ⟨?_, hname⟩
      rw [String.toList_ofList]
      exact hword
  | decimal =>
    simp only [Lexeme.token] at ht
    split at ht
    · cases ht
      exact .inr ⟨_, rfl⟩
    · cases ht
  | whole =>
    simp only [Lexeme.token] at ht
    split at ht
    · rename_i hn
      cases ht
      exact .inl (nonneg_of_readWhole? hn)
    · cases ht
  | quoted =>
    simp only [Lexeme.token] at ht
    cases hq : readQuoted (c :: rest.take n) with
    | error e =>
      rw [hq] at ht
      cases ht
    | ok t' =>
      rw [hq] at ht
      cases ht
      obtain ⟨value, rfl⟩ | ⟨value, rfl, hascii⟩ := literal_of_readQuoted hq
      · exact .inl trivial
      · exact .inl hascii
  | symbol s =>
    cases ht
    exact .inl trivial

/-! ## Tokens of sources -/

/-- **Tokens that a source is lexed as:** tokens with texts, and layout. A deeper line starts with a token
that has a text. -/
inductive Lexed : List Token → Prop
  | nil : Lexed []
  | token {t : Token} {ts : List Token} (ht : t.Writable) (h : Lexed ts) : Lexed (t :: ts)
  | newline {ts : List Token} (h : Lexed ts) : Lexed (.newline :: ts)
  | dedent {ts : List Token} (h : Lexed ts) : Lexed (.dedent :: ts)
  | eof {ts : List Token} (h : Lexed ts) : Lexed (.eof :: ts)
  | indent {t : Token} {ts : List Token} (ht : t.Writable) (h : Lexed ts) : Lexed (.indent :: t :: ts)

namespace Lexed

variable {t : Token} {ts : List Token}

theorem tail (h : Lexed (t :: ts)) : Lexed ts := by
  cases h with
  | indent ht h => exact .token ht h
  | token _ h | newline h | dedent h | eof h => exact h

theorem dedents (n : Nat) (h : Lexed ts) : Lexed (List.replicate n .dedent ++ ts) := by
  induction n with
  | zero => exact h
  | succ n ih => exact .dedent ih

end Lexed

/-- Whether a token is a floating point number. -/
def Token.isFloat : Token → Bool
  | .float _ => true
  | _ => false

/-- Tokens without floating point numbers. -/
def NoFloats (ts : List Token) : Prop := ∀ t ∈ ts, t.isFloat = false

instance (ts : List Token) : Decidable (NoFloats ts) := inferInstanceAs (Decidable (∀ t ∈ ts, t.isFloat = false))

theorem finish_lexed (st : Layout) : Lexed (st.finish.map Placed.token) := by
  unfold Layout.finish
  simp only [List.map_append, List.map_replicate, List.append_assoc]
  have hend : Lexed (List.replicate st.indents.length .dedent ++ [.eof]) := .dedents _ (.eof .nil)
  split
  · exact hend
  · exact .newline hend

/-- The layout before a token. -/
theorem opening_lexed {st st' : Layout} {layout : List Placed} (h : st.Opening (.ok (st', layout))) {t : Token}
    {ts : List Token} (ht : t.Writable) (hts : Lexed ts) : Lexed (layout.map Placed.token ++ t :: ts) := by
  cases h with
  | inLine => exact .token ht hts
  | deeper => exact .indent ht hts
  | back =>
    rw [List.map_replicate]
    exact .dedents _ (.token ht hts)

/-- One lexeme. -/
theorem advance_lexed {st st' : Layout} {c : Char} {rest : List Char} {l : Lexeme} {n : Nat}
    {here : List Placed} (hscan : scan? (c :: rest) = some (l, n))
    (h : st.advance l (c :: rest.take n) = .ok (st', here)) {ts : List Token} (hts : Lexed ts)
    (hfloat : NoFloats (here.map Placed.token)) : Lexed (here.map Placed.token ++ ts) := by
  cases Layout.step_of_advance h with
  | gap | emptyLine => exact hts
  | lineEnd => exact .newline hts
  | @token st₁ layout t hopen htoken =>
    rw [List.map_append] at hfloat ⊢
    have ht : t.Writable := by
      rcases Lexeme.token_isReal hscan htoken with ht | ⟨d, rfl⟩
      · exact ht
      · cases hfloat _ (List.mem_append_right _ List.mem_cons_self)
    rw [List.append_assoc]
    exact opening_lexed hopen ht hts

theorem tokensFrom_lexed {st : Layout} {s : List Char} {ps : List Placed} (h : tokensFrom st s = .ok ps)
    (hfloat : NoFloats (ps.map Placed.token)) : Lexed (ps.map Placed.token) := by
  fun_induction tokensFrom st s generalizing ps with
  | case1 st =>
    cases h
    exact finish_lexed st
  | case2 st c rest hscan => cases h
  | case3 st c rest l more hscan e hadvance => cases h
  | case4 st c rest l more hscan st' here hadvance e hlater ih => cases h
  | case5 st c rest l more hscan st' here hadvance later hlater ih =>
    cases h
    rw [List.map_append] at hfloat ⊢
    obtain ⟨hhere, hrest⟩ := List.forall_mem_append.mp hfloat
    exact advance_lexed hscan hadvance (ih hlater hrest) hhere

/-- **A source without floating point numbers** is lexed as tokens with texts, and layout. -/
theorem tokens_lexed {source : List Char} {ps : List Placed} (h : tokens source = .ok ps)
    (hfloat : NoFloats (ps.map Placed.token)) : Lexed (ps.map Placed.token) := tokensFrom_lexed h hfloat

end Transcript.Lang
