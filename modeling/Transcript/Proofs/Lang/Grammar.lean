import Transcript.Proofs.Lang.Level
import Mathlib.Logic.Basic

/-!
# Spelled expressions are read

Each reader reads what an expression of its level spells. The proof is by induction on the expression;
there is one lemma for each way to make an expression from its parts, and it says what the reader does
that reads it.

Results:
* `items_accepts`, `pairs_accepts`, `arguments_accepts`: lists of parts with commas between them.
* `Expr.Legible.readable`: a legible expression is read from its tokens, in minimal and in full spelling.
-/

namespace Transcript.Lang.Reader

open Accepts

variable {full : Bool} {level : Level} {e : Expr} {ts : List Token} {Q : Token → Prop} {fuel : Nat}

/-- **What is read of an expression:** its tokens, and those of a first operand too, unless the reader of
its level takes no such expression for one. -/
structure Readable (full : Bool) (e : Expr) : Prop where
  /-- With what the tokens start. -/
  starts : Starts e.level (e.spell full)
  /-- The reader of the level reads the tokens. -/
  reads : Reads e.level e (e.spell full)
  /-- They are a first operand, but not if they are a power. -/
  collects : collects e.level = true → (∀ l r, e ≠ .binary .pow l r) →
    Collects e.level e (e.spell full)

/-! ## Parentheses -/

/-- An atom is read from tokens in parentheses that an expression is read from. -/
theorem atom_parens (hts : Starts level ts) (h : Reads .conditional e ts) : Reads .atom e (parens ts) := by
  intro fuel hfuel
  simp only [parens, List.length_cons, List.length_append, List.length_nil, Level.rank] at hfuel
  obtain ⟨fuel, rfl⟩ : ∃ f, fuel = f + 1 := Nat.exists_eq_add_of_le' (by omega)
  refine next_bind (skip_bind (eat_bind_other ?_ ?_))
  · obtain ⟨t, us, rfl, ht, -⟩ := hts.loosest
    rintro rfl
    cases ht
  · rw [if_neg Bool.false_ne_true]
    refine .bind_eq (h fuel (by simp only [Level.rank]; omega)) ?_ rfl
    exact eat_bind (.pure rfl)

namespace Readable

variable (h : Readable full e)

include h

theorem starts_spellAt (level : Level) : Starts level (e.spellAt full level) :=
  h.starts.enclose full level

/-- **A level reads an expression** as it is spelled there. -/
theorem reads_spellAt (level : Level) : Reads level e (e.spellAt full level) := by
  have hloosest : Reads .conditional e (e.spell full) := by
    obtain ⟨t, us, hts, ht, -⟩ := h.starts
    exact reads_of_rank_le hts ht h.reads (Nat.zero_le _)
  unfold Expr.spellAt enclose
  split
  · have hrank : level.rank ≤ Level.atom.rank := by cases level <;> decide
    exact reads_of_rank_le rfl rfl (atom_parens h.starts hloosest) hrank
  · rename_i hle
    obtain ⟨t, us, hts, ht, -⟩ := h.starts
    exact reads_of_rank_le hts ht h.reads
      (Nat.le_trans (level.rank_le_asked full) (Nat.le_of_not_lt hle))

/-- Where an expression of the level itself is not asked for, the next tighter level may be. -/
theorem collects_spellAt_of_ne (hc : Reader.collects level = true) (hne : full = true ∨ e.level ≠ level) :
    Collects level e (e.spellAt full level) := by
  have hspell : e.spellAt full level = e.spellAt full level.tighter := by
    have hrank : level.tighter.rank = level.rank + 1 := by cases level <;> first | rfl | cases hc
    cases full with
    | true => rfl
    | false =>
      have hlevel : e.level.rank ≠ level.rank :=
        fun heq => hne.elim Bool.false_ne_true fun hne => hne (Level.rank_injective heq)
      unfold Expr.spellAt enclose
      exact if_congr (by simp only [Level.asked, Bool.false_eq_true, if_false]; omega) rfl rfl
  obtain ⟨t, us, hts, ht, -⟩ := h.starts_spellAt level.tighter
  rw [hspell]
  exact collects_of_tighter hc hts ht (h.reads_spellAt level.tighter)

/-- **An expression is a first operand** as it is spelled there. -/
theorem collects_spellAt (hc : Reader.collects level = true) (hpow : level ≠ .power) :
    Collects level e (e.spellAt full level) := by
  by_cases hne : full = true ∨ e.level ≠ level
  · exact h.collects_spellAt_of_ne hc hne
  · rw [not_or, not_not, Bool.not_eq_true] at hne
    obtain ⟨rfl, rfl⟩ := hne
    have hspell : e.spellAt false e.level = e.spell false := if_neg (Nat.lt_irrefl _)
    rw [hspell]
    refine h.collects hc ?_
    rintro l r rfl
    exact hpow rfl

end Readable

/-! ## Lists of parts -/

/-- Brackets that close a list of items. -/
def ClosesItems (close : Symbol) : Prop := close = .closeBracket ∨ close = .closeParen

theorem ClosesItems.ne {close : Symbol} (hclose : ClosesItems close) :
    Stops .conditional (sym close) ∧ sym close ≠ sym .comma ∧
      (sym close).leads .conditional = false := by
  rcases hclose with rfl | rfl <;> exact ⟨rfl, by decide, rfl⟩

/-- What does not start an expression is not ahead of one. -/
theorem Readable.ahead_ne (h : Readable full e) {t : Token} (ht : t.leads .conditional = false)
    (us : List Token) : Ahead (· ≠ t) (e.spellAt full .conditional ++ us) Q := by
  obtain ⟨u, vs, hspell, hu, -⟩ := h.starts_spellAt .conditional
  rw [hspell]
  rintro rfl
  rw [ht] at hu
  cases hu

/-- **The items of a list or of a tuple,** up to the bracket that closes it. -/
theorem items_accepts {close : Symbol} (hclose : ClosesItems close) {es : List Expr}
    (h : ∀ e ∈ es, Readable full e) (sofar : List Expr)
    (hfuel : 24 * (commaSeparated (es.map (Expr.spellAt full .conditional))).length < fuel) :
    Accepts (items fuel close sofar) (commaSeparated (es.map (Expr.spellAt full .conditional)))
      (· = sofar ++ es) (· = sym close) := by
  obtain ⟨hstops, hcomma, hlead⟩ := hclose.ne
  induction es generalizing sofar fuel with
  | nil =>
    obtain ⟨fuel, rfl⟩ := Nat.exists_eq_add_of_le' hfuel
    refine at_bind (fun q hq => hq) ?_
    exact .pure (List.append_nil sofar).symm
  | cons e es ih =>
    obtain ⟨he, hes⟩ := List.forall_mem_cons.mp h
    obtain ⟨fuel, rfl⟩ := Nat.exists_eq_add_of_le' (Nat.zero_lt_of_lt hfuel)
    rw [List.map_cons, commaSeparated_cons] at hfuel ⊢
    rw [List.length_append] at hfuel
    refine at_bind_other (he.ahead_ne hlead _) ?_
    have hread := he.reads_spellAt .conditional fuel (by simp only [Level.rank]; omega)
    cases es with
    | nil =>
      refine .bind_eq hread ?_ (by rintro q rfl; exact hstops)
      refine eat_bind_other ?_ (.pure rfl)
      rintro q rfl
      exact hcomma
    | cons next es =>
      refine .bind_eq hread (eat_bind ?_) rfl
      have hbound : 24 * (commaSeparated ((next :: es).map (Expr.spellAt full .conditional))).length < fuel := by
        simp only [List.map_cons, commaTail, List.length_cons] at hfuel ⊢
        omega
      have hrest := ih hes (sofar ++ [e]) hbound
      rwa [List.append_assoc] at hrest

/-- **The items of a dictionary,** up to its closing brace. -/
theorem pairs_accepts {es : List (Expr × Expr)} (hk : ∀ item ∈ es, Readable full item.1)
    (hv : ∀ item ∈ es, Readable full item.2) (sofar : List (Expr × Expr))
    (hfuel : 24 * (commaSeparated (es.map (pairTokens full))).length < fuel) :
    Accepts (pairs fuel sofar) (commaSeparated (es.map (pairTokens full))) (· = sofar ++ es)
      (· = sym .closeBrace) := by
  induction es generalizing sofar fuel with
  | nil =>
    obtain ⟨fuel, rfl⟩ := Nat.exists_eq_add_of_le' hfuel
    refine at_bind (fun q hq => hq) ?_
    exact .pure (List.append_nil sofar).symm
  | cons item es ih =>
    obtain ⟨hkey, hkeys⟩ := List.forall_mem_cons.mp hk
    obtain ⟨hvalue, hvalues⟩ := List.forall_mem_cons.mp hv
    obtain ⟨fuel, rfl⟩ := Nat.exists_eq_add_of_le' (Nat.zero_lt_of_lt hfuel)
    rw [List.map_cons, commaSeparated_cons, List.length_append, pairTokens, List.length_append,
      List.length_cons] at hfuel
    rw [List.map_cons, commaSeparated_cons, pairTokens, List.append_assoc, List.cons_append]
    refine at_bind_other (hkey.ahead_ne rfl _) ?_
    refine .bind_eq (hkey.reads_spellAt .conditional fuel (by simp only [Level.rank]; omega)) ?_ rfl
    refine expect_bind ?_
    have hread := hvalue.reads_spellAt .conditional fuel (by simp only [Level.rank]; omega)
    cases es with
    | nil =>
      refine .bind_eq hread ?_ (by rintro q rfl; rfl)
      refine eat_bind_other ?_ (.pure rfl)
      rintro q rfl
      decide
    | cons next es =>
      refine .bind_eq hread (eat_bind ?_) rfl
      have hbound : 24 * (commaSeparated ((next :: es).map (pairTokens full))).length < fuel := by
        simp only [List.map_cons, commaTail, List.length_cons] at hfuel ⊢
        omega
      have hrest := ih hkeys hvalues (sofar ++ [item]) hbound
      rwa [List.append_assoc] at hrest

/-! ## Arguments -/

/-- What goes on after an argument: another one, or the end of the arguments. -/
def afterArgument (fuel : Nat) (args : List Expr) (named : List (String × Expr)) :
    Reader (List Expr × List (String × Expr)) := do
  if ← eat (sym .comma) then arguments fuel args named
  else
    expect (sym .closeParen)
    return (args, named)

variable {args : List Expr} {named : List (String × Expr)}
  {A : List Expr × List (String × Expr) → Prop}

theorem afterArgument_accepts {parts : List (List Token)} (hend : parts = [] → A (args, named))
    (hnext : parts ≠ [] →
      Accepts (arguments fuel args named) (commaSeparated parts ++ [sym .closeParen]) A Q) :
    Accepts (afterArgument fuel args named) (commaTail parts ++ [sym .closeParen]) A Q := by
  cases parts with
  | nil =>
    refine eat_bind_other (by decide : sym .closeParen ≠ sym .comma) ?_
    rw [if_neg Bool.false_ne_true]
    exact expect_bind (.pure (hend rfl))
  | cons part parts => exact eat_bind (hnext (List.cons_ne_nil part parts))

theorem commaTail_stops (parts : List (List Token)) :
    Ahead (Stops .conditional) (commaTail parts ++ [sym .closeParen]) Q := by
  cases parts <;> exact rfl

theorem commaTail_ne (parts : List (List Token)) :
    Ahead (· ≠ sym .assign) (commaTail parts ++ [sym .closeParen]) Q := by
  cases parts <;> exact nofun

/-- An argument without a name, before all named ones. -/
theorem arguments_positional (he : Readable full e) {us : List Token}
    (hfuel : 24 * (e.spellAt full .conditional).length ≤ fuel)
    (hstops : Ahead (Stops .conditional) us Q) (hne : Ahead (· ≠ sym .assign) us Q)
    (h : Accepts (afterArgument fuel (args ++ [e]) []) us A Q) :
    Accepts (arguments (fuel + 1) args []) (e.spellAt full .conditional ++ us) A Q := by
  refine eat_bind_other (he.ahead_ne rfl us) ?_
  rw [if_neg Bool.false_ne_true]
  refine peek_bind_any fun p => ?_
  have hread : Accepts (expression fuel >>= fun e => afterArgument fuel (args ++ [e]) [])
      (e.spellAt full .conditional ++ us) A Q :=
    .bind_eq (he.reads_spellAt .conditional fuel hfuel) h hstops
  obtain ⟨t, ts, hspell, -, hts⟩ := he.starts_spellAt .conditional
  have hsecond : Ahead (· ≠ sym .assign) (ts ++ us) Q := by
    cases ts with
    | nil => exact hne
    | cons u ts => exact fun heq => hts (congrArg some heq)
  refine next_bind_ahead (P := fun _ => True) (by rw [hspell]; exact trivial) fun t' _ => ?_
  refine second_bind_ahead (congrArg (· ++ us) hspell) hsecond fun u hu => ?_
  dsimp only
  split
  · exact absurd rfl hu
  · rw [if_neg (by simp)]
    exact hread

/-- An argument with a name that no argument before it has. -/
theorem arguments_named (he : Readable full e) {n : String} {us : List Token}
    (hn : named.any (·.1 == n) = false)
    (hfuel : 24 * (e.spellAt full .conditional).length ≤ fuel)
    (hstops : Ahead (Stops .conditional) us Q)
    (h : Accepts (afterArgument fuel args (named ++ [(n, e)])) us A Q) :
    Accepts (arguments (fuel + 1) args named)
      (.name n :: sym .assign :: (e.spellAt full .conditional ++ us)) A Q := by
  refine eat_bind_other nofun ?_
  rw [if_neg Bool.false_ne_true]
  refine peek_bind_any fun p => next_bind (second_bind ?_)
  dsimp only
  refine skip_bind (skip_bind ?_)
  rw [hn, if_neg Bool.false_ne_true]
  exact .bind_eq (he.reads_spellAt .conditional fuel hfuel) h hstops

/-- **The named arguments of a call** with its closing parenthesis. -/
theorem namedArguments_accepts {more : List (String × Expr)} (h : ∀ arg ∈ more, Readable full arg.2)
    (hdistinct : ((named ++ more).map Prod.fst).Nodup)
    (hfuel : 24 * (commaSeparated (more.map (namedTokens full))).length < fuel) :
    Accepts (arguments fuel args named)
      (commaSeparated (more.map (namedTokens full)) ++ [sym .closeParen]) (· = (args, named ++ more)) Q := by
  induction more generalizing named fuel with
  | nil =>
    obtain ⟨fuel, rfl⟩ := Nat.exists_eq_add_of_le' hfuel
    refine eat_bind ?_
    rw [if_pos rfl, List.append_nil]
    exact .pure rfl
  | cons arg more ih =>
    obtain ⟨n, e⟩ := arg
    obtain ⟨he, hmore⟩ := List.forall_mem_cons.mp h
    obtain ⟨fuel, rfl⟩ := Nat.exists_eq_add_of_le' (Nat.zero_lt_of_lt hfuel)
    rw [List.map_cons, commaSeparated_cons, List.length_append, namedTokens, List.length_cons,
      List.length_cons] at hfuel
    have hdistinct' : ((named ++ [(n, e)] ++ more).map Prod.fst).Nodup := by
      rwa [List.append_assoc]
    have hnew : named.any (·.1 == n) = false := by
      rw [List.map_append, List.map_cons] at hdistinct
      have hnotmem : n ∉ named.map Prod.fst := fun hmem =>
        (List.nodup_append.mp hdistinct).2.2 n hmem n List.mem_cons_self rfl
      simpa using fun a b hab hn => hnotmem (List.mem_map.mpr ⟨(a, b), hab, hn⟩)
    rw [List.map_cons, commaSeparated_cons, List.append_assoc, namedTokens, List.cons_append,
      List.cons_append]
    refine arguments_named he hnew (by omega) (commaTail_stops _) (afterArgument_accepts ?_ fun hne => ?_)
    · intro hnil
      rw [List.map_eq_nil_iff.mp hnil]
    · have hlength := commaTail_length hne
      have hbound : 24 * (commaSeparated (more.map (namedTokens full))).length < fuel := by omega
      have hrest := ih hmore hdistinct' hbound
      rwa [List.append_assoc] at hrest

/-- **The arguments of a call** with its closing parenthesis: those with names come last. -/
theorem arguments_accepts {es : List Expr} (args : List Expr) (hes : ∀ e ∈ es, Readable full e)
    (hnamed : ∀ arg ∈ named, Readable full arg.2) (hdistinct : (named.map Prod.fst).Nodup)
    (hfuel : 24 * (commaSeparated
      (es.map (Expr.spellAt full .conditional) ++ named.map (namedTokens full))).length < fuel) :
    Accepts (arguments fuel args [])
      (commaSeparated (es.map (Expr.spellAt full .conditional) ++ named.map (namedTokens full)) ++
        [sym .closeParen]) (· = (args ++ es, named)) Q := by
  induction es generalizing args fuel with
  | nil =>
    rw [List.append_nil]
    exact namedArguments_accepts hnamed hdistinct hfuel
  | cons e es ih =>
    obtain ⟨he, hes⟩ := List.forall_mem_cons.mp hes
    obtain ⟨fuel, rfl⟩ := Nat.exists_eq_add_of_le' (Nat.zero_lt_of_lt hfuel)
    rw [List.map_cons, List.cons_append, commaSeparated_cons, List.length_append] at hfuel
    rw [List.map_cons, List.cons_append, commaSeparated_cons, List.append_assoc]
    refine arguments_positional he (by omega) (commaTail_stops _) (commaTail_ne _)
      (afterArgument_accepts ?_ fun hne => ?_)
    · intro hnil
      obtain ⟨hes, hnamed⟩ := List.append_eq_nil_iff.mp hnil
      rw [List.map_eq_nil_iff.mp hes, List.map_eq_nil_iff.mp hnamed]
    · have hlength := commaTail_length hne
      have hbound : 24 * (commaSeparated (es.map (Expr.spellAt full .conditional) ++
          named.map (namedTokens full))).length < fuel := by omega
      have hrest := ih (args ++ [e]) hes hbound
      rwa [List.append_assoc] at hrest

/-! ## Atoms -/

theorem moreText_stops (s : List Char) : Accepts (moreText fuel s) [] (· = s) (Stops .atom) := by
  cases fuel with
  | zero => exact .pure rfl
  | succ fuel =>
    refine next_bind_ahead (fun q hq => hq) fun t ht => ?_
    split
    · cases ht
    · exact .pure rfl

theorem moreBytes_stops (b : List UInt8) : Accepts (moreBytes fuel b) [] (· = b) (Stops .atom) := by
  cases fuel with
  | zero => exact .pure rfl
  | succ fuel =>
    refine next_bind_ahead (fun q hq => hq) fun t ht => ?_
    split
    · cases ht
    · exact .pure rfl

/-- An atom is read if its own reader reads it with some fuel left. -/
theorem reads_atom (hne : ts ≠ [])
    (h : ∀ fuel, 24 * ts.length ≤ fuel + 11 → Accepts (atom (fuel + 1)) ts (· = e) (Stops .atom)) :
    Reads .atom e ts := by
  intro fuel hfuel
  obtain ⟨fuel, rfl, hfuel, -⟩ := exists_succ_of_le hne hfuel
  exact h fuel hfuel

theorem constant_reads {c : Constant} (h : c.Legible) : Reads .atom (.constant c) [c.token] := by
  refine reads_atom (List.cons_ne_nil _ _) fun fuel _ => ?_
  cases c with
  | float d => cases h
  | none => exact next_bind (skip_bind (.pure rfl))
  | bool b => cases b <;> exact next_bind (skip_bind (.pure rfl))
  | int n => exact next_bind (skip_bind (.pure rfl))
  | str s => exact next_bind (skip_bind (.bind_nil_eq (moreText_stops s) (.pure rfl) fun _ hq => hq))
  | bytes b => exact next_bind (skip_bind (.bind_nil_eq (moreBytes_stops b) (.pure rfl) fun _ hq => hq))

theorem name_reads (n : String) : Reads .atom (.name n) [.name n] :=
  reads_atom (List.cons_ne_nil _ _) fun _ _ => next_bind (skip_bind (.pure rfl))

theorem list_reads {es : List Expr} (h : ∀ e ∈ es, Readable full e) :
    Reads .atom (.list es) ((Expr.list es).spell full) := by
  rw [Expr.spell, spellAll_eq_map]
  refine reads_atom (List.cons_ne_nil _ _) fun fuel hfuel => next_bind (skip_bind ?_)
  rw [List.length_cons, List.length_append] at hfuel
  refine .bind_eq (items_accepts (.inl rfl) h [] (by omega)) ?_ rfl
  exact expect_bind (.pure rfl)

theorem dict_reads {es : List (Expr × Expr)} (hk : ∀ item ∈ es, Readable full item.1)
    (hv : ∀ item ∈ es, Readable full item.2) :
    Reads .atom (.dict es) ((Expr.dict es).spell full) := by
  rw [Expr.spell, spellPairs_eq_map]
  refine reads_atom (List.cons_ne_nil _ _) fun fuel hfuel => next_bind (skip_bind ?_)
  rw [List.length_cons, List.length_append] at hfuel
  refine .bind_eq (pairs_accepts hk hv [] (by omega)) ?_ rfl
  exact expect_bind (.pure rfl)

theorem tuple_reads {es : List Expr} (h : ∀ e ∈ es, Readable full e) :
    Reads .atom (.tuple es) ((Expr.tuple es).spell full) := by
  rw [Expr.spell, spellAll_eq_map]
  refine reads_atom (List.cons_ne_nil _ _) fun fuel hfuel => next_bind (skip_bind ?_)
  cases es with
  | nil =>
    refine eat_bind ?_
    rw [if_pos rfl]
    exact .pure rfl
  | cons e es =>
    obtain ⟨he, hes⟩ := List.forall_mem_cons.mp h
    have htuple : tupleItems ((e :: es).map (Expr.spellAt full .conditional)) ++ [sym .closeParen] =
        e.spellAt full .conditional ++ sym .comma ::
          (commaSeparated (es.map (Expr.spellAt full .conditional)) ++ [sym .closeParen]) := by
      cases es with
      | nil => simp [tupleItems, commaSeparated]
      | cons next es => simp [tupleItems, commaSeparated_cons, commaTail]
    rw [parens, htuple, List.length_cons, List.length_append, List.length_cons, List.length_append] at hfuel
    rw [htuple]
    refine eat_bind_other (he.ahead_ne rfl _) ?_
    rw [if_neg Bool.false_ne_true]
    refine .bind_eq (he.reads_spellAt .conditional fuel (by simp only [Level.rank]; omega)) ?_ rfl
    refine eat_bind_other (show sym .comma ≠ sym .closeParen by decide) ?_
    rw [if_neg Bool.false_ne_true]
    refine eat_bind ?_
    rw [if_pos rfl]
    refine .bind_eq (items_accepts (.inr rfl) hes [e] (by omega)) ?_ rfl
    exact expect_bind (.pure rfl)

/-! ## Operators -/

theorem sign_reads {op : UnaryOp} (hop : op.level = .sign) (h : Reads .sign e ts) :
    Reads .sign (.unary op e) (op.token :: ts) := by
  intro fuel hfuel
  obtain ⟨fuel, rfl, -⟩ := exists_succ_of_le (List.cons_ne_nil _ _) hfuel
  rw [List.length_cons] at hfuel
  have hread := h fuel (by omega)
  cases op with
  | negate => exact next_bind (skip_bind (.bind_nil_eq hread (.pure rfl) fun _ hq => hq))
  | plus => exact next_bind (skip_bind (.bind_nil_eq hread (.pure rfl) fun _ hq => hq))
  | not => cases hop

theorem not_reads (h : Reads .not e ts) : Reads .not (.unary .not e) (key .not :: ts) := by
  intro fuel hfuel
  obtain ⟨fuel, rfl, -⟩ := exists_succ_of_le (List.cons_ne_nil _ _) hfuel
  rw [List.length_cons] at hfuel
  exact eat_bind (.bind_nil_eq (h fuel (by omega)) (.pure rfl) fun _ hq => hq)

/-- **A chain of operators** takes another operand on its right. -/
theorem binary_extends {op : BinaryOp} (hop : op ≠ .pow) {l r : Expr}
    (h : Reads op.level.tighter r ts) :
    Extends op.level l (op.token :: ts) (.binary op l r) := by
  intro fuel us x Q hfuel hahead hmore
  rw [List.length_cons] at hfuel
  have hread := h fuel (by omega)
  cases op with
  | pow => exact absurd rfl hop
  | add => exact next_bind (skip_bind (.bind_eq hread hmore hahead))
  | sub => exact next_bind (skip_bind (.bind_eq hread hmore hahead))
  | mul => exact next_bind (skip_bind (.bind_eq hread hmore hahead))
  | div => exact next_bind (skip_bind (.bind_eq hread hmore hahead))
  | floorDiv => exact next_bind (skip_bind (.bind_eq hread hmore hahead))
  | mod => exact next_bind (skip_bind (.bind_eq hread hmore hahead))

theorem logic_extends {op : LogicOp} {l r : Expr} (h : Reads op.level.tighter r ts) :
    Extends op.level l (op.token :: ts) (.logic op l r) := by
  intro fuel us x Q hfuel hahead hmore
  rw [List.length_cons] at hfuel
  have hread := h fuel (by omega)
  cases op with
  | and => exact eat_bind (.bind_eq hread hmore hahead)
  | or => exact eat_bind (.bind_eq hread hmore hahead)

theorem stops_sign_of_power {t : Token} (h : Stops .power t) : Stops .sign t := by
  unfold Stops Token.goesOn at *
  split at h <;> first | rfl | cases h

/-- **A power** has an exponent with its own signs. -/
theorem pow_reads {l r : Expr} {us : List Token} (hl : Collects .power l ts) (hr : Reads .sign r us) :
    Reads .power (.binary .pow l r) (ts ++ sym .power :: us) := by
  intro fuel hfuel
  rw [List.length_append, List.length_cons] at hfuel
  refine hl fuel (24 * us.length) (sym .power :: us) _ _ rfl (fun f hf => ?_) (by omega)
  refine eat_bind (.bind_nil_eq (hr f (by omega)) (.pure rfl) fun _ hq => stops_sign_of_power hq)

theorem await_collects (h : Reads .primary e ts) : Collects .power (.await e) (key .await :: ts) := by
  intro fuel enough us x Q hahead hmore hfuel
  obtain ⟨fuel, rfl⟩ : ∃ f, fuel = f + 1 :=
    Nat.exists_eq_add_of_le' (by simp only [List.length_cons, Level.rank] at hfuel; omega)
  rw [List.length_cons] at hfuel
  simp only [Level.rank] at hfuel
  have hbase : Accepts (primary fuel) ts (· = e) (Stops .primary) :=
    h fuel (by simp only [Level.rank]; omega)
  have hawait : Accepts (Expr.await <$> primary fuel) ts (· = .await e) (Stops .primary) :=
    hbase.map fun a ha => congrArg _ ha
  refine eat_bind ?_
  rw [if_pos rfl]
  exact .bind_eq hawait (hmore fuel (by omega)) hahead

/-! ## Comparisons -/

theorem comparison?_is {u : Token} (hu : u.leads .sum = true) :
    comparison? (key .is) u = some (.same, 1) := by
  cases u with
  | keyword k => cases k <;> first | rfl | cases hu
  | _ => rfl

/-- What is read after an operator of a comparison. -/
def operand (fuel : Nat) (op : CompareOp) : Reader (List (CompareOp × Expr)) := do
  let e ← sum fuel
  return (op, e) :: (← compared fuel)

/-- An operator of a comparison with a part of its own after it is taken for no other one. -/
theorem operator_accepts (op : CompareOp) {t : Token} {A : List (CompareOp × Expr) → Prop}
    (ht : t.leads .sum = true) (h : Accepts (operand fuel op) (t :: ts) A Q) :
    Accepts (compared (fuel + 1)) (op.tokens ++ t :: ts) A Q := by
  cases op with
  | same =>
    refine next_bind (second_bind ?_)
    rw [comparison?_is ht]
    exact skip_bind h
  | notMember => exact next_bind (second_bind (skip_bind (skip_bind h)))
  | notSame => exact next_bind (second_bind (skip_bind (skip_bind h)))
  | _ => exact next_bind (second_bind_any fun u => skip_bind h)

/-- **The comparisons of a chain.** -/
theorem compared_accepts {rest : List (CompareOp × Expr)} (h : ∀ operand ∈ rest, Readable full operand.2)
    (hfuel : 24 * (spellCompared full rest).length < fuel) :
    Accepts (compared fuel) (spellCompared full rest) (· = rest) (Stops .comparison) := by
  induction rest generalizing fuel with
  | nil =>
    obtain ⟨fuel, rfl⟩ := Nat.exists_eq_add_of_le' hfuel
    exact compared_of_stops
  | cons operand rest ih =>
    obtain ⟨op, e⟩ := operand
    obtain ⟨he, hrest⟩ := List.forall_mem_cons.mp h
    obtain ⟨fuel, rfl⟩ := Nat.exists_eq_add_of_le' (Nat.zero_lt_of_lt hfuel)
    have hop : 0 < op.tokens.length := by cases op <;> exact Nat.zero_lt_succ _
    have hspell : spellCompared full ((op, e) :: rest) =
        op.tokens ++ (e.spellAt full .sum ++ spellCompared full rest) := rfl
    rw [hspell, List.length_append, List.length_append] at hfuel
    have hoperand : Accepts (Reader.operand fuel op) (e.spellAt full .sum ++ spellCompared full rest)
        (· = (op, e) :: rest) (Stops .comparison) := by
      refine .bind_eq (he.reads_spellAt .sum fuel (by simp only [Level.rank]; omega)) ?_ ?_
      · exact .bind_nil_eq (ih hrest (by omega)) (.pure rfl) fun _ hq => hq
      · cases rest with
        | nil => exact fun q hq => hq.tighter
        | cons next rest => obtain ⟨op', e'⟩ := next; cases op' <;> rfl
    obtain ⟨t, ts, hstart, ht, -⟩ := he.starts_spellAt .sum
    rw [hspell]
    rw [hstart] at hoperand ⊢
    exact operator_accepts op ht hoperand

theorem compare_reads {rest : List (CompareOp × Expr)} (he : Readable full e) (hne : rest ≠ [])
    (hrest : ∀ operand ∈ rest, Readable full operand.2) :
    Reads .comparison (.compare e rest) ((Expr.compare e rest).spell full) := by
  have hspell : (Expr.compare e rest).spell full = e.spellAt full .sum ++ spellCompared full rest :=
    rfl
  obtain ⟨t, us, hstart, -⟩ := he.starts_spellAt .sum
  intro fuel hfuel
  rw [hspell, List.length_append] at hfuel
  have hlength : 0 < (e.spellAt full .sum).length := by rw [hstart]; exact Nat.zero_lt_succ _
  simp only [Level.rank] at hfuel
  obtain ⟨fuel, rfl⟩ : ∃ f, fuel = f + 1 := Nat.exists_eq_add_of_le' (by omega)
  rw [hspell]
  refine .bind_eq (he.reads_spellAt .sum fuel (by simp only [Level.rank]; omega)) ?_ ?_
  · refine .bind_nil_eq (compared_accepts hrest (by omega)) ?_ fun _ hq => hq
    cases rest with
    | nil => exact absurd rfl hne
    | cons operand rest => exact .pure rfl
  · cases rest with
    | nil => exact absurd rfl hne
    | cons operand rest => obtain ⟨op, e'⟩ := operand; cases op <;> rfl

/-! ## Primaries -/

theorem attribute_extends (n : String) : Extends .primary e [sym .dot, .name n] (.attribute e n) :=
  fun _ _ _ _ _ _ hmore => next_bind (skip_bind (name_bind hmore))

theorem call_extends {args : List Expr} {named : List (String × Expr)}
    (hargs : ∀ e ∈ args, Readable full e) (hnamed : ∀ arg ∈ named, Readable full arg.2)
    (hdistinct : (named.map Prod.fst).Nodup) :
    Extends .primary e (parens (commaSeparated (spellAll full args ++ spellNamed full named)))
      (.call e args named) := by
  intro fuel us x Q hfuel hahead hmore
  rw [spellAll_eq_map, spellNamed_eq_map] at hfuel ⊢
  rw [parens, List.length_cons, List.length_append] at hfuel
  refine next_bind (skip_bind ?_)
  exact .bind_eq (arguments_accepts (Q := fun _ => True) [] hargs hnamed hdistinct (by omega))
    hmore (by cases us <;> simp [Ahead])

/-- An index in its brackets. -/
theorem subscript_extends {i : Expr} {index : List Token}
    (h : ∀ fuel, 24 * index.length + 1 < fuel →
      Accepts (Reader.index fuel) index (· = i) (· = sym .closeBracket)) :
    Extends .primary e (sym .openBracket :: (index ++ [sym .closeBracket])) (.subscript e i) := by
  intro fuel us x Q hfuel hahead hmore
  rw [List.length_cons, List.length_append] at hfuel
  rw [List.cons_append, List.append_assoc]
  refine next_bind (skip_bind ?_)
  exact .bind_eq (h fuel (by omega)) (expect_bind hmore) rfl

/-- An expression without commas around it. -/
theorem expressions_accepts (he : Readable full e) {P : Token → Prop}
    (hP : ∀ q, P q → Stops .conditional q ∧ q ≠ sym .comma)
    (hfuel : 24 * (e.spellAt full .conditional).length < fuel) :
    Accepts (expressions fuel) (e.spellAt full .conditional) (· = e) P := by
  obtain ⟨fuel, rfl⟩ := Nat.exists_eq_add_of_le' (Nat.zero_lt_of_lt hfuel)
  refine .bind_nil_eq (he.reads_spellAt .conditional fuel (by simp only [Level.rank]; omega)) ?_
    fun q hq => (hP q hq).1
  exact at_bind_other (fun q hq => (hP q hq).2) (.pure rfl)

/-- What is read of an index after its lower end: the upper end of a slice, or nothing. -/
def afterLower (fuel : Nat) (lower : Option Expr) : Reader Expr := do
  if ← eat (sym .colon) then
    let upper ← if ← at? (sym .closeBracket) then pure none else some <$> expression fuel
    return .slice lower upper
  else
    match lower with
    | some e => return e
    | none => unexpected

theorem afterLower_accepts (lower : Option Expr) {upper : Option Expr} (h : ∀ e ∈ upper, Readable full e)
    (hfuel : 24 * (spellOption full upper).length ≤ fuel) :
    Accepts (afterLower fuel lower) (sym .colon :: spellOption full upper) (· = .slice lower upper)
      (· = sym .closeBracket) := by
  refine eat_bind ?_
  rw [if_pos rfl]
  cases upper with
  | none => exact at_bind (fun q hq => hq) (.pure rfl)
  | some e =>
    have he := h e rfl
    have hahead := he.ahead_ne (t := sym .closeBracket) (Q := (· = sym .closeBracket)) rfl []
    rw [List.append_nil] at hahead
    refine at_bind_other hahead ?_
    have hread := (he.reads_spellAt .conditional fuel hfuel).map (f := some) (B := (· = some e))
      fun a ha => congrArg some ha
    exact .bind_nil_eq hread (.pure rfl) (by rintro q rfl; rfl)

/-- An index or the lower end of a slice. -/
theorem lower_accepts (he : Readable full e) {us : List Token} {x : Expr}
    (hfuel : 24 * (e.spellAt full .conditional).length < fuel)
    (hus : Ahead (fun q => Stops .conditional q ∧ q ≠ sym .comma) us Q)
    (h : Accepts (afterLower fuel (some e)) us (· = x) Q) :
    Accepts (index (fuel + 1)) (e.spellAt full .conditional ++ us) (· = x) Q := by
  refine at_bind_other (he.ahead_ne rfl us) ?_
  rw [if_neg Bool.false_ne_true]
  have hread := (expressions_accepts he (fun _ hq => hq) hfuel).map (f := some) (B := (· = some e))
    fun a ha => congrArg some ha
  exact .bind_eq hread h hus

theorem index_accepts (he : Readable full e)
    (hfuel : 24 * (e.spellAt full .conditional).length + 1 < fuel) :
    Accepts (index fuel) (e.spellAt full .conditional) (· = e) (· = sym .closeBracket) := by
  obtain ⟨fuel, rfl⟩ := Nat.exists_eq_add_of_le' (Nat.zero_lt_of_lt hfuel)
  have hend : Accepts (afterLower fuel (some e)) [] (· = e) (· = sym .closeBracket) := by
    refine eat_bind_other (by rintro q rfl; decide) ?_
    rw [if_neg Bool.false_ne_true]
    exact .pure rfl
  have hahead : Ahead (fun q => Stops .conditional q ∧ q ≠ sym .comma) [] (· = sym .closeBracket) := by
    rintro q rfl
    exact ⟨rfl, by decide⟩
  have hread := lower_accepts he (by omega) hahead hend
  rwa [List.append_nil] at hread

theorem slice_accepts {lower upper : Option Expr} (hl : ∀ e ∈ lower, Readable full e)
    (hu : ∀ e ∈ upper, Readable full e)
    (hfuel : 24 * ((Expr.slice lower upper).spell full).length < fuel) :
    Accepts (index fuel) ((Expr.slice lower upper).spell full) (· = .slice lower upper)
      (· = sym .closeBracket) := by
  have hspell : (Expr.slice lower upper).spell full =
      spellOption full lower ++ sym .colon :: spellOption full upper := rfl
  rw [hspell, List.length_append, List.length_cons] at hfuel
  rw [hspell]
  obtain ⟨fuel, rfl⟩ := Nat.exists_eq_add_of_le' (Nat.zero_lt_of_lt hfuel)
  have hbound : 24 * (spellOption full upper).length ≤ fuel := by omega
  have hupper := afterLower_accepts lower hu hbound
  cases lower with
  | none => exact at_bind rfl hupper
  | some e =>
    refine lower_accepts (hl e rfl) ?_ ⟨rfl, by decide⟩ hupper
    change 24 * (spellOption full (some e)).length < fuel
    omega

theorem conditional_reads {test yes no : Expr} (ht : Readable full test) (hy : Readable full yes)
    (hn : Readable full no) :
    Reads .conditional (.conditional test yes no) ((Expr.conditional test yes no).spell full) := by
  have hspell : (Expr.conditional test yes no).spell full = yes.spellAt full .or ++ key .if ::
      (test.spellAt full .or ++ key .else :: no.spellAt full .conditional) := rfl
  intro fuel hfuel
  rw [hspell] at hfuel ⊢
  simp only [List.length_append, List.length_cons, Level.rank] at hfuel
  obtain ⟨fuel, rfl⟩ : ∃ f, fuel = f + 1 := Nat.exists_eq_add_of_le' (by omega)
  refine .bind_eq (hy.reads_spellAt .or fuel (by simp only [Level.rank]; omega)) (eat_bind ?_) rfl
  rw [Bool.not_true, if_neg Bool.false_ne_true]
  refine .bind_eq (ht.reads_spellAt .or fuel (by simp only [Level.rank]; omega)) (expect_bind ?_) rfl
  have hread := hn.reads_spellAt .conditional fuel (by simp only [Level.rank]; omega)
  exact .bind_nil_eq hread (.pure rfl) fun _ hq => hq

/-! ## Expressions -/

/-- An expression of a level without first operands, or a power. -/
theorem Readable.of_reads (he : e.Legible) (h : Reads e.level e (e.spell full))
    (hc : Reader.collects e.level = true → ∃ l r, e = .binary .pow l r) : Readable full e := by
  refine ⟨he.starts full, h, fun hcollects hne => ?_⟩
  obtain ⟨l, r, rfl⟩ := hc hcollects
  exact absurd rfl (hne l r)

/-- An expression that a level takes for a first operand. -/
theorem Readable.of_collects (he : e.Legible) (hc : Reader.collects e.level = true)
    (h : Collects e.level e (e.spell full)) : Readable full e :=
  ⟨he.starts full, h.reads hc, fun _ _ => h⟩

/-- What goes on after a primary makes a primary of it. -/
theorem Readable.of_extends {l : Expr} {t : Token} (he : e.Legible) (hl : Readable full l)
    (hlevel : e.level = .primary) (hspell : e.spell full = l.spellAt full .primary ++ t :: ts)
    (ht : Stops .atom t) (h : Extends .primary l (t :: ts) e) : Readable full e := by
  refine .of_collects he (by rw [hlevel]; rfl) ?_
  rw [hlevel, hspell]
  exact (hl.collects_spellAt rfl (by decide)).extend ht h

/-- The base of a power is a primary, or an await of one. -/
theorem Readable.collects_base {l : Expr} (hl : Readable full l) :
    Collects .power l (l.spellAt full (BinaryOp.pow.leftLevel l)) := by
  have hprimary : Collects .power l (l.spellAt full .primary) := by
    obtain ⟨t, us, hspell, ht, -⟩ := hl.starts_spellAt .primary
    exact collects_of_tighter rfl hspell ht (hl.reads_spellAt .primary)
  cases l with
  | await e =>
    cases full with
    | true => exact hprimary
    | false => exact hl.collects rfl nofun
  | _ => exact hprimary

end Transcript.Lang.Reader

namespace Transcript.Lang

open Reader

/-- **A legible expression is read** from its tokens. -/
theorem Expr.Legible.readable {e : Expr} (h : e.Legible) (full : Bool) : Readable full e := by
  induction h with
  | constant h => exact .of_reads (.constant h) (constant_reads h) nofun
  | name h => exact .of_reads (.name h) (name_reads _) nofun
  | list h ih => exact .of_reads (.list h) (list_reads ih) nofun
  | tuple h ih => exact .of_reads (.tuple h) (tuple_reads ih) nofun
  | dict hk hv ihk ihv => exact .of_reads (.dict hk hv) (dict_reads ihk ihv) nofun
  | @binary op l r hl hr ihl ihr =>
    by_cases hop : op = .pow
    · subst hop
      exact .of_reads (.binary hl hr) (pow_reads ihl.collects_base (ihr.reads_spellAt .sign))
        fun _ => ⟨l, r, rfl⟩
    · have hlevels : op.leftLevel l = op.level ∧ op.rightLevel = op.level.tighter ∧
          op.level ≠ .power ∧ Reader.collects op.level = true ∧ Stops op.level.tighter op.token := by
        cases op <;> first | exact absurd rfl hop | exact ⟨rfl, rfl, by decide, rfl, rfl⟩
      obtain ⟨hleft, hright, hpower, hcollects, hstops⟩ := hlevels
      have hspell : (Expr.binary op l r).spell full = l.spellAt full op.level ++
          op.token :: r.spellAt full op.level.tighter := by
        change l.spellAt full (op.leftLevel l) ++ op.token :: r.spellAt full op.rightLevel = _
        rw [hleft, hright]
      refine .of_collects (.binary hl hr) hcollects ?_
      rw [hspell]
      exact (ihl.collects_spellAt hcollects hpower).extend hstops (binary_extends hop (ihr.reads_spellAt _))
  | @unary op e h ih =>
    cases op with
    | not => exact .of_reads (.unary h) (not_reads (ih.reads_spellAt .not)) nofun
    | negate => exact .of_reads (.unary h) (sign_reads rfl (ih.reads_spellAt .sign)) nofun
    | plus => exact .of_reads (.unary h) (sign_reads rfl (ih.reads_spellAt .sign)) nofun
  | @logic op l r hl hr ihl ihr =>
    have hlevel : op.level ≠ .power ∧ Reader.collects op.level = true ∧
        Stops op.level.tighter op.token := by cases op <;> exact ⟨by decide, rfl, rfl⟩
    obtain ⟨hpower, hcollects, hstops⟩ := hlevel
    exact .of_collects (.logic hl hr) hcollects
      ((ihl.collects_spellAt hcollects hpower).extend hstops (logic_extends (ihr.reads_spellAt _)))
  | compare h hne hrest ih ihrest =>
    exact .of_reads (.compare h hne hrest) (compare_reads ih hne ihrest) nofun
  | call hf hargs hnames hdistinct hnamed ihf ihargs ihnamed =>
    exact .of_extends (.call hf hargs hnames hdistinct hnamed) ihf rfl rfl rfl
      (call_extends ihargs ihnamed hdistinct)
  | «attribute» h hn ih => exact .of_extends (.attribute h hn) ih rfl rfl rfl (attribute_extends _)
  | subscript h hi ih ihi =>
    exact .of_extends (.subscript h hi) ih rfl rfl rfl
      (subscript_extends fun fuel hfuel => index_accepts ihi hfuel)
  | @sliced e lower upper h hl hu ih ihl ihu =>
    have hspell : (Expr.subscript e (.slice lower upper)).spell full = e.spellAt full .primary ++
        sym .openBracket :: ((Expr.slice lower upper).spell full ++ [sym .closeBracket]) := by
      cases full <;> rfl
    exact .of_extends (.sliced h hl hu) ih rfl hspell rfl
      (subscript_extends fun fuel hfuel => slice_accepts ihl ihu (Nat.lt_of_succ_lt hfuel))
  | conditional ht hy hn iht ihy ihn =>
    exact .of_reads (.conditional ht hy hn) (conditional_reads iht ihy ihn) nofun
  | await h ih =>
    exact .of_collects (.await h) rfl (await_collects (ih.reads_spellAt .primary))

end Transcript.Lang
