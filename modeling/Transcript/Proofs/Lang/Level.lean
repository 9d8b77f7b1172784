import Transcript.Proofs.Lang.Accept
import Transcript.Proofs.Lang.Spell

/-!
# Levels of precedence and their readers

Each level of precedence has a reader. It goes past an expression of its own level or a tighter one if the
token behind it does not go on with what the level reads. What a tighter level accepts, a looser one
accepts as well, because each reader starts with the reader of the next tighter level.

The readers of five levels collect operands from the left: they read one operand, and a second reader goes
on from there with what has been read so far.

Results:
* `Token.goesOn`: the tokens that go on with what a level reads.
* `reads_of_tighter`: a level reads what the next tighter level reads.
* `Collects.extend`: what collects operands from the left goes on from there.
-/

namespace Transcript.Lang

/-- The reader of a level. -/
def Level.read : Level → Nat → Reader Expr
  | .conditional => Reader.expression
  | .or => Reader.orTest
  | .and => Reader.andTest
  | .not => Reader.notTest
  | .comparison => Reader.comparison
  | .sum => Reader.sum
  | .product => Reader.product
  | .sign => Reader.factor
  | .power => Reader.power
  | .primary => Reader.primary
  | .atom => Reader.atom

/-- Whether a token behind an expression goes on with what a level reads. -/
def Token.goesOn (level : Level) : Token → Bool
  | .keyword .if => level.rank ≤ Level.conditional.rank
  | .keyword .or => level.rank ≤ Level.or.rank
  | .keyword .and => level.rank ≤ Level.and.rank
  | .symbol .equal | .symbol .notEqual | .symbol .less | .symbol .lessEqual | .symbol .greater
  | .symbol .greaterEqual | .keyword .in | .keyword .not | .keyword .is =>
    level.rank ≤ Level.comparison.rank
  | .symbol .plus | .symbol .minus => level.rank ≤ Level.sum.rank
  | .symbol .star | .symbol .slash | .symbol .floorDiv | .symbol .percent =>
    level.rank ≤ Level.product.rank
  | .symbol .power => level.rank ≤ Level.power.rank
  | .symbol .dot | .symbol .openParen | .symbol .openBracket => level.rank ≤ Level.primary.rank
  | .str _ | .bytes _ => true
  | _ => false

/-- A token that does not go on with what a level reads. -/
def Stops (level : Level) (t : Token) : Prop := t.goesOn level = false

namespace Stops

/-- What stops a level stops tighter ones. -/
theorem of_rank_le {level level' : Level} {t : Token} (h : Stops level t)
    (hle : level.rank ≤ level'.rank) : Stops level' t := by
  unfold Stops Token.goesOn at *
  split at h <;> simp_all <;> omega

theorem tighter {level : Level} {t : Token} (h : Stops level t) : Stops level.tighter t :=
  h.of_rank_le (by cases level <;> decide)

end Stops

namespace Reader

open Accepts

variable {ts us : List Token} {e x : Expr} {Q : Token → Prop} {fuel : Nat}

/-- The fuel that suffices for tokens is not spent yet. -/
theorem exists_succ_of_le {level : Level} (hne : ts ≠ [])
    (hfuel : 24 * ts.length ≤ fuel + level.rank) :
    ∃ f, fuel = f + 1 ∧ 24 * ts.length ≤ f + level.rank + 1 ∧ 0 < f := by
  have hlength := List.length_pos_iff.mpr hne
  have hrank : level.rank ≤ 10 := by cases level <;> decide
  exact ⟨fuel - 1, by omega, by omega, by omega⟩

/-! ## Levels that collect operands -/

/-- Levels whose readers read one operand and go on from there. -/
def collects : Level → Bool
  | .or | .and | .sum | .product | .power | .primary => true
  | _ => false

/-- What goes on after a base: an exponent. -/
def powerRest (fuel : Nat) (base : Expr) : Reader Expr := do
  if ← eat (sym .power) then return .binary .pow base (← factor fuel) else return base

/-- The reader that goes on after the first operand of such a level. -/
def more : Level → Nat → Expr → Reader Expr
  | .or => orRest
  | .and => andRest
  | .sum => sumRest
  | .product => productRest
  | .power => powerRest
  | .primary => primaryRest
  | _ => fun _ e => pure e

/-- What goes on has nothing to go on with before a token that stops its level. -/
theorem more_stops {level : Level} (hc : collects level = true) :
    Accepts (more level (fuel + 1) e) [] (· = e) (Stops level) := by
  cases level with
  | or =>
    refine eat_bind_other ?_ (.pure rfl)
    rintro q hq rfl
    cases hq
  | and =>
    refine eat_bind_other ?_ (.pure rfl)
    rintro q hq rfl
    cases hq
  | sum =>
    refine next_bind_ahead (fun q hq => hq) fun t ht => ?_
    have hother : additive? t = none := by
      unfold additive?
      split <;> first | rfl | cases ht
    rw [hother]
    exact .pure rfl
  | product =>
    refine next_bind_ahead (fun q hq => hq) fun t ht => ?_
    have hother : multiplicative? t = none := by
      unfold multiplicative?
      split <;> first | rfl | cases ht
    rw [hother]
    exact .pure rfl
  | power =>
    refine eat_bind_other ?_ (.pure rfl)
    rintro q hq rfl
    cases hq
  | primary =>
    refine next_bind_ahead (fun q hq => hq) fun t ht => ?_
    split
    · cases ht
    · cases ht
    · cases ht
    · exact .pure rfl
  | _ => cases hc

/-- **What a level reads:** tokens that make an expression, with fuel that suffices. -/
def Reads (level : Level) (e : Expr) (ts : List Token) : Prop :=
  ∀ fuel, 24 * ts.length ≤ fuel + level.rank → Accepts (level.read fuel) ts (· = e) (Stops level)

/-- **What is read as a first operand:** tokens that make an expression, so that the reader that collects
operands goes on from there, with fuel that is more than enough for it. -/
def Collects (level : Level) (e : Expr) (ts : List Token) : Prop :=
  ∀ (fuel enough : Nat) (us : List Token) (x : Expr) (Q : Token → Prop),
    Ahead (Stops level.tighter) us Q →
    (∀ f, enough < f → Accepts (more level f e) us (· = x) Q) →
    enough + 24 * ts.length ≤ fuel + level.rank → Accepts (level.read fuel) (ts ++ us) (· = x) Q

/-- What collects operands stops before a token that does not go on. -/
theorem Collects.reads {level : Level} (hc : collects level = true) (h : Collects level e ts) :
    Reads level e ts := by
  intro fuel hfuel
  have hstop (f : Nat) (hf : 0 < f) : Accepts (more level f e) [] (· = e) (Stops level) := by
    obtain ⟨f, rfl⟩ := Nat.exists_eq_add_of_le' hf
    exact more_stops hc
  have hread := h fuel 0 [] e (Stops level) (fun q hq => hq.tighter) hstop (by omega)
  rwa [List.append_nil] at hread

/-- A base without an await is a primary. -/
theorem power_of_primary {t : Token} {us : List Token} {A : Expr → Prop} (hts : ts = t :: us)
    (ht : t.leads .primary = true) (h : Accepts (primary fuel >>= powerRest fuel) ts A Q) :
    Accepts (power (fuel + 1)) ts A Q := by
  refine eat_bind_other ?_ h
  rw [hts]
  rintro rfl
  cases ht

/-- **An operand of the next tighter level** is a first operand, if it does not start with a sign of the
level. -/
theorem collects_of_tighter {level : Level} (hc : collects level = true) {t : Token} {us : List Token}
    (hts : ts = t :: us) (ht : t.leads level.tighter = true) (h : Reads level.tighter e ts) :
    Collects level e ts := by
  intro fuel enough vs x Q hahead hmore hfuel
  have hlength : 0 < ts.length := hts ▸ Nat.zero_lt_succ _
  have hrank : level.tighter.rank = level.rank + 1 ∧ level.rank ≤ 9 := by
    cases level <;> first | decide | cases hc
  obtain ⟨fuel, rfl⟩ : ∃ f, fuel = f + 1 := Nat.exists_eq_add_of_le' (by omega)
  have hread : Accepts (level.tighter.read fuel >>= more level fuel) (ts ++ vs) (· = x) Q := by
    refine .bind_eq (h fuel (by omega)) ?_ hahead
    exact hmore fuel (by omega)
  cases level with
  | or => exact hread
  | and => exact hread
  | sum => exact hread
  | product => exact hread
  | power => exact power_of_primary (congrArg (· ++ vs) hts) ht hread
  | primary => exact hread
  | _ => cases hc

/-- **What goes on after a first operand:** tokens that make another first operand of it. -/
def Extends (level : Level) (l : Expr) (ops : List Token) (e : Expr) : Prop :=
  ∀ (fuel : Nat) (us : List Token) (x : Expr) (Q : Token → Prop), 24 * ops.length ≤ fuel →
    Ahead (Stops level.tighter) us Q → Accepts (more level fuel e) us (· = x) Q →
      Accepts (more level (fuel + 1) l) (ops ++ us) (· = x) Q

/-- A first operand with what goes on after it is one. -/
theorem Collects.extend {level : Level} {l : Expr} {t : Token} {ops : List Token}
    (hl : Collects level l ts) (ht : Stops level.tighter t) (h : Extends level l (t :: ops) e) :
    Collects level e (ts ++ t :: ops) := by
  intro fuel enough us x Q hahead hmore hfuel
  rw [List.length_append] at hfuel
  rw [List.append_assoc]
  refine hl fuel (enough + 24 * (t :: ops).length) (t :: ops ++ us) x Q ht ?_ (by omega)
  intro f hf
  obtain ⟨f, rfl⟩ := Nat.exists_eq_add_of_le' (Nat.zero_lt_of_lt hf)
  rw [List.length_cons] at hf
  exact h f us x Q (by rw [List.length_cons]; omega) hahead (hmore f (by omega))

/-! ## Other levels -/

theorem expression_of_or (hne : ts ≠ []) (h : Reads .or e ts) : Reads .conditional e ts := by
  intro fuel hfuel
  obtain ⟨fuel, rfl, hfuel, -⟩ := exists_succ_of_le hne hfuel
  refine .bind_nil_eq (h fuel hfuel) ?_ fun q hq => hq.tighter
  refine eat_bind_other ?_ (.pure rfl)
  rintro q hq rfl
  cases hq

theorem notTest_of_comparison {t : Token} {us : List Token} (hts : ts = t :: us)
    (ht : t.leads .comparison = true) (h : Reads .comparison e ts) : Reads .not e ts := by
  intro fuel hfuel
  obtain ⟨fuel, rfl, hfuel, -⟩ := exists_succ_of_le (hts ▸ List.cons_ne_nil t us) hfuel
  refine eat_bind_other ?_ ((h fuel hfuel).mono (fun _ he => he) fun q hq => hq.tighter)
  rw [hts]
  rintro rfl
  cases ht

theorem comparison?_of_stops {t : Token} (h : Stops .comparison t) (u : Token) :
    comparison? t u = none := by
  unfold comparison?
  split <;> first | rfl | cases h

theorem compared_of_stops : Accepts (compared (fuel + 1)) [] (· = []) (Stops .comparison) := by
  refine next_bind_ahead (fun q hq => hq) fun t ht => second_bind_any fun u => ?_
  rw [comparison?_of_stops ht u]
  exact .pure rfl

theorem comparison_of_sum (hne : ts ≠ []) (h : Reads .sum e ts) : Reads .comparison e ts := by
  intro fuel hfuel
  obtain ⟨fuel, rfl, hfuel, hpos⟩ := exists_succ_of_le hne hfuel
  refine .bind_nil_eq (h fuel hfuel) ?_ fun q hq => hq.tighter
  obtain ⟨fuel, rfl⟩ := Nat.exists_eq_add_of_le' hpos
  refine .bind_nil_eq compared_of_stops ?_ fun q hq => hq
  exact .pure rfl

theorem factor_of_power {t : Token} {us : List Token} (hts : ts = t :: us)
    (ht : t.leads .power = true) (h : Reads .power e ts) : Reads .sign e ts := by
  intro fuel hfuel
  obtain ⟨fuel, rfl, hfuel, -⟩ := exists_succ_of_le (hts ▸ List.cons_ne_nil t us) hfuel
  have hpower := (h fuel hfuel).mono (fun _ he => he) fun q (hq : Stops .sign q) => hq.tighter
  rw [hts] at hpower ⊢
  refine next_bind ?_
  split
  · cases ht
  · cases ht
  · exact hpower

/-- **A level reads what the next tighter level reads,** if that does not start with a sign of the looser
level. -/
theorem reads_of_tighter {level : Level} {t : Token} {us : List Token} (hts : ts = t :: us)
    (ht : t.leads level.tighter = true) (h : Reads level.tighter e ts) : Reads level e ts := by
  have hne : ts ≠ [] := hts ▸ List.cons_ne_nil t us
  cases level with
  | conditional => exact expression_of_or hne h
  | not => exact notTest_of_comparison hts ht h
  | comparison => exact comparison_of_sum hne h
  | sign => exact factor_of_power hts ht h
  | atom => exact h
  | or => exact (collects_of_tighter rfl hts ht h).reads rfl
  | and => exact (collects_of_tighter rfl hts ht h).reads rfl
  | sum => exact (collects_of_tighter rfl hts ht h).reads rfl
  | product => exact (collects_of_tighter rfl hts ht h).reads rfl
  | power => exact (collects_of_tighter rfl hts ht h).reads rfl
  | primary => exact (collects_of_tighter rfl hts ht h).reads rfl

/-- **A level reads what tighter levels read.** -/
theorem reads_of_rank_le {level level' : Level} {t : Token} {us : List Token} (hts : ts = t :: us)
    (ht : t.leads level' = true) (h : Reads level' e ts) (hle : level.rank ≤ level'.rank) :
    Reads level e ts := by
  induction hd : level'.rank - level.rank generalizing level with
  | zero =>
    cases Level.rank_injective (show level.rank = level'.rank by omega)
    exact h
  | succ d ih =>
    have hrank : level.tighter.rank = level.rank + 1 := by
      cases level <;> first | rfl | (cases level' <;> simp [Level.rank] at hd)
    have htighter : Reads level.tighter e ts := ih (by omega) (by omega)
    exact reads_of_tighter hts (Token.leads_of_rank_le ht (by omega)) htighter

end Reader

end Transcript.Lang
