import Transcript.Lang.Reader
import Transcript.Proofs.Lang.Grammar
import Transcript.Proofs.Lang.Lexed

/-!
# Readers of expressions make legible ones

A reader makes results with a property of the tokens of a source. The property follows the way the reader
is written: there is one rule for each thing a reader does, and one for two readers that follow each other.

What the readers of expressions make of the tokens of a source without floating point numbers can be
written again. The proof is by induction on the fuel; one bundle says what holds of all readers.

Results:
* `Makes.bind`: one after the other, readers make what they make.
* `Makes.next`, `Makes.name`: the tokens of a source have texts, and its names are words.
* `MakesExpr.all`: the readers of expressions make legible ones.
-/

namespace Transcript.Lang.Reader

/-! ## Rules -/

/-- A token of a source without floating point numbers. -/
def OfSource (t : Token) : Prop := t.Writable ∨ t ∈ [.newline, .indent, .dedent, .eof]

theorem ofSource_of_mem {t : Token} {ts : List Token} (h : Lexed ts) (ht : t ∈ ts) : OfSource t := by
  induction h with
  | nil => cases ht
  | token hwritable _ ih =>
    rcases List.mem_cons.mp ht with rfl | ht
    · exact .inl hwritable
    · exact ih ht
  | newline _ ih | dedent _ ih | eof _ ih =>
    rcases List.mem_cons.mp ht with rfl | ht
    · exact .inr (by decide)
    · exact ih ht
  | indent hwritable _ ih =>
    rcases List.mem_cons.mp ht with rfl | ht
    · exact .inr (by decide)
    rcases List.mem_cons.mp ht with rfl | ht
    · exact .inl hwritable
    · exact ih ht

/-- **A reader makes results with a property** of lexed tokens, and leaves lexed tokens. -/
def Makes {α : Type} (x : Reader α) (A : α → Prop) : Prop :=
  ∀ s a s', Lexed (s.map Placed.token) → x s = .ok (a, s') → A a ∧ Lexed (s'.map Placed.token)

namespace Makes

variable {α β : Type} {x : Reader α} {f : α → Reader β} {A A' : α → Prop} {B : β → Prop}

theorem pure {a : α} (h : A a) : Makes (Pure.pure a) A := by
  intro s a' s' hs heq
  cases heq
  exact ⟨h, hs⟩

/-- **One after the other.** -/
theorem bind (hx : Makes x A) (hf : ∀ a, A a → Makes (f a) B) : Makes (x >>= f) B := by
  intro s b s' hs heq
  change (x s >>= fun r => f r.1 r.2) = _ at heq
  cases hxs : x s with
  | error e =>
    rw [hxs] at heq
    cases heq
  | ok r =>
    obtain ⟨a, mid⟩ := r
    rw [hxs] at heq
    obtain ⟨ha, hmid⟩ := hx s a mid hs hxs
    exact hf a ha mid b s' hmid heq

theorem map {f : α → β} (h : Makes x A) (hf : ∀ a, A a → B (f a)) : Makes (f <$> x) B :=
  bind h fun a ha => pure (hf a ha)

/-! ### Primitive readers -/

theorem failAt (place : Nat) (problem : ParseProblem) : Makes (Reader.failAt place problem) A := by
  intro s a s' hs heq
  cases heq

theorem peek : Makes peek fun _ => True := by
  intro s a s' hs heq
  cases heq
  exact ⟨trivial, hs⟩

theorem unexpected : Makes unexpected A := bind peek fun t _ => failAt t.start (.unexpected t.token)

theorem spent : Makes spent A := bind peek fun t _ => failAt t.start .tooDeep

/-- The next token is one of the source. -/
theorem next : Makes next OfSource := by
  intro s t s' hs heq
  cases heq
  refine ⟨?_, hs⟩
  cases s with
  | nil => exact .inr (by decide)
  | cons p s => exact ofSource_of_mem hs List.mem_cons_self

theorem second : Makes second fun _ => True := by
  intro s t s' hs heq
  rcases s with _ | ⟨p, _ | ⟨p', s⟩⟩ <;> cases heq <;> exact ⟨trivial, hs⟩

theorem skip : Makes skip fun _ => True := by
  intro s t s' hs heq
  rcases s with _ | ⟨p, _ | ⟨p', s⟩⟩
  · cases heq
    exact ⟨trivial, hs⟩
  · cases heq
    exact ⟨trivial, hs⟩
  · cases heq
    exact ⟨trivial, hs.tail⟩

theorem at? (t : Token) : Makes (at? t) fun _ => True := bind next fun _ _ => pure trivial

theorem eat (t : Token) : Makes (eat t) fun _ => True := by
  refine bind (at? t) fun b _ => ?_
  cases b with
  | true => exact bind skip fun _ _ => pure trivial
  | false => exact pure trivial

theorem expect (t : Token) : Makes (expect t) fun _ => True := by
  refine bind (eat t) fun b _ => ?_
  cases b with
  | true => exact pure trivial
  | false => exact unexpected

/-- **A name** is a word. -/
theorem name : Makes name IsName := by
  refine bind next fun t ht => ?_
  split
  · refine bind skip fun _ _ => pure ?_
    rcases ht with hname | hlayout
    · exact hname
    · simp at hlayout
  · exact unexpected

end Makes

/-- Names and literals of a source. -/
theorem OfSource.writable {t : Token} (h : OfSource t) (ht : t ∉ [.newline, .indent, .dedent, .eof]) :
    t.Writable := h.resolve_right ht

/-! ## Expressions -/

/-- Legible named arguments: with different names. -/
structure NamedLegible (named : List (String × Expr)) : Prop where
  /-- The names are words. -/
  names : ∀ arg ∈ named, IsName arg.1
  /-- They are different. -/
  distinct : (named.map Prod.fst).Nodup
  /-- The arguments are legible. -/
  legible : ∀ arg ∈ named, arg.2.Legible

/-- Legible items of a dictionary. -/
def PairsLegible (items : List (Expr × Expr)) : Prop := ∀ item ∈ items, item.1.Legible ∧ item.2.Legible

/-- A legible index: an expression or a slice. -/
def IndexLegible (e : Expr) : Prop :=
  e.Legible ∨ ∃ lower upper, e = .slice lower upper ∧ (∀ e ∈ lower, e.Legible) ∧ ∀ e ∈ upper, e.Legible

/-- **The readers of expressions make legible ones,** with so much fuel. -/
structure MakesExpr (fuel : Nat) : Prop where
  expression : Makes (expression fuel) Expr.Legible
  orTest : Makes (orTest fuel) Expr.Legible
  orRest : ∀ left : Expr, left.Legible → Makes (orRest fuel left) Expr.Legible
  andTest : Makes (andTest fuel) Expr.Legible
  andRest : ∀ left : Expr, left.Legible → Makes (andRest fuel left) Expr.Legible
  notTest : Makes (notTest fuel) Expr.Legible
  comparison : Makes (comparison fuel) Expr.Legible
  compared : Makes (compared fuel) fun rest => ∀ operand ∈ rest, operand.2.Legible
  sum : Makes (sum fuel) Expr.Legible
  sumRest : ∀ left : Expr, left.Legible → Makes (sumRest fuel left) Expr.Legible
  product : Makes (product fuel) Expr.Legible
  productRest : ∀ left : Expr, left.Legible → Makes (productRest fuel left) Expr.Legible
  factor : Makes (factor fuel) Expr.Legible
  power : Makes (power fuel) Expr.Legible
  primary : Makes (primary fuel) Expr.Legible
  primaryRest : ∀ e : Expr, e.Legible → Makes (primaryRest fuel e) Expr.Legible
  arguments : ∀ (args : List Expr) (named : List (String × Expr)), (∀ e ∈ args, e.Legible) → NamedLegible named →
    Makes (arguments fuel args named) fun r => (∀ e ∈ r.1, e.Legible) ∧ NamedLegible r.2
  index : Makes (index fuel) IndexLegible
  expressions : Makes (expressions fuel) Expr.Legible
  moreExpressions : Makes (moreExpressions fuel) fun es => ∀ e ∈ es, e.Legible
  items : ∀ (close : Symbol) (sofar : List Expr), (∀ e ∈ sofar, e.Legible) →
    Makes (items fuel close sofar) fun es => ∀ e ∈ es, e.Legible
  pairs : ∀ sofar : List (Expr × Expr), PairsLegible sofar → Makes (pairs fuel sofar) PairsLegible
  atom : Makes (atom fuel) Expr.Legible

namespace MakesExpr

variable {fuel : Nat}

theorem expression_succ (h : MakesExpr fuel) : Makes (Reader.expression (fuel + 1)) Expr.Legible := by
  refine .bind h.orTest fun yes hyes => .bind (.eat _) fun b _ => ?_
  split
  · exact .pure hyes
  · refine .bind h.orTest fun test htest => .bind (.expect _) fun _ _ => .bind h.expression fun no hno => ?_
    exact .pure (.conditional htest hyes hno)

theorem orRest_succ (h : MakesExpr fuel) {left : Expr} (hleft : left.Legible) :
    Makes (Reader.orRest (fuel + 1) left) Expr.Legible := by
  refine .bind (.eat _) fun b _ => ?_
  split
  · exact .bind h.andTest fun e he => h.orRest _ (.logic hleft he)
  · exact .pure hleft

theorem andRest_succ (h : MakesExpr fuel) {left : Expr} (hleft : left.Legible) :
    Makes (Reader.andRest (fuel + 1) left) Expr.Legible := by
  refine .bind (.eat _) fun b _ => ?_
  split
  · exact .bind h.notTest fun e he => h.andRest _ (.logic hleft he)
  · exact .pure hleft

theorem notTest_succ (h : MakesExpr fuel) : Makes (Reader.notTest (fuel + 1)) Expr.Legible := by
  refine .bind (.eat _) fun b _ => ?_
  split
  · exact .bind h.notTest fun e he => .pure (.unary he)
  · exact h.comparison

theorem comparison_succ (h : MakesExpr fuel) : Makes (Reader.comparison (fuel + 1)) Expr.Legible := by
  refine .bind h.sum fun first hfirst => .bind h.compared fun rest hrest => ?_
  split
  · exact .pure hfirst
  · rename_i hne
    exact .pure (.compare hfirst hne hrest)

theorem compared_succ (h : MakesExpr fuel) :
    Makes (Reader.compared (fuel + 1)) fun rest => ∀ operand ∈ rest, operand.2.Legible := by
  refine .bind .next fun t _ => .bind .second fun u _ => ?_
  split
  · exact .pure nofun
  · rename_i op n _
    have hoperand : Makes (do
        let e ← Reader.sum fuel
        return (op, e) :: (← Reader.compared fuel)) fun rest => ∀ operand ∈ rest, operand.2.Legible :=
      .bind h.sum fun e he => .bind h.compared fun rest hrest => .pure (List.forall_mem_cons.mpr ⟨he, hrest⟩)
    refine .bind .skip fun _ _ => ?_
    split
    · exact .bind .skip fun _ _ => hoperand
    · exact hoperand

theorem sumRest_succ (h : MakesExpr fuel) {left : Expr} (hleft : left.Legible) :
    Makes (Reader.sumRest (fuel + 1) left) Expr.Legible := by
  refine .bind .next fun t _ => ?_
  split
  · exact .bind .skip fun _ _ => .bind h.product fun e he => h.sumRest _ (.binary hleft he)
  · exact .pure hleft

theorem productRest_succ (h : MakesExpr fuel) {left : Expr} (hleft : left.Legible) :
    Makes (Reader.productRest (fuel + 1) left) Expr.Legible := by
  refine .bind .next fun t _ => ?_
  split
  · exact .bind .skip fun _ _ => .bind h.factor fun e he => h.productRest _ (.binary hleft he)
  · exact .pure hleft

theorem factor_succ (h : MakesExpr fuel) : Makes (Reader.factor (fuel + 1)) Expr.Legible := by
  refine .bind .next fun t _ => ?_
  split
  · exact .bind .skip fun _ _ => .bind h.factor fun e he => .pure (.unary he)
  · exact .bind .skip fun _ _ => .bind h.factor fun e he => .pure (.unary he)
  · exact h.power

theorem power_succ (h : MakesExpr fuel) : Makes (Reader.power (fuel + 1)) Expr.Legible := by
  have hrest {base : Expr} (hbase : base.Legible) : Makes (do
      if ← Reader.eat (sym .power) then return .binary .pow base (← Reader.factor fuel)
      else return base) Expr.Legible := by
    refine .bind (.eat _) fun b _ => ?_
    split
    · exact .bind h.factor fun e he => .pure (.binary hbase he)
    · exact .pure hbase
  refine .bind (.eat _) fun b _ => ?_
  split
  · exact .bind (.map h.primary fun e he => .await he) fun base hbase => hrest hbase
  · exact .bind h.primary fun base hbase => hrest hbase

/-! ### Primaries -/

theorem subscript_legible {e index : Expr} (he : e.Legible) (h : IndexLegible index) :
    (Expr.subscript e index).Legible := by
  rcases h with h | ⟨lower, upper, rfl, hlower, hupper⟩
  · exact .subscript he h
  · exact .sliced he hlower hupper

theorem primaryRest_succ (h : MakesExpr fuel) {e : Expr} (he : e.Legible) :
    Makes (Reader.primaryRest (fuel + 1) e) Expr.Legible := by
  refine .bind .next fun t _ => ?_
  split
  · exact .bind .skip fun _ _ => .bind .name fun n hn => h.primaryRest _ (.attribute he hn)
  · refine .bind .skip fun _ _ => .bind (h.arguments [] [] nofun ⟨nofun, .nil, nofun⟩) fun r hr => ?_
    exact h.primaryRest _ (.call he hr.1 hr.2.names hr.2.distinct hr.2.legible)
  · refine .bind .skip fun _ _ => .bind h.index fun index hindex => .bind (.expect _) fun _ _ => ?_
    exact h.primaryRest _ (subscript_legible he hindex)
  · exact .pure he

/-- A named argument with a new name. -/
theorem named_append {named : List (String × Expr)} (hnamed : NamedLegible named) {n : String} {e : Expr}
    (hn : IsName n) (he : e.Legible) (hnew : named.any (·.1 == n) = false) :
    NamedLegible (named ++ [(n, e)]) where
  names := List.forall_mem_append.mpr ⟨hnamed.names, List.forall_mem_singleton.mpr hn⟩
  distinct := by
    rw [List.map_append]
    refine List.nodup_append.mpr ⟨hnamed.distinct, List.pairwise_singleton _ n, ?_⟩
    refine List.forall_mem_map.mpr fun arg harg => List.forall_mem_singleton.mpr ?_
    exact fun heq => List.any_eq_false.mp hnew arg harg (beq_iff_eq.mpr heq)
  legible := List.forall_mem_append.mpr ⟨hnamed.legible, List.forall_mem_singleton.mpr he⟩

theorem arguments_succ (h : MakesExpr fuel) {args : List Expr} {named : List (String × Expr)}
    (hargs : ∀ e ∈ args, e.Legible) (hnamed : NamedLegible named) :
    Makes (Reader.arguments (fuel + 1) args named) fun r => (∀ e ∈ r.1, e.Legible) ∧ NamedLegible r.2 := by
  have hrest {args : List Expr} {named : List (String × Expr)} (hargs : ∀ e ∈ args, e.Legible)
      (hnamed : NamedLegible named) : Makes (do
        if ← Reader.eat (sym .comma) then Reader.arguments fuel args named
        else do
          Reader.expect (sym .closeParen)
          return (args, named)) fun r => (∀ e ∈ r.1, e.Legible) ∧ NamedLegible r.2 := by
    refine .bind (.eat _) fun b _ => ?_
    split
    · exact h.arguments _ _ hargs hnamed
    · exact .bind (.expect _) fun _ _ => .pure ⟨hargs, hnamed⟩
  refine .bind (.eat _) fun b _ => ?_
  split
  · exact .pure ⟨hargs, hnamed⟩
  refine .bind .peek fun p _ => .bind .next fun t ht => .bind .second fun u _ => ?_
  dsimp only
  split
  · rename_i n
    refine .bind .skip fun _ _ => .bind .skip fun _ _ => ?_
    split
    · exact .bind (A := fun _ => False) (.failAt _ _) nofun
    · rename_i hnew
      have hn : IsName n := ht.writable (by simp)
      refine .bind h.expression fun e he => ?_
      exact hrest hargs (named_append hnamed hn he (Bool.eq_false_iff.mpr hnew))
  · split
    · exact .bind (A := fun _ => False) (.failAt _ _) nofun
    · refine .bind h.expression fun e he => ?_
      exact hrest (List.forall_mem_append.mpr ⟨hargs, List.forall_mem_singleton.mpr he⟩) hnamed

theorem index_succ (h : MakesExpr fuel) : Makes (Reader.index (fuel + 1)) IndexLegible := by
  have hupper {lower : Option Expr} (hlower : ∀ e ∈ lower, e.Legible) :
      Makes (afterLower fuel lower) IndexLegible := by
    refine .bind (.eat _) fun b _ => ?_
    split
    · refine .bind (.at? _) fun b _ => ?_
      dsimp only
      split
      · exact .bind (A := (· = none)) (.pure rfl) fun upper hupper =>
          .pure (.inr ⟨lower, upper, rfl, hlower, by rw [hupper]; exact nofun⟩)
      · refine .bind (A := fun upper => ∀ e ∈ upper, e.Legible) (.map h.expression fun e he => ?_)
          fun upper hupper => .pure (.inr ⟨lower, upper, rfl, hlower, hupper⟩)
        rintro _ ⟨⟩
        exact he
    · split
      · exact .pure (.inl (hlower _ rfl))
      · exact .unexpected
  refine .bind (.at? _) fun b _ => ?_
  dsimp only
  split
  · refine .bind (A := (· = none)) (.pure rfl) fun lower hlower => hupper ?_
    rw [hlower]
    exact nofun
  · refine .bind (A := fun lower => ∀ e ∈ lower, e.Legible) (.map h.expressions fun e he => ?_)
      fun lower hlower => hupper hlower
    rintro _ ⟨⟩
    exact he

theorem expressions_succ (h : MakesExpr fuel) : Makes (Reader.expressions (fuel + 1)) Expr.Legible := by
  refine .bind h.expression fun first hfirst => .bind (.at? _) fun b _ => ?_
  split
  · exact .bind h.moreExpressions fun es hes => .pure (.tuple (List.forall_mem_cons.mpr ⟨hfirst, hes⟩))
  · exact .pure hfirst

theorem moreExpressions_succ (h : MakesExpr fuel) :
    Makes (Reader.moreExpressions (fuel + 1)) fun es => ∀ e ∈ es, e.Legible := by
  refine .bind (.eat _) fun b _ => ?_
  split
  · refine .bind .next fun t _ => ?_
    split
    · refine .bind h.expression fun e he => .bind h.moreExpressions fun es hes => ?_
      exact .pure (List.forall_mem_cons.mpr ⟨he, hes⟩)
    · exact .pure nofun
  · exact .pure nofun

/-! ### Brackets and literals -/

theorem items_succ (h : MakesExpr fuel) (close : Symbol) {sofar : List Expr} (hsofar : ∀ e ∈ sofar, e.Legible) :
    Makes (Reader.items (fuel + 1) close sofar) fun es => ∀ e ∈ es, e.Legible := by
  refine .bind (.at? _) fun b _ => ?_
  split
  · exact .pure hsofar
  refine .bind h.expression fun e he => .bind (.eat _) fun b _ => ?_
  have hnow := List.forall_mem_append.mpr ⟨hsofar, List.forall_mem_singleton.mpr he⟩
  split
  · exact h.items close _ hnow
  · exact .pure hnow

theorem pairs_succ (h : MakesExpr fuel) {sofar : List (Expr × Expr)} (hsofar : PairsLegible sofar) :
    Makes (Reader.pairs (fuel + 1) sofar) PairsLegible := by
  refine .bind (.at? _) fun b _ => ?_
  split
  · exact .pure hsofar
  refine .bind h.expression fun k hk => .bind (.expect _) fun _ _ => .bind h.expression fun v hv =>
    .bind (.eat _) fun b _ => ?_
  have hnow : PairsLegible (sofar ++ [(k, v)]) :=
    List.forall_mem_append.mpr ⟨hsofar, List.forall_mem_singleton.mpr ⟨hk, hv⟩⟩
  split
  · exact h.pairs _ hnow
  · exact .pure hnow

/-- Text literals behind a text literal make a text. -/
theorem moreText_makes (fuel : Nat) (s : List Char) : Makes (moreText fuel s) fun _ => True := by
  induction fuel generalizing s with
  | zero => exact .pure trivial
  | succ fuel ih =>
    refine .bind .next fun t _ => ?_
    split
    · exact .bind .skip fun _ _ => ih _
    · exact .pure trivial

/-- Bytes literals behind ASCII bytes make ASCII bytes. -/
theorem moreBytes_makes (fuel : Nat) {b : List UInt8} (hb : ∀ x ∈ b, x.toNat < 128) :
    Makes (moreBytes fuel b) fun b => ∀ x ∈ b, x.toNat < 128 := by
  induction fuel generalizing b with
  | zero => exact .pure hb
  | succ fuel ih =>
    refine .bind .next fun t ht => ?_
    split
    · have hascii : Token.Writable (.bytes _) := ht.writable (by simp)
      exact .bind .skip fun _ _ => ih (List.forall_mem_append.mpr ⟨hb, hascii⟩)
    · exact .pure hb

theorem atom_succ (h : MakesExpr fuel) : Makes (Reader.atom (fuel + 1)) Expr.Legible := by
  refine .bind .next fun t ht => ?_
  cases t with
  | name n => exact .bind .skip fun _ _ => .pure (.name (ht.writable (by simp)))
  | int n =>
    have hn : Token.Writable (.int n) := ht.writable (by simp)
    exact .bind .skip fun _ _ => .pure (.constant hn)
  | float d => exact absurd (ht.writable (by simp)) id
  | str s => exact .bind .skip fun _ _ => .bind (moreText_makes fuel _) fun s _ => .pure (.constant trivial)
  | bytes b =>
    have hascii : Token.Writable (.bytes b) := ht.writable (by simp)
    exact .bind .skip fun _ _ => .bind (moreBytes_makes fuel hascii) fun b hb => .pure (.constant hb)
  | keyword k =>
    cases k with
    | true | false | none => exact .bind .skip fun _ _ => .pure (.constant trivial)
    | _ => exact .unexpected
  | symbol s =>
    cases s with
    | openParen =>
      refine .bind .skip fun _ _ => .bind (.eat _) fun b _ => ?_
      split
      · exact .pure (.tuple nofun)
      refine .bind h.expression fun first hfirst => .bind (.eat _) fun b _ => ?_
      split
      · exact .pure hfirst
      have hall {all : List Expr} (hitems : ∀ e ∈ all, e.Legible) : Makes (do
          Reader.expect (sym .closeParen)
          return Expr.tuple all) Expr.Legible := .bind (.expect _) fun _ _ => .pure (.tuple hitems)
      refine .bind (.eat _) fun b _ => ?_
      dsimp only
      split
      · exact .bind (h.items _ _ (List.forall_mem_singleton.mpr hfirst)) fun all hitems => hall hitems
      · exact .bind (A := (· = [first])) (.pure rfl) fun all heq =>
          hall (by rw [heq]; exact List.forall_mem_singleton.mpr hfirst)
    | openBracket =>
      refine .bind .skip fun _ _ => .bind (h.items _ _ nofun) fun all hall => .bind (.expect _) fun _ _ => ?_
      exact .pure (.list hall)
    | openBrace =>
      refine .bind .skip fun _ _ => .bind (h.pairs _ nofun) fun all hall => .bind (.expect _) fun _ _ => ?_
      exact .pure (.dict (fun item hi => (hall item hi).1) fun item hi => (hall item hi).2)
    | _ => exact .unexpected
  | newline | indent | dedent | eof => exact .unexpected

/-! ### All of them -/

/-- **The readers of expressions make legible ones.** -/
theorem all (fuel : Nat) : MakesExpr fuel := by
  induction fuel with
  | zero =>
    exact ⟨.spent, .spent, fun _ _ => .spent, .spent, fun _ _ => .spent, .spent, .spent, .spent, .spent,
      fun _ _ => .spent, .spent, fun _ _ => .spent, .spent, .spent, .spent, fun _ _ => .spent,
      fun _ _ _ _ => .spent, .spent, .spent, .spent, fun _ _ _ => .spent, fun _ _ => .spent, .spent⟩
  | succ fuel ih =>
    exact {
      expression := ih.expression_succ
      orTest := .bind ih.andTest fun e he => ih.orRest e he
      orRest := fun _ => ih.orRest_succ
      andTest := .bind ih.notTest fun e he => ih.andRest e he
      andRest := fun _ => ih.andRest_succ
      notTest := ih.notTest_succ
      comparison := ih.comparison_succ
      compared := ih.compared_succ
      sum := .bind ih.product fun e he => ih.sumRest e he
      sumRest := fun _ => ih.sumRest_succ
      product := .bind ih.factor fun e he => ih.productRest e he
      productRest := fun _ => ih.productRest_succ
      factor := ih.factor_succ
      power := ih.power_succ
      primary := .bind ih.atom fun e he => ih.primaryRest e he
      primaryRest := fun _ => ih.primaryRest_succ
      arguments := fun _ _ => ih.arguments_succ
      index := ih.index_succ
      expressions := ih.expressions_succ
      moreExpressions := ih.moreExpressions_succ
      items := fun close _ => ih.items_succ close
      pairs := fun _ => ih.pairs_succ
      atom := ih.atom_succ }

end MakesExpr

end Transcript.Lang.Reader
