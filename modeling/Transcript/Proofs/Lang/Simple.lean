import Transcript.Proofs.Lang.Grammar
import Transcript.Proofs.Lang.Suites

/-!
# Simple statements are read from their tokens

A statement without a block stands on a line. Its reader is chosen by its first token.

What stands before an equals sign is read as an expression first and turned into a target then, which gives
the target back that the expression was made of. Each other part of a simple statement is read as it is
spelled: expressions in full, names with commas or points between them.

Results:
* `eval_accepts`: an expression is read as a statement.
* `line_accepts`: a simple statement and the end of its line are read as one statement.
* `read_of_accepts`: a source is read as what its tokens make as a module.
* `toTarget_expr`: the expression of a target denotes the target.
* `simpleStatement_accepts`: a legible simple statement is read from its tokens.
-/

namespace Transcript.Lang.Reader

open Accepts

section

variable {full : Bool} {e : Expr} {ts : List Token} {a : Action} {Q : Token → Prop} {fuel : Nat}

/-- **An expression is read as a statement.** -/
theorem eval_accepts (he : Readable full e)
    (hfuel : 24 * (e.spellAt full .conditional).length + 1 < fuel) :
    Accepts (simpleStatement fuel) (e.spellAt full .conditional) (· = .eval e) (· = .newline) := by
  obtain ⟨fuel, rfl⟩ := Nat.exists_eq_add_of_le' (Nat.zero_lt_of_lt hfuel)
  have hstatement : Accepts (expressionStatement (fuel + 1)) (e.spellAt full .conditional) (· = .eval e)
      (· = .newline) := by
    refine peek_bind_any fun p => ?_
    refine .bind_nil_eq (expressions_accepts he ?_ (by omega)) ?_ fun q hq => hq
    · rintro q rfl
      exact ⟨rfl, nofun⟩
    · refine next_bind_ahead (fun q hq => hq) ?_
      rintro _ rfl
      refine .bind_nil_eq (a := []) (P := (· = .newline)) ?_ (.pure rfl) fun q hq => hq
      refine eat_bind_other ?_ (.pure rfl)
      rintro q rfl
      exact nofun
  obtain ⟨t, us, hspell, ht, -⟩ := he.starts_spellAt .conditional
  refine next_bind_ahead (P := (Token.leads .conditional · = true)) (by rw [hspell]; exact ht) fun t ht => ?_
  split <;> first | exact hstatement | cases ht

/-- **A simple statement stands on a line.** -/
theorem line_accepts (h : Accepts (simpleStatement fuel) ts (· = a) (· = .newline)) :
    Accepts (simpleStatements (fuel + 1)) (ts ++ [.newline]) (fun ss => ∃ line, ss = [.mk line a]) Q := by
  refine peek_bind_any fun p => .bind_eq h ?_ rfl
  refine eat_bind_other nofun ?_
  rw [if_neg Bool.false_ne_true, pure_bind]
  change Accepts (eat .newline >>= _) [.newline] _ Q
  exact eat_bind (at_bind_any fun isEnd => .pure ⟨p.line, rfl⟩)

/-- A statement that starts a block statement with none of the words that do. -/
theorem statement_of_simple {t : Token} {us : List Token} {A : List Stmt → Prop} (hts : ts = t :: us)
    (ht : ∀ k ∈ [Keyword.if, .while, .for, .try, .define, .async], t ≠ key k)
    (h : Accepts (simpleStatements fuel) ts A Q) : Accepts (statement (fuel + 1)) ts A Q := by
  rw [hts] at h ⊢
  refine peek_bind_any fun p => next_bind ?_
  split
  · exact absurd rfl (ht .if (by decide))
  · exact absurd rfl (ht .while (by decide))
  · exact absurd rfl (ht .for (by decide))
  · exact absurd rfl (ht .try (by decide))
  · exact absurd rfl (ht .define (by decide))
  · exact absurd rfl (ht .async (by decide))
  · exact h

/-! ## Modules -/

/-- What makes a module of tokens reads a source of them. -/
theorem read_of_accepts {ps : List Placed} {A : List Stmt → Prop} (hps : ps.map Placed.token = ts ++ [.eof])
    (h : Accepts (module (fuelFor ps.length)) ts A (· = .eof)) : ∃ body, A body ∧ read ps = .ok body := by
  obtain ⟨qs, rs, rfl, hqs, hrs⟩ := List.map_eq_append_iff.mp hps
  obtain ⟨q, rfl, hq⟩ := List.map_eq_singleton_iff.mp hrs
  obtain ⟨body, hbody, hread⟩ := h (qs ++ [q]) q [] ⟨qs, rfl, hqs⟩ hq
  refine ⟨body, hbody, ?_⟩
  change Prod.fst <$> module (fuelFor (qs ++ [q]).length) (qs ++ [q]) = _
  rw [hread]
  rfl

theorem module_nil : Accepts (module (fuel + 1)) [] (· = []) (· = .eof) :=
  at_bind (fun _ hq => hq) (.pure rfl)

/-- **A module is read** statement by statement. -/
theorem module_cons {t : Token} {vs us : List Token} {A B : List Stmt → Prop} {P : Token → Prop}
    (hts : ts = t :: vs) (ht : t ≠ .eof ∧ t ≠ .indent ∧ t ≠ .newline)
    (h : Accepts (statement fuel) ts A P)
    (hrest : ∀ here, A here → Accepts (module fuel) us (fun rest => B (here ++ rest)) (· = .eof))
    (hahead : Ahead P us (· = .eof)) : Accepts (module (fuel + 1)) (ts ++ us) B (· = .eof) := by
  obtain ⟨heof, hindent, hnewline⟩ := ht
  have hne {u : Token} (hu : t ≠ u) : Ahead (· ≠ u) (ts ++ us) (· = .eof) := by
    rw [hts]
    exact hu
  refine at_bind_other (hne heof) ?_
  rw [if_neg Bool.false_ne_true]
  refine at_bind_other (hne hindent) ?_
  dsimp only
  rw [if_neg Bool.false_ne_true]
  refine eat_bind_other (hne hnewline) ?_
  rw [if_neg Bool.false_ne_true]
  exact .bind h (fun here hhere => .bind_nil (hrest here hhere) (fun rest hb => .pure hb) fun q hq => hq) hahead

end

variable {e : Expr} {t : Target} {Q : Token → Prop} {fuel : Nat}

/-! ## Targets -/

mutual

/-- **The expression of a target denotes the target.** -/
theorem toTarget_expr : (t : Target) → toTarget t.expr = .ok t
  | .name _ => by rw [Target.expr, toTarget]
  | .subscript .. => by rw [Target.expr, toTarget]
  | .tuple items => by
    rw [Target.expr, toTarget, toTargets_exprs items]
    rfl

theorem toTargets_exprs : (ts : List Target) → toTargets (targetExprs ts) = .ok ts
  | [] => by rw [targetExprs, toTargets]
  | t :: ts => by
    rw [targetExprs, toTargets, toTarget_expr t, toTargets_exprs ts]
    rfl

end

theorem target_accepts (t : Target) (place : Nat) : Accepts (target t.expr place) [] (· = t) Q := by
  rw [target, toTarget_expr]
  exact .pure rfl

/-! ## Parts of simple statements -/

/-- What ends expressions: nothing goes on with them, and no comma makes a tuple. -/
def Ends (q : Token) : Prop := Stops .conditional q ∧ q ≠ sym .comma

theorem full_accepts (h : e.Legible) (hfuel : 24 * e.inFull.length < fuel) :
    Accepts (expressions fuel) e.inFull (· = e) Ends :=
  expressions_accepts (h.readable true) (fun _ hq => hq) hfuel

theorem fullExpression_accepts (h : e.Legible) (hfuel : 24 * e.inFull.length ≤ fuel) :
    Accepts (expression fuel) e.inFull (· = e) (Stops .conditional) :=
  (h.readable true).reads_spellAt .conditional fuel (Nat.le_add_right_of_le hfuel)

theorem ends_newline : Ends .newline := ⟨rfl, nofun⟩

/-- An expression in full starts with none of the tokens that start no expression. -/
theorem full_ahead (h : e.Legible) {t : Token} (ht : t.leads .conditional = false) (us : List Token) :
    Ahead (· ≠ t) (e.inFull ++ us) Q :=
  (h.readable true).ahead_ne ht us

theorem optionalExpressions_accepts {e? : Option Expr} (h : ∀ e ∈ e?, e.Legible)
    (hfuel : 24 * (afterTokens [] e?).length < fuel) :
    Accepts (optionalExpressions fuel) (afterTokens [] e?) (· = e?) (· = .newline) := by
  cases e? with
  | none =>
    refine next_bind_ahead (fun q hq => hq) ?_
    rintro _ rfl
    exact .pure rfl
  | some e =>
    obtain ⟨t, us, hspell, ht, -⟩ := (h e rfl).inFull_starts
    have hread := full_accepts (h e rfl) hfuel
    refine next_bind_ahead (P := (Token.leads .conditional · = true)) ?_ fun t ht => ?_
    · rw [afterTokens, List.nil_append, hspell]
      exact ht
    · have hsome : Accepts (do return some (← expressions fuel)) (afterTokens [] (some e)) (· = some e)
          (· = .newline) :=
        .bind_nil_eq hread (.pure rfl) fun q hq => hq ▸ ends_newline
      split <;> first | exact hsome | cases ht

theorem names_accepts {ns : List String} (hne : ns ≠ [])
    (hfuel : 24 * (commaSeparated (ns.map fun n => [.name n])).length < fuel) :
    Accepts (names fuel) (commaSeparated (ns.map fun n => [.name n])) (· = ns) (· = .newline) := by
  induction ns generalizing fuel with
  | nil => exact absurd rfl hne
  | cons n ns ih =>
    obtain ⟨fuel, rfl⟩ := Nat.exists_eq_add_of_le' (Nat.zero_lt_of_lt hfuel)
    rw [List.map_cons, commaSeparated_cons] at hfuel ⊢
    refine name_bind ?_
    cases ns with
    | nil =>
      refine eat_bind_other ?_ (.pure rfl)
      rintro q rfl
      exact nofun
    | cons n' ns =>
      refine eat_bind (.bind_nil_eq (ih (List.cons_ne_nil _ _) ?_) (.pure rfl) fun q hq => hq)
      have hlength : (commaTail ((n' :: ns).map fun n => [.name n])).length =
        (commaSeparated ((n' :: ns).map fun n => [.name n])).length + 1 := rfl
      rw [List.length_append, hlength] at hfuel
      omega

/-- The parts of a module name after the first are read one after the other. -/
theorem moduleName_accepts {ns : List String} (sofar : String) (hQ : ∀ q, Q q → q ≠ sym .dot)
    (hfuel : ns.length < fuel) :
    Accepts (moduleName fuel sofar) (ns.flatMap fun n => [sym .dot, .name n])
      (· = ns.foldl (fun m n => m ++ "." ++ n) sofar) Q := by
  induction ns generalizing fuel sofar with
  | nil =>
    obtain ⟨fuel, rfl⟩ := Nat.exists_eq_add_of_le' (Nat.zero_lt_of_lt hfuel)
    exact eat_bind_other hQ (.pure rfl)
  | cons n ns ih =>
    obtain ⟨fuel, rfl⟩ := Nat.exists_eq_add_of_le' (Nat.zero_lt_of_lt hfuel)
    exact eat_bind (name_bind (ih _ (Nat.lt_of_succ_lt_succ hfuel)))

/-- A new name may be left out. -/
theorem newName_bind {β : Type} {n? : Option String} {f : Option String → Reader β} {B : β → Prop}
    (hQ : ∀ q, Q q → q ≠ key .as) (hf : Accepts (f n?) [] B Q) :
    Accepts (eat (key .as) >>= fun here => if here then some <$> name >>= f else pure none >>= f)
      (newNameTokens n?) B Q := by
  cases n? with
  | none => exact none_bind hQ hf
  | some n => exact some_bind name_accepts hf hQ

/-- An expression behind a token may be left out. -/
theorem after_bind {β : Type} {u : Token} {us : List Token} {e? : Option Expr} {f : Option Expr → Reader β}
    {B : β → Prop} (h : ∀ e ∈ e?, e.Legible) (hfuel : 24 * (afterTokens [u] e?).length ≤ fuel)
    (hus : Ahead (fun q => Stops .conditional q ∧ q ≠ u) us Q) (hf : Accepts (f e?) us B Q) :
    Accepts (eat u >>= fun here => if here then some <$> expression fuel >>= f else pure none >>= f)
      (afterTokens [u] e? ++ us) B Q := by
  cases e? with
  | none => exact none_bind (hus.mono fun _ hq => hq.2) hf
  | some e =>
    rw [afterTokens, List.length_append] at hfuel
    exact some_bind (fullExpression_accepts (h e rfl) (by omega)) hf (hus.mono fun _ hq => hq.1)

/-! ## Assignments -/

/-- The sides of an assignment after the first one. -/
def sidesTokens (targets : List Target) (value : Expr) : List Token :=
  (targets.map Target.expr ++ [value]).flatMap fun e => sym .assign :: e.inFull

theorem assign_tokens (t : Target) (targets : List Target) (value : Expr) :
    (Action.assign (t :: targets) value).tokens = t.expr.inFull ++ sidesTokens targets value := by
  induction targets generalizing t with
  | nil => simp [Action.tokens, sidesTokens]
  | cons t' targets ih =>
    have hcons : (Action.assign (t :: t' :: targets) value).tokens =
        t.expr.inFull ++ sym .assign :: (Action.assign (t' :: targets) value).tokens := by
      simp [Action.tokens]
    rw [hcons, ih]
    rfl

/-- **The sides of an assignment are read** one after the other. -/
theorem sides_accepts {es : List Expr} (h : ∀ e ∈ es, e.Legible)
    (hfuel : 24 * (es.flatMap fun e => sym .assign :: e.inFull).length < fuel) :
    Accepts (sides fuel) (es.flatMap fun e => sym .assign :: e.inFull) (fun rest => rest.map Prod.fst = es)
      (· = .newline) := by
  induction es generalizing fuel with
  | nil =>
    obtain ⟨fuel, rfl⟩ := Nat.exists_eq_add_of_le' (Nat.zero_lt_of_lt hfuel)
    refine eat_bind_other ?_ (.pure rfl)
    rintro q rfl
    exact nofun
  | cons e es ih =>
    obtain ⟨fuel, rfl⟩ := Nat.exists_eq_add_of_le' (Nat.zero_lt_of_lt hfuel)
    obtain ⟨he, hes⟩ := List.forall_mem_cons.mp h
    simp only [List.flatMap_cons, List.length_append, List.length_cons] at hfuel
    rw [List.flatMap_cons]
    refine eat_bind (peek_bind_any fun p => .bind_eq (full_accepts he (by omega)) ?_ ?_)
    · refine .bind_nil (ih hes (by omega)) (fun rest hrest => .pure ?_) fun q hq => hq
      rw [List.map_cons, hrest]
    · cases es with
      | nil =>
        rintro q rfl
        exact ends_newline
      | cons e' es => exact ⟨rfl, nofun⟩

/-- The sides but the last one are targets. -/
theorem splitSides_accepts {targets : List Target} {value : Expr} {rest : List (Expr × Nat)} {place : Nat}
    (t : Target) (hrest : rest.map Prod.fst = targets.map Target.expr ++ [value]) :
    Accepts (splitSides (t.expr, place) rest) [] (· = (t :: targets, value)) Q := by
  induction rest generalizing t targets place with
  | nil => simp at hrest
  | cons side rest ih =>
    obtain ⟨e, start⟩ := side
    refine .bind_nil_eq (target_accepts t place) ?_ fun q hq => hq
    cases targets with
    | nil =>
      obtain ⟨rfl, hnil⟩ := List.cons.inj hrest
      obtain rfl := List.map_eq_nil_iff.mp hnil
      exact .bind_nil_eq (P := Q) (a := ([], e)) (.pure rfl) (.pure rfl) fun q hq => hq
    | cons t' targets =>
      obtain ⟨rfl, hmore⟩ := List.cons.inj hrest
      exact .bind_nil_eq (ih t' hmore) (.pure rfl) fun q hq => hq

theorem augmented?_assignToken {op : BinaryOp} (h : op ≠ .pow) : augmented? op.assignToken = some op := by
  cases op <;> first | rfl | exact absurd rfl h

/-- An equals sign goes on with no expression. -/
theorem ends_assignToken {op : BinaryOp} (h : op ≠ .pow) : Ends op.assignToken := by
  cases op <;> first | exact ⟨rfl, nofun⟩ | exact absurd rfl h

/-- A statement that starts with an expression. -/
theorem simple_of_expression {ts : List Token} {A : Action → Prop} (he : e.Legible)
    (h : Accepts (expressionStatement fuel) (e.inFull ++ ts) A Q) :
    Accepts (simpleStatement fuel) (e.inFull ++ ts) A Q := by
  obtain ⟨t, us, hspell, ht, -⟩ := he.inFull_starts
  refine next_bind_ahead (P := (Token.leads .conditional · = true)) (by rw [hspell]; exact ht) fun t ht => ?_
  split <;> first | exact h | cases ht

theorem assign_accepts {targets : List Target} {value : Expr} (ht : t.expr.Legible)
    (hts : ∀ t ∈ targets, t.expr.Legible) (hv : value.Legible)
    (hfuel : 24 * (t.expr.inFull ++ sidesTokens targets value).length < fuel) :
    Accepts (expressionStatement fuel) (t.expr.inFull ++ sidesTokens targets value)
      (· = .assign (t :: targets) value) (· = .newline) := by
  have hes : ∀ e ∈ targets.map Target.expr ++ [value], e.Legible :=
    List.forall_mem_append.mpr ⟨List.forall_mem_map.mpr hts, List.forall_mem_singleton.mpr hv⟩
  obtain ⟨us, hus⟩ : ∃ us, sidesTokens targets value = sym .assign :: us := by
    cases targets <;> exact ⟨_, rfl⟩
  rw [List.length_append] at hfuel
  refine peek_bind_any fun p => .bind_eq (full_accepts ht (by omega)) ?_ ?_
  · refine next_bind_ahead (P := (· = sym .assign)) (by rw [hus]; exact rfl) ?_
    rintro _ rfl
    refine .bind_nil (sides_accepts hes (by rw [sidesTokens] at hfuel; omega)) (fun rest hrest => ?_)
      fun q hq => hq
    have hsplit : Accepts (splitSides (t.expr, p.start) rest) [] (· = (t :: targets, value)) (· = .newline) :=
      splitSides_accepts t hrest
    cases rest with
    | nil => simp at hrest
    | cons side rest => exact .bind_nil_eq hsplit (.pure rfl) fun q hq => hq
  · rw [hus]
    exact ⟨rfl, nofun⟩

theorem augment_accepts {op : BinaryOp} {value : Expr} (ht : t.expr.Legible) (hone : ∀ ts, t ≠ .tuple ts)
    (hop : op ≠ .pow) (hv : value.Legible)
    (hfuel : 24 * (t.expr.inFull ++ op.assignToken :: value.inFull).length < fuel) :
    Accepts (expressionStatement fuel) (t.expr.inFull ++ op.assignToken :: value.inFull)
      (· = .augment t op value) (· = .newline) := by
  rw [List.length_append, List.length_cons] at hfuel
  refine peek_bind_any fun p => .bind_eq (full_accepts ht (by omega)) ?_ (ends_assignToken hop)
  refine next_bind ?_
  rw [augmented?_assignToken hop]
  have htarget : Accepts (target t.expr p.start) [] (· = t) (fun _ => True) := target_accepts t _
  refine skip_bind ?_
  rw [← List.nil_append value.inFull]
  refine .bind_eq htarget ?_ .any
  · have hvalue : Accepts (do return .augment t op (← expressions fuel)) value.inFull
        (· = Action.augment t op value) (· = .newline) :=
      .bind_nil_eq (full_accepts hv (by omega)) (.pure rfl) fun q hq => hq ▸ ends_newline
    cases t with
    | tuple ts => exact absurd rfl (hone ts)
    | name n => exact hvalue
    | subscript value index => exact hvalue

/-! ## Simple statements -/

/-- **A legible simple statement is read from its tokens.** -/
theorem simpleStatement_accepts {a : Action} (h : a.Simple) (hfuel : 24 * a.tokens.length + 1 < fuel) :
    Accepts (simpleStatement fuel) a.tokens (· = a) (· = .newline) := by
  cases h with
  | eval h => exact eval_accepts (h.readable true) hfuel
  | @assign targets value hne hts hv =>
    obtain ⟨t, targets, rfl⟩ := List.exists_cons_of_ne_nil hne
    obtain ⟨ht, hts⟩ := List.forall_mem_cons.mp hts
    rw [assign_tokens] at hfuel ⊢
    exact simple_of_expression ht (assign_accepts ht hts hv (by omega))
  | augment ht hone hop hv => exact simple_of_expression ht (augment_accepts ht hone hop hv (by
      rw [Action.tokens] at hfuel; omega))
  | @load m newName hm hn =>
    obtain ⟨n, ns, hname, hns, rfl⟩ := hm
    rw [Action.tokens, moduleParts_foldl hname hns, dotted_cons] at hfuel ⊢
    have hlength : ns.length ≤ (ns.flatMap fun n => [sym .dot, Token.name n]).length := by
      rw [List.length_flatMap]
      simp
      omega
    simp only [List.length_cons, List.length_append] at hfuel
    refine next_bind (skip_bind (name_bind (.bind_eq (moduleName_accepts n (Q := (· ≠ sym .dot))
      (fun _ hq => hq) (by omega)) ?_ ?_)))
    · refine newName_bind ?_ (.pure rfl)
      rintro q rfl
      decide
    · cases newName with
      | none =>
        rintro q rfl
        decide
      | some new => exact show key .as ≠ sym .dot by decide
  | raise h =>
    refine next_bind (skip_bind (.bind_nil_eq (optionalExpressions_accepts h ?_) (.pure rfl) fun q hq => hq))
    simp only [Action.tokens, List.length_cons] at hfuel
    omega
  | exit h =>
    refine next_bind (skip_bind (.bind_nil_eq (optionalExpressions_accepts h ?_) (.pure rfl) fun q hq => hq))
    simp only [Action.tokens, List.length_cons] at hfuel
    omega
  | @delete targets h =>
    have hlegible : (Target.tuple targets).expr.Legible := by
      rw [Target.expr, targetExprs_eq_map]
      exact .tuple (List.forall_mem_map.mpr h)
    simp only [Action.tokens, List.length_cons] at hfuel
    refine next_bind (skip_bind (peek_bind_any fun p => .bind_nil_eq (full_accepts hlegible (by omega)) ?_
      fun q hq => hq ▸ ends_newline))
    exact .bind_nil_eq (target_accepts _ _) (.pure rfl) fun q hq => hq
  | @assert test message ht hm =>
    simp only [Action.tokens, List.length_cons, List.length_append] at hfuel
    refine next_bind (skip_bind (.bind_eq (fullExpression_accepts ht (by omega)) ?_ ?_))
    · rw [← List.append_nil (afterTokens _ message)]
      refine after_bind hm (by omega) ?_ (.pure rfl)
      rintro q rfl
      exact ⟨rfl, by decide⟩
    · cases message with
      | none =>
        rintro q rfl
        exact rfl
      | some e => exact rfl
  | globals hne h =>
    refine next_bind (skip_bind (.bind_nil_eq (names_accepts hne ?_) (.pure rfl) fun q hq => hq))
    simp only [Action.tokens, List.length_cons] at hfuel
    omega
  | pass | leave | next => exact next_bind (skip_bind (.pure rfl))

end Transcript.Lang.Reader
