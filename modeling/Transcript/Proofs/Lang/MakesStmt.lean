import Transcript.Lang.Compile
import Transcript.Proofs.Lang.MakesExpr
import Transcript.Proofs.Lang.Rows

/-!
# Readers of statements make legible ones

What the readers of statements make of the tokens of a source without floating point numbers can be written
again. Blocks hold statements: on the line of their head, simple statements are read at least once, and a
deeper line starts with a token that a statement is read from.

Results:
* `simpleStatement_makes`: simple statements.
* `MakesStmt.all`: statements with blocks.
* `statements_legible`: the statements of a source are legible.
-/

namespace Transcript.Lang

/-! ## Targets -/

theorem toTarget_legible {e : Expr} {t : Target} (he : e.Legible) (h : Reader.toTarget e = .ok t) :
    t.expr.Legible := by
  have hall {es : List Expr} (ih : ∀ e ∈ es, ∀ t, Reader.toTarget e = .ok t → t.expr.Legible) {ts : List Target}
      (h : Reader.toTargets es = .ok ts) : ∀ t ∈ ts, t.expr.Legible := by
    induction es generalizing ts with
    | nil =>
      cases h
      exact nofun
    | cons e es ihs =>
      obtain ⟨hehead, hetail⟩ := List.forall_mem_cons.mp ih
      rw [Reader.toTargets] at h
      cases hhead : Reader.toTarget e with
      | error p =>
        rw [hhead] at h
        cases h
      | ok t =>
        cases htail : Reader.toTargets es with
        | error p =>
          rw [hhead, htail] at h
          cases h
        | ok ts =>
          rw [hhead, htail] at h
          cases h
          exact List.forall_mem_cons.mpr ⟨hehead t hhead, ihs hetail htail⟩
  have htuple {es : List Expr} (ih : ∀ e ∈ es, ∀ t, Reader.toTarget e = .ok t → t.expr.Legible) {t : Target}
      (h : (Reader.toTargets es).map Target.tuple = .ok t) : t.expr.Legible := by
    cases hts : Reader.toTargets es with
    | error p =>
      rw [hts] at h
      cases h
    | ok ts =>
      rw [hts] at h
      cases h
      rw [Target.expr, targetExprs_eq_map]
      exact .tuple (List.forall_mem_map.mpr (hall ih hts))
  induction he generalizing t with
  | name hn =>
    cases h
    exact .name hn
  | list h' ih => exact htuple (fun e he t => ih e he) h
  | tuple h' ih => exact htuple (fun e he t => ih e he) h
  | subscript he hi =>
    cases h
    exact .subscript he hi
  | sliced he hl hu =>
    cases h
    exact .sliced he hl hu
  | _ => cases h

namespace Reader

variable {fuel : Nat}

theorem target_makes {e : Expr} (he : e.Legible) (place : Nat) :
    Makes (target e place) fun t => t.expr.Legible := by
  unfold target
  split
  · rename_i t ht
    exact .pure (toTarget_legible he ht)
  · exact .failAt _ _

/-! ## Simple statements -/

theorem names_makes (fuel : Nat) : Makes (names fuel) fun ns => ns ≠ [] ∧ ∀ n ∈ ns, IsName n := by
  induction fuel with
  | zero => exact .spent
  | succ fuel ih =>
    refine .bind .name fun n hn => .bind (.eat _) fun b _ => ?_
    split
    · exact .bind ih fun ns hns => .pure ⟨List.cons_ne_nil n ns, List.forall_mem_cons.mpr ⟨hn, hns.2⟩⟩
    · exact .pure ⟨List.cons_ne_nil n [], List.forall_mem_singleton.mpr hn⟩

theorem moduleName_makes (fuel : Nat) {sofar : String} (h : IsModuleName sofar) :
    Makes (moduleName fuel sofar) IsModuleName := by
  induction fuel generalizing sofar with
  | zero => exact .spent
  | succ fuel ih =>
    refine .bind (.eat _) fun b _ => ?_
    split
    · refine .bind .name fun n hn => ih ?_
      obtain ⟨n', ns, hn', hns, rfl⟩ := h
      exact ⟨n', ns ++ [n], hn', List.forall_mem_append.mpr ⟨hns, List.forall_mem_singleton.mpr hn⟩, by
        rw [List.foldl_append]; rfl⟩
    · exact .pure h

theorem optionalExpressions_makes (fuel : Nat) :
    Makes (optionalExpressions fuel) fun e? => ∀ e ∈ e?, e.Legible := by
  have hsome : Makes (do return some (← expressions fuel)) fun e? => ∀ e ∈ e?, e.Legible :=
    .bind (MakesExpr.all fuel).expressions fun e he => .pure (by rintro _ ⟨⟩; exact he)
  refine .bind .next fun t _ => ?_
  split
  · exact .pure nofun
  · exact .pure nofun
  · exact .pure nofun
  · exact hsome

theorem sides_makes (fuel : Nat) : Makes (sides fuel) fun sides => ∀ side ∈ sides, side.1.Legible := by
  induction fuel with
  | zero => exact .spent
  | succ fuel ih =>
    refine .bind (.eat _) fun b _ => ?_
    split
    · refine .bind .peek fun p _ => .bind (MakesExpr.all fuel).expressions fun e he => .bind ih fun sides hs => ?_
      exact .pure (List.forall_mem_cons.mpr ⟨he, hs⟩)
    · exact .pure nofun

/-- The sides of an assignment: targets, at least one if there are two sides, and a value. -/
theorem splitSides_makes {first : Expr × Nat} {rest : List (Expr × Nat)} (hfirst : first.1.Legible)
    (hrest : ∀ side ∈ rest, side.1.Legible) :
    Makes (splitSides first rest) fun r =>
      (rest ≠ [] → r.1 ≠ []) ∧ (∀ t ∈ r.1, t.expr.Legible) ∧ r.2.Legible := by
  induction rest generalizing first with
  | nil => exact .pure ⟨fun h => absurd rfl h, nofun, hfirst⟩
  | cons second rest ih =>
    obtain ⟨hsecond, hrest⟩ := List.forall_mem_cons.mp hrest
    refine .bind (target_makes hfirst _) fun t ht => .bind (ih hsecond hrest) fun r hr => ?_
    exact .pure ⟨fun _ => List.cons_ne_nil _ _, List.forall_mem_cons.mpr ⟨ht, hr.2.1⟩, hr.2.2⟩

theorem augmented?_ne_pow {t : Token} {op : BinaryOp} (h : augmented? t = some op) : op ≠ .pow := by
  rintro rfl
  unfold augmented? at h
  split at h <;> cases h

theorem expressionStatement_makes (fuel : Nat) : Makes (expressionStatement fuel) Action.Simple := by
  have hexpressions := (MakesExpr.all fuel).expressions
  refine .bind .peek fun p _ => .bind hexpressions fun first hfirst => .bind .next fun t _ => ?_
  split
  · rename_i op hop
    refine .bind .skip fun _ _ => .bind (target_makes hfirst _) fun t ht => ?_
    split
    · exact .failAt _ _
    · rename_i hone
      exact .bind hexpressions fun value hv => .pure (.augment ht hone (augmented?_ne_pow hop) hv)
  · refine .bind (sides_makes fuel) fun rest hrest => ?_
    split
    · exact .pure (.eval hfirst)
    · rename_i hne
      exact .bind (splitSides_makes hfirst hrest) fun r hr => .pure (.assign (hr.1 hne) hr.2.1 hr.2.2)

/-- **Simple statements** are legible. -/
theorem simpleStatement_makes (fuel : Nat) : Makes (simpleStatement fuel) Action.Simple := by
  have hmakes := MakesExpr.all fuel
  refine .bind .next fun t _ => ?_
  split
  · exact .bind .skip fun _ _ => .pure .pass
  · exact .bind .skip fun _ _ => .pure .leave
  · exact .bind .skip fun _ _ => .pure .next
  · exact .bind .skip fun _ _ => .bind (optionalExpressions_makes fuel) fun e? he => .pure (.exit he)
  · exact .bind .skip fun _ _ => .bind (optionalExpressions_makes fuel) fun e? he => .pure (.raise he)
  · exact .bind .skip fun _ _ => .bind (names_makes fuel) fun ns hns => .pure (.globals hns.1 hns.2)
  · refine .bind .skip fun _ _ => .bind .name fun n hn => ?_
    refine .bind (moduleName_makes fuel ⟨n, [], hn, nofun, rfl⟩) fun m hm => .bind (.eat _) fun b _ => ?_
    dsimp only
    split
    · refine .bind (A := fun newName => ∀ n ∈ newName, IsName n) (.map .name fun n hn => ?_) fun newName hnew =>
        .pure (.load hm hnew)
      rintro _ ⟨⟩
      exact hn
    · exact .bind (A := (· = none)) (.pure rfl) fun newName hnew => .pure (.load hm (by rw [hnew]; exact nofun))
  · refine .bind .skip fun _ _ => .bind .peek fun p _ => .bind hmakes.expressions fun e he =>
      .bind (target_makes he _) fun t ht => ?_
    split
    · rename_i ts
      rw [Target.expr, targetExprs_eq_map] at ht
      cases ht with
      | tuple h => exact .pure (.delete (List.forall_mem_map.mp h))
    · exact .pure (.delete (List.forall_mem_singleton.mpr ht))
  · refine .bind .skip fun _ _ => .bind hmakes.expression fun test ht => .bind (.eat _) fun b _ => ?_
    dsimp only
    split
    · refine .bind (A := fun message => ∀ e ∈ message, e.Legible) (.map hmakes.expression fun e he => ?_)
        fun message hm => .pure (.assert ht hm)
      rintro _ ⟨⟩
      exact he
    · exact .bind (A := (· = none)) (.pure rfl) fun message hm => .pure (.assert ht (by rw [hm]; exact nofun))
  · exact expressionStatement_makes fuel

/-- A block that sources can write: legible statements, at least one. -/
def IsSuite (ss : List Stmt) : Prop := ss ≠ [] ∧ ∀ s ∈ ss, s.Legible

theorem simpleStatements_makes (fuel : Nat) : Makes (simpleStatements fuel) IsSuite := by
  induction fuel with
  | zero => exact .spent
  | succ fuel ih =>
    refine .bind .peek fun p _ => .bind (simpleStatement_makes fuel) fun a ha => .bind (.eat _) fun b _ => ?_
    have hhere (line : Nat) : (Stmt.mk line a).Legible := .simple ha
    have hends (ends : Bool) : Makes (do
        if !ends then return Stmt.mk p.line a :: (← simpleStatements fuel)
        if !(← eat .newline) && !(← at? .eof) then unexpected
        return [Stmt.mk p.line a]) IsSuite := by
      dsimp only
      split
      · exact .bind ih fun ss hss =>
          .pure ⟨List.cons_ne_nil _ _, List.forall_mem_cons.mpr ⟨hhere _, hss.2⟩⟩
      · have hone : IsSuite [.mk p.line a] := ⟨List.cons_ne_nil _ _, List.forall_mem_singleton.mpr (hhere _)⟩
        refine .bind (.eat _) fun b _ => .bind (.at? _) fun b' _ => ?_
        split
        · exact .bind (A := fun _ => False) .unexpected nofun
        · exact .pure hone
    dsimp only
    split
    · exact .bind (.at? _) fun b _ => hends b
    · exact .bind (A := fun _ => True) (.pure trivial) fun b _ => hends b

/-! ## Heads of blocks -/

theorem loopItems_makes (fuel : Nat) : Makes (loopItems fuel) fun r => ∀ e ∈ r.2, e.Legible := by
  induction fuel with
  | zero => exact .spent
  | succ fuel ih =>
    refine .bind (.eat _) fun b _ => ?_
    split
    · refine .bind (.at? _) fun b _ => ?_
      split
      · exact .pure nofun
      · exact .bind (MakesExpr.all fuel).primary fun e he => .bind ih fun r hr =>
          .pure (List.forall_mem_cons.mpr ⟨he, hr⟩)
    · exact .pure nofun

theorem loopTarget_makes (fuel : Nat) : Makes (loopTarget fuel) fun t => t.expr.Legible := by
  refine .bind .peek fun p _ => .bind (MakesExpr.all fuel).primary fun first hfirst =>
    .bind (loopItems_makes fuel) fun r hr => target_makes ?_ _
  split
  · exact .tuple (List.forall_mem_cons.mpr ⟨hfirst, hr⟩)
  · exact hfirst

/-- A parameter after others. -/
theorem params_append {ps : List Param} (hps : ParamsLegible ps) {n : String} {default? : Option Expr}
    (hn : IsName n) (hd : ∀ e ∈ default?, e.Legible)
    (horder : (default?.isNone && ps.any (·.default.isSome)) = false) : ParamsLegible (ps ++ [⟨n, default?⟩]) where
  names := List.forall_mem_append.mpr ⟨hps.names, List.forall_mem_singleton.mpr hn⟩
  defaults := List.forall_mem_append.mpr ⟨hps.defaults, List.forall_mem_singleton.mpr hd⟩
  order := by
    refine List.pairwise_append.mpr ⟨hps.order, List.pairwise_singleton _ _, fun p hp => ?_⟩
    refine List.forall_mem_singleton.mpr fun hsome => ?_
    cases default? with
    | some e => rfl
    | none =>
      rw [Option.isNone_none, Bool.true_and] at horder
      exact absurd hsome (List.any_eq_false.mp horder p hp)

theorem params_makes (fuel : Nat) {sofar : List Param} (h : ParamsLegible sofar) :
    Makes (params fuel sofar) ParamsLegible := by
  induction fuel generalizing sofar with
  | zero => exact .spent
  | succ fuel ih =>
    refine .bind (.at? _) fun b _ => ?_
    split
    · exact .pure h
    refine .bind .peek fun p _ => .bind .name fun n hn => .bind (.eat _) fun b _ => ?_
    have hrest {default? : Option Expr} (hd : ∀ e ∈ default?, e.Legible) : Makes (do
        if default?.isNone && sofar.any (·.default.isSome) then failAt p.start .defaultOrder
        let sofar := sofar ++ [⟨n, default?⟩]
        if ← eat (sym .comma) then params fuel sofar else return sofar) ParamsLegible := by
      dsimp only
      split
      · exact .bind (A := fun _ => False) (.failAt _ _) nofun
      · rename_i horder
        have hnow := params_append h hn hd (Bool.eq_false_iff.mpr horder)
        refine .bind (.eat _) fun b _ => ?_
        split
        · exact ih hnow
        · exact .pure hnow
    dsimp only
    split
    · refine .bind (A := fun default? => ∀ e ∈ default?, e.Legible)
        (.map (MakesExpr.all fuel).expression fun e he => ?_) fun default? hd => hrest hd
      rintro _ ⟨⟩
      exact he
    · refine .bind (A := (· = none)) (.pure rfl) fun default? hd => hrest ?_
      rw [hd]
      exact nofun

/-! ## Statements with blocks -/

/-- What a legible statement does. -/
def ActionLegible (a : Action) : Prop := ∀ line, (Stmt.mk line a).Legible

/-- Handlers that sources can write. -/
def HandlersLegible (hs : List Handler) : Prop :=
  ∀ h ∈ hs, HeadLegible h.kind h.name ∧ IsSuite h.body

/-- **The readers of statements make legible ones,** with so much fuel. -/
structure MakesStmt (fuel : Nat) : Prop where
  statement : Makes (statement fuel) IsSuite
  branch : Makes (branch fuel) ActionLegible
  guard : Makes (guard fuel) ActionLegible
  handlers : Makes (handlers fuel) HandlersLegible
  definition : ∀ isAsync, Makes (definition fuel isAsync) ActionLegible
  suite : Makes (suite fuel) IsSuite
  block : Makes (block fuel) fun ss => ∀ s ∈ ss, s.Legible
  begun : ∀ (p : Placed) (s : List Placed) (ss : List Stmt) (s' : List Placed), p.token.Writable →
    Lexed ((p :: s).map Placed.token) → Reader.block fuel (p :: s) = .ok (ss, s') → ss ≠ []

namespace MakesStmt

theorem statement_succ (h : MakesStmt fuel) : Makes (Reader.statement (fuel + 1)) IsSuite := by
  have hexpr := MakesExpr.all fuel
  have hone {s : Stmt} (hs : s.Legible) : IsSuite [s] := ⟨List.cons_ne_nil s [], List.forall_mem_singleton.mpr hs⟩
  refine .bind .peek fun p _ => .bind .next fun t _ => ?_
  split
  · exact .bind h.branch fun a ha => .pure (hone (ha _))
  · refine .bind .skip fun _ _ => .bind hexpr.expression fun test ht => .bind h.suite fun body hb => ?_
    exact .pure (hone (.loop ht hb.1 hb.2))
  · refine .bind .skip fun _ _ => .bind (loopTarget_makes fuel) fun target ht => .bind (.expect _) fun _ _ =>
      .bind hexpr.expressions fun items hi => .bind h.suite fun body hb => ?_
    exact .pure (hone (.each ht hi hb.1 hb.2))
  · exact .bind h.guard fun a ha => .pure (hone (ha _))
  · exact .bind (h.definition false) fun a ha => .pure (hone (ha _))
  · refine .bind .skip fun _ _ => .bind (.at? _) fun b _ => ?_
    dsimp only
    split
    · exact .bind (A := fun _ => False) .unexpected nofun
    · exact .bind (h.definition true) fun a ha => .pure (hone (ha _))
  · exact simpleStatements_makes fuel

theorem branch_succ (h : MakesStmt fuel) : Makes (Reader.branch (fuel + 1)) ActionLegible := by
  refine .bind .skip fun _ _ => .bind (MakesExpr.all fuel).expression fun test ht => .bind h.suite fun yes hy =>
    .bind (.at? _) fun b _ => ?_
  split
  · refine .bind .peek fun p _ => .bind h.branch fun a ha => .pure fun line => ?_
    exact .branch ht hy.1 hy.2 (List.forall_mem_singleton.mpr (ha _))
  · refine .bind (.eat _) fun b _ => ?_
    split
    · exact .bind h.suite fun no hn => .pure fun line => .branch ht hy.1 hy.2 hn.2
    · exact .pure fun line => .branch ht hy.1 hy.2 nofun

theorem guard_succ (h : MakesStmt fuel) : Makes (Reader.guard (fuel + 1)) ActionLegible := by
  refine .bind .skip fun _ _ => .bind h.suite fun body hb => .bind h.handlers fun hs hhs =>
    .bind (.eat _) fun b _ => ?_
  have hend {final : List Stmt} (hf : ∀ s ∈ final, s.Legible) : Makes (do
      if hs.isEmpty && final.isEmpty then failAt (← peek).start .missingHandler
      return .guard body hs final) ActionLegible := by
    dsimp only
    split
    · exact .bind .peek fun p _ => .bind (A := fun _ => False) (.failAt _ _) nofun
    · rename_i hany
      refine .pure fun line => .guard hb.1 hb.2 (fun h hh => (hhs h hh).1) (fun h hh => (hhs h hh).2.1)
        (fun h hh => (hhs h hh).2.2) hf ?_
      rw [Bool.and_eq_true, not_and_or] at hany
      exact hany.imp (fun hne heq => hne (List.isEmpty_iff.mpr heq)) fun hne heq => hne (List.isEmpty_iff.mpr heq)
  dsimp only
  split
  · exact .bind h.suite fun final hf => hend hf.2
  · exact .bind (A := (· = [])) (.pure rfl) fun final hf => hend (by rw [hf]; exact nofun)

theorem handlers_succ (h : MakesStmt fuel) : Makes (Reader.handlers (fuel + 1)) HandlersLegible := by
  have hrest {kind : Option Expr} {n : Option String} (hhead : HeadLegible kind n) : Makes (do
      let body ← Reader.suite fuel
      return Handler.mk kind n body :: (← Reader.handlers fuel)) HandlersLegible :=
    .bind h.suite fun body hb => .bind h.handlers fun hs hhs =>
      .pure (List.forall_mem_cons.mpr ⟨⟨hhead, hb⟩, hhs⟩)
  refine .bind (.eat _) fun b _ => ?_
  split
  · refine .bind (.at? _) fun b _ => ?_
    dsimp only
    split
    · exact .bind (A := (· = (none, none))) (.pure rfl) fun r hr => by
        rw [hr]
        exact hrest ⟨nofun, nofun, fun _ => rfl⟩
    · refine .bind (MakesExpr.all fuel).expression fun kind hk => .bind (.eat _) fun b _ => ?_
      have hkind {newName : Option String} (hnew : ∀ n ∈ newName, IsName n) : HeadLegible (some kind) newName :=
        ⟨by rintro _ ⟨⟩; exact hk, hnew, nofun⟩
      split
      · refine .bind (A := fun newName => ∀ n ∈ newName, IsName n) (.map .name fun n hn => ?_)
          fun newName hnew => ?_
        · rintro _ ⟨⟩
          exact hn
        · exact .bind (A := (· = (some kind, newName))) (.pure rfl) fun r hr => by
            rw [hr]
            exact hrest (hkind hnew)
      · refine .bind (A := (· = none)) (.pure rfl) fun newName hnew => ?_
        exact .bind (A := (· = (some kind, newName))) (.pure rfl) fun r hr => by
          rw [hr]
          exact hrest (hkind (by rw [hnew]; exact nofun))
  · exact .pure nofun

theorem definition_succ (h : MakesStmt fuel) (isAsync : Bool) :
    Makes (Reader.definition (fuel + 1) isAsync) ActionLegible := by
  refine .bind (.expect _) fun _ _ => .bind .name fun n hn => .bind (.expect _) fun _ _ =>
    .bind (params_makes fuel ⟨nofun, nofun, .nil⟩) fun ps hps => .bind (.expect _) fun _ _ =>
      .bind (.eat _) fun b _ => ?_
  have hrest : Makes (do
      let body ← Reader.suite fuel
      return Action.define (.mk n ps body isAsync)) ActionLegible :=
    .bind h.suite fun body hb => .pure fun line => .define hn hps hb.1 hb.2
  dsimp only
  split
  · exact .bind (A := fun _ => True) (.map (MakesExpr.all fuel).expression fun _ _ => trivial) fun _ _ => hrest
  · exact hrest

theorem block_succ (h : MakesStmt fuel) : Makes (Reader.block (fuel + 1)) fun ss => ∀ s ∈ ss, s.Legible := by
  refine .bind (.eat _) fun b _ => ?_
  split
  · exact .pure nofun
  refine .bind (.at? _) fun b _ => ?_
  split
  · exact .pure nofun
  · exact .bind h.statement fun here hhere => .bind h.block fun rest hrest =>
      .pure (List.forall_mem_append.mpr ⟨hhere.2, hrest⟩)

/-- A token that is not the next one. -/
theorem eat_other {t : Token} {p : Placed} (s : List Placed) (h : p.token ≠ t) :
    eat t (p :: s) = .ok (false, p :: s) := by
  change (if (p.token == t) = true then (skip >>= fun _ => pure true) else pure false : Reader Bool) (p :: s) = _
  rw [beq_false_of_ne h]
  rfl

/-- A block begins with a statement, if its first token is one that no block ends with. -/
theorem begun_succ (h : MakesStmt fuel) {p : Placed} {s s' : List Placed} {ss : List Stmt}
    (hp : p.token.Writable) (hs : Lexed ((p :: s).map Placed.token))
    (heq : Reader.block (fuel + 1) (p :: s) = .ok (ss, s')) : ss ≠ [] := by
  have hne {t : Token} (ht : ¬ t.Writable) : p.token ≠ t := fun heq => ht (heq ▸ hp)
  have hmore : Makes (do
      let here ← Reader.statement fuel
      return here ++ (← Reader.block fuel)) fun ss => ss ≠ [] :=
    .bind h.statement fun here hhere => .bind h.block fun rest _ =>
      .pure (List.append_ne_nil_of_left_ne_nil hhere.1 rest)
  have hblock : Reader.block (fuel + 1) (p :: s) = (do
      let here ← Reader.statement fuel
      return here ++ (← Reader.block fuel)) (p :: s) := by
    change (eat .dedent (p :: s) >>= fun r => _) = _
    rw [eat_other s (hne id)]
    change (if (p.token == .eof) = true then pure [] else _ : Reader (List Stmt)) (p :: s) = _
    rw [beq_false_of_ne (hne id)]
    rfl
  exact (hmore _ ss s' hs (hblock ▸ heq)).1

/-- **A block on deeper lines** holds statements. -/
theorem deeper_block (h : MakesStmt fuel) : Makes (do
    if !(← eat .indent) then failAt (← peek).start .missingBlock
    else Reader.block fuel) IsSuite := by
  have hlegible : Makes (do
      if !(← eat .indent) then failAt (← peek).start .missingBlock
      else Reader.block fuel) fun ss => ∀ s ∈ ss, s.Legible := by
    refine .bind (.eat _) fun b _ => ?_
    split
    · exact .bind .peek fun p _ => .failAt _ _
    · exact h.block
  intro s ss s' hs heq
  obtain ⟨hss, hs'⟩ := hlegible s ss s' hs heq
  refine ⟨⟨?_, hss⟩, hs'⟩
  cases s with
  | nil => cases heq
  | cons p s =>
    by_cases hp : p.token = .indent
    · rw [List.map_cons, hp] at hs
      cases s with
      | nil => nomatch hs
      | cons p' s =>
        have hp' : p'.token.Writable := by
          cases hs with
          | token ht _ => cases ht
          | indent ht _ => exact ht
        change (if (p.token == .indent) = true then _ else _ : Reader Bool) _ >>= (fun r => _) = _ at heq
        rw [beq_iff_eq.mpr hp] at heq
        exact h.begun p' s ss s' hp' hs.tail heq
    · change (eat .indent (p :: s) >>= fun r => _) = _ at heq
      rw [eat_other s hp] at heq
      cases heq

theorem suite_succ (h : MakesStmt fuel) : Makes (Reader.suite (fuel + 1)) IsSuite := by
  refine .bind (.expect _) fun _ _ => .bind (.eat _) fun b _ => ?_
  split
  · exact simpleStatements_makes fuel
  · exact h.deeper_block

/-- **The readers of statements make legible ones.** -/
theorem all (fuel : Nat) : MakesStmt fuel := by
  induction fuel with
  | zero => exact ⟨.spent, .spent, .spent, .spent, fun _ => .spent, .spent, .spent, fun _ _ _ _ _ _ heq => nomatch heq⟩
  | succ fuel ih =>
    exact ⟨ih.statement_succ, ih.branch_succ, ih.guard_succ, ih.handlers_succ, ih.definition_succ, ih.suite_succ,
      ih.block_succ, fun _ _ _ _ => ih.begun_succ⟩

end MakesStmt

theorem module_makes (fuel : Nat) : Makes (module fuel) fun ss => ∀ s ∈ ss, s.Legible := by
  induction fuel with
  | zero => exact .spent
  | succ fuel ih =>
    refine .bind (.at? _) fun b _ => ?_
    split
    · exact .pure nofun
    refine .bind (.at? _) fun b _ => ?_
    dsimp only
    split
    · exact .bind .peek fun p _ => .bind (A := fun _ => False) (.failAt _ _) nofun
    refine .bind (.eat _) fun b _ => ?_
    split
    · exact ih
    · exact .bind (MakesStmt.all fuel).statement fun here hhere => .bind ih fun rest hrest =>
        .pure (List.forall_mem_append.mpr ⟨hhere.2, hrest⟩)

end Reader

/-- **The statements of a source** without floating point numbers are legible. -/
theorem statements_legible {source : List Char} {filename : String} {ss : List Stmt}
    (hfloat : ∀ ps, tokens source = .ok ps → NoFloats (ps.map Placed.token))
    (h : statements source filename = .ok ss) : ∀ s ∈ ss, s.Legible := by
  unfold statements at h
  split at h
  · cases h
  · rename_i ps hps
    have hlexed := tokens_lexed hps (hfloat ps hps)
    dsimp only at h
    split at h
    · cases h
    · rename_i body hread
      cases h
      change Prod.fst <$> Reader.module (Reader.fuelFor ps.length) ps = _ at hread
      cases hmodule : Reader.module (Reader.fuelFor ps.length) ps with
      | error e =>
        rw [hmodule] at hread
        cases hread
      | ok r =>
        rw [hmodule] at hread
        cases hread
        exact (Reader.module_makes _ ps r.1 r.2 hlexed hmodule).1

end Transcript.Lang
