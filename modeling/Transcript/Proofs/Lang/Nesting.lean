import Transcript.Proofs.Lang.Simple

/-!
# Statements with blocks are read from their tokens

A line of its own is a simple statement or the head of a block. What a head says besides expressions is the
target of a loop, the parameters of a function, or what a handler is for.

A block ends with the token that closes it, so what is read for a statement does not depend on what follows
it, but for words that go on with it: another branch, a handler or an end. The statements that are read are
those that the tokens were made of, but for their lines, which are those of the tokens.

Results:
* `simpleLine_accepts`: a legible simple statement is read from its line.
* `loopTarget_accepts`, `params_accepts`, `handlerHead_accepts`: what heads say is read back.
* `Stmt.Legible.read`: a legible statement is read from its tokens.
* `module_accepts_block`: legible statements are read as a module.
-/

namespace Transcript.Lang.Reader

open Accepts

variable {fuel : Nat} {Q : Token → Prop}

/-! ## Simple statements -/

/-- Whether a statement may start with a token. -/
def startsStatement (t : Token) : Bool :=
  t.startsSimple || [key .if, key .while, key .for, key .try, key .define, key .async].contains t

theorem startsStatement_of_simple {t : Token} (h : t.startsSimple = true) : startsStatement t = true := by
  rw [startsStatement, h, Bool.true_or]

theorem ne_of_startsStatement {t u : Token} (ht : startsStatement t = true) (hu : startsStatement u = false) :
    t ≠ u := by
  rintro rfl
  exact Bool.false_ne_true (hu.symm.trans ht)

/-- **A legible simple statement is read** from its line. -/
theorem simpleLine_accepts {a : Action} (h : a.Simple) (hfuel : 24 * (a.tokens ++ [Token.newline]).length ≤ fuel) :
    Accepts (statement fuel) (a.tokens ++ [.newline]) (fun ss => ∃ line, ss = [.mk line a]) Q := by
  obtain ⟨t, us, htokens, ht⟩ := h.starts
  rw [List.length_append, List.length_singleton] at hfuel
  obtain ⟨fuel, rfl⟩ : ∃ f, fuel = f + 2 := Nat.exists_eq_add_of_le' (by omega)
  have hline : a.tokens ++ [.newline] = t :: (us ++ [.newline]) := by rw [htokens]; rfl
  refine statement_of_simple hline ?_ (line_accepts (simpleStatement_accepts h (by omega)))
  rintro k hk rfl
  have hall : ∀ k ∈ [Keyword.if, .while, .for, .try, .define, .async], (key k).startsSimple = false := by decide
  exact Bool.false_ne_true ((hall k hk).symm.trans ht)

/-! ## Heads -/

/-- **The target of a loop** is read as a primary. -/
theorem loopTarget_accepts {t : Target} (h : t.expr.Legible) (hfuel : 24 * t.expr.inFull.length < fuel) :
    Accepts (loopTarget fuel) t.expr.inFull (· = t) (· = key .in) := by
  have hread : Accepts (primary fuel) t.expr.inFull (· = t.expr) (Stops .primary) :=
    (h.readable true).reads_spellAt .primary fuel (by
      have hsame : t.expr.spellAt true .primary = t.expr.inFull := rfl
      rw [hsame]
      omega)
  have hitems : Accepts (loopItems fuel) [] (· = (false, [])) (· = key .in) := by
    obtain ⟨fuel, rfl⟩ := Nat.exists_eq_add_of_le' (Nat.zero_lt_of_lt hfuel)
    refine eat_bind_other ?_ (.pure rfl)
    rintro q rfl
    exact nofun
  refine peek_bind_any fun p => .bind_nil_eq hread ?_ fun q hq => hq ▸ rfl
  exact .bind_nil_eq hitems (target_accepts t _) fun q hq => hq

/-- **The parameters of a function** are read one after the other. -/
theorem params_accepts {ps sofar : List Param} (h : ParamsLegible (sofar ++ ps))
    (hfuel : 24 * (commaSeparated (ps.map Param.tokens)).length < fuel) :
    Accepts (params fuel sofar) (commaSeparated (ps.map Param.tokens)) (· = sofar ++ ps)
      (· = sym .closeParen) := by
  induction ps generalizing sofar fuel with
  | nil =>
    obtain ⟨fuel, rfl⟩ := Nat.exists_eq_add_of_le' (Nat.zero_lt_of_lt hfuel)
    exact at_bind (fun _ hq => hq) (.pure (List.append_nil _).symm)
  | cons p ps ih =>
    obtain ⟨fuel, rfl⟩ := Nat.exists_eq_add_of_le' (Nat.zero_lt_of_lt hfuel)
    obtain ⟨n, default?⟩ := p
    have hdefault : ∀ e ∈ default?, e.Legible := h.defaults ⟨n, default?⟩ (by simp)
    have hcondition : ¬ (default?.isNone && sofar.any (·.default.isSome)) = true := by
      rw [Bool.and_eq_true, List.any_eq_true]
      rintro ⟨hnone, q, hq, hsome⟩
      have hnext := (List.pairwise_append.mp h.order).2.2 q hq _ List.mem_cons_self hsome
      cases default? with
      | none => cases hnext
      | some e => cases hnone
    rw [List.map_cons, commaSeparated_cons] at hfuel ⊢
    have hrest (start : Nat) : Accepts (do
        if default?.isNone && sofar.any (·.default.isSome) then failAt start .defaultOrder
        let sofar := sofar ++ [⟨n, default?⟩]
        if ← eat (sym .comma) then params fuel sofar else return sofar) (commaTail (ps.map Param.tokens))
        (· = sofar ++ ⟨n, default?⟩ :: ps) (· = sym .closeParen) := by
      rw [if_neg hcondition]
      cases ps with
      | nil =>
        refine eat_bind_other ?_ (.pure rfl)
        rintro q rfl
        exact nofun
      | cons p' ps =>
        have htail : commaTail ((p' :: ps).map Param.tokens) =
          sym .comma :: commaSeparated ((p' :: ps).map Param.tokens) := rfl
        rw [htail, List.length_append, List.length_cons] at hfuel
        have hlegible : ParamsLegible (sofar ++ [⟨n, default?⟩] ++ p' :: ps) := by
          rwa [List.append_assoc]
        rw [htail]
        refine eat_bind ((ih hlegible (by omega)).mono ?_ fun _ hq => hq)
        rintro _ rfl
        rw [List.append_assoc]
        rfl
    refine at_bind_other (by exact nofun) ?_
    rw [if_neg Bool.false_ne_true]
    simp only [Param.tokens, List.length_append, List.length_cons] at hfuel
    have hafter : 24 * (afterTokens [sym .assign] default?).length ≤ fuel := by omega
    refine peek_bind_any fun p => name_bind (after_bind hdefault hafter ?_ (hrest p.start))
    cases ps with
    | nil =>
      rintro q rfl
      exact ⟨rfl, nofun⟩
    | cons p' ps => exact ⟨rfl, nofun⟩

/-- What a handler is for, and the name it binds. -/
def handlerFor (fuel : Nat) : Reader (Option Expr × Option String) := do
  if ← at? (sym .colon) then return (none, none)
  else
    let kind ← expression fuel
    let n ← if ← eat (key .as) then some <$> name else pure none
    return (some kind, n)

/-- **The head of a handler** is read back. -/
theorem handlerHead_accepts {kind : Option Expr} {n? : Option String} (h : HeadLegible kind n?)
    (hfuel : 24 * (afterTokens [] kind).length ≤ fuel) :
    Accepts (handlerFor fuel) (afterTokens [] kind ++ newNameTokens n?) (· = (kind, n?)) (· = sym .colon) := by
  cases kind with
  | none =>
    rw [h.bound rfl]
    exact at_bind (fun _ hq => hq) (.pure rfl)
  | some e =>
    have he := h.legible e rfl
    refine at_bind_other (full_ahead he rfl _) ?_
    rw [if_neg Bool.false_ne_true]
    refine .bind_eq (fullExpression_accepts he hfuel) ?_ ?_
    · refine newName_bind ?_ (.pure rfl)
      rintro q rfl
      exact nofun
    · cases n? with
      | none =>
        rintro q rfl
        exact rfl
      | some n => exact rfl

/-! ## The same but for lines -/

/-- Statements that are the given ones but for their lines. -/
def SameBlock (ss ss' : List Stmt) : Prop := ss'.map Stmt.unlined = ss.map Stmt.unlined

/-- An action that is the given one but for the lines in it. -/
def SameAction (a a' : Action) : Prop := a'.unlined = a.unlined

/-- Handlers that are the given ones but for the lines in them. -/
def SameHandlers (hs hs' : List Handler) : Prop := handlersUnlined hs' = handlersUnlined hs

namespace SameBlock

variable {yes yes' no no' ss ss' us us' : List Stmt} {hs hs' : List Handler}

theorem unlined (h : SameBlock ss ss') : blockUnlined ss' = blockUnlined ss := by
  rw [blockUnlined_eq_map, blockUnlined_eq_map]
  exact h

theorem append (h : SameBlock ss ss') (h' : SameBlock us us') : SameBlock (ss ++ us) (ss' ++ us') := by
  unfold SameBlock at *
  rw [List.map_append, List.map_append, h, h']

theorem isEmpty (h : SameBlock ss ss') : ss'.isEmpty = ss.isEmpty := by
  simpa only [List.isEmpty_map] using congrArg List.isEmpty h

theorem singleton {a a' : Action} (h : SameAction a a') (line line' : Nat) :
    SameBlock [.mk line a] [.mk line' a'] :=
  congrArg (fun a => [Stmt.mk 0 a]) h

theorem branch {test : Expr} (hyes : SameBlock yes yes') (hno : SameBlock no no') :
    SameAction (.branch test yes no) (.branch test yes' no') := by
  rw [SameAction, Action.unlined, Action.unlined, hyes.unlined, hno.unlined]

theorem loop {test : Expr} (h : SameBlock ss ss') : SameAction (.loop test ss) (.loop test ss') := by
  rw [SameAction, Action.unlined, Action.unlined, h.unlined]

theorem each {target : Target} {items : Expr} (h : SameBlock ss ss') :
    SameAction (.each target items ss) (.each target items ss') := by
  rw [SameAction, Action.unlined, Action.unlined, h.unlined]

theorem define {name : String} {params : List Param} {isAsync : Bool} (h : SameBlock ss ss') :
    SameAction (.define (.mk name params ss isAsync)) (.define (.mk name params ss' isAsync)) := by
  rw [SameAction, Action.unlined, Action.unlined, FunctionDef.unlined, FunctionDef.unlined, h.unlined]

theorem guard (h : SameBlock ss ss') (hhs : SameHandlers hs hs') (hus : SameBlock us us') :
    SameAction (.guard ss hs us) (.guard ss' hs' us') := by
  rw [SameAction, Action.unlined, Action.unlined, h.unlined, hhs, hus.unlined]

end SameBlock

theorem SameHandlers.isEmpty {hs hs' : List Handler} (h : SameHandlers hs hs') : hs'.isEmpty = hs.isEmpty := by
  cases hs with
  | nil =>
    cases hs' with
    | nil => rfl
    | cons handler hs' =>
      obtain ⟨kind, name, body⟩ := handler
      cases h
  | cons handler hs =>
    cases hs' with
    | nil =>
      obtain ⟨kind, name, body⟩ := handler
      cases h
    | cons handler' hs' => rfl

/-! ## Blocks -/

/-- What is behind a statement and goes on with none: no other branch, no handler and no end. -/
def Behind (q : Token) : Prop := q ∉ [key .elif, key .else, key .except, key .finally]

theorem Behind.of_starts {t : Token} (h : startsStatement t = true) : Behind t := by
  have hall : ∀ u ∈ [key .elif, key .else, key .except, key .finally], startsStatement u = false := by decide
  exact fun hmem => Bool.false_ne_true ((hall t hmem).symm.trans h)

theorem Behind.ne {q u : Token} (h : Behind q) (hu : u ∈ [key .elif, key .else, key .except, key .finally]) :
    q ≠ u := by
  rintro rfl
  exact h hu

theorem behind_dedent : Behind .dedent := by
  unfold Behind
  decide

theorem behind_eof : Behind .eof := by
  unfold Behind
  decide

/-- **What is read from the tokens of a statement:** the statement but for its lines, and if it is a branch,
a branch that another one goes on with as well. -/
structure Read (s : Stmt) : Prop where
  /-- The tokens start as statements do. -/
  starts : ∃ t us, s.tokens = t :: us ∧ startsStatement t = true
  /-- The statement is read. -/
  reads : ∀ fuel, 24 * s.tokens.length ≤ fuel → Accepts (statement fuel) s.tokens (SameBlock [s]) Behind
  /-- A branch is read where another one goes on with it. -/
  goesOn : ∀ line test yes no, s = .mk line (.branch test yes no) → ∀ fuel,
    24 * (branchTokens .elif test yes no).length ≤ fuel + 1 →
      Accepts (branch fuel) (branchTokens .elif test yes no) (SameAction (.branch test yes no)) Behind

theorem blockTokens_ahead {ss : List Stmt} (h : ∀ s ∈ ss, Read s) {us : List Token} (hus : Ahead Behind us Q) :
    Ahead Behind (blockTokens ss ++ us) Q := by
  cases ss with
  | nil => exact hus
  | cons s ss =>
    obtain ⟨t, vs, htokens, ht⟩ := (h s List.mem_cons_self).starts
    rw [blockTokens, htokens]
    exact .of_starts ht

/-- **The statements of a block are read** up to its end. -/
theorem block_accepts {ss : List Stmt} (h : ∀ s ∈ ss, Read s) (hfuel : 24 * (blockTokens ss).length < fuel) :
    Accepts (block fuel) (blockTokens ss ++ [.dedent]) (SameBlock ss) Q := by
  induction ss generalizing fuel with
  | nil =>
    obtain ⟨fuel, rfl⟩ := Nat.exists_eq_add_of_le' (Nat.zero_lt_of_lt hfuel)
    exact eat_bind (.pure rfl)
  | cons s ss ih =>
    obtain ⟨fuel, rfl⟩ := Nat.exists_eq_add_of_le' (Nat.zero_lt_of_lt hfuel)
    obtain ⟨hs, hss⟩ := List.forall_mem_cons.mp h
    obtain ⟨t, us, htokens, ht⟩ := hs.starts
    have hahead {u : Token} (hu : startsStatement u = false) :
        Ahead (· ≠ u) (s.tokens ++ (blockTokens ss ++ [.dedent])) Q := by
      rw [htokens]
      exact ne_of_startsStatement ht hu
    have hlength : 0 < s.tokens.length := by
      rw [htokens]
      exact Nat.zero_lt_succ _
    rw [blockTokens, List.length_append] at hfuel
    rw [blockTokens, List.append_assoc]
    refine eat_bind_other (hahead rfl) ?_
    rw [if_neg Bool.false_ne_true]
    refine at_bind_other (hahead rfl) ?_
    rw [if_neg Bool.false_ne_true]
    refine .bind (hs.reads fuel (by omega)) (fun here hhere => ?_) (blockTokens_ahead hss behind_dedent)
    exact .bind_nil (P := Q) (ih hss (by omega)) (fun rest hrest => .pure (hhere.append hrest)) fun q hq => hq

theorem suiteTokens_append (ts us body : List Token) :
    suiteTokens (ts ++ us) body = ts ++ suiteTokens us body := by
  simp [suiteTokens]

theorem suiteTokens_length (head body : List Token) :
    (suiteTokens head body).length = head.length + body.length + 3 := by
  simp [suiteTokens]
  omega

/-- **A block is read after its colon.** -/
theorem suite_accepts {ss : List Stmt} (h : ∀ s ∈ ss, Read s) (hfuel : 24 * (blockTokens ss).length + 1 < fuel) :
    Accepts (suite fuel) (suiteTokens [sym .colon] (blockTokens ss)) (SameBlock ss) Q := by
  obtain ⟨fuel, rfl⟩ := Nat.exists_eq_add_of_le' (Nat.zero_lt_of_lt hfuel)
  refine expect_bind (eat_bind ?_)
  rw [Bool.not_true, if_neg Bool.false_ne_true]
  refine eat_bind ?_
  rw [Bool.not_true, if_neg Bool.false_ne_true]
  exact block_accepts h (by omega)

/-! ## Branches -/

theorem branchTokens_eq (first : Keyword) (test : Expr) (yes no : List Stmt) :
    branchTokens first test yes no =
      key first :: (test.inFull ++ (suiteTokens [sym .colon] (blockTokens yes) ++ elseTokens no)) := by
  rw [branchTokens, testHead, ← List.cons_append, suiteTokens_append, List.cons_append, List.cons_append,
    List.append_assoc]

/-- **A branch is read,** whatever word it starts with. -/
theorem branch_accepts (first : Keyword) {test : Expr} {yes no : List Stmt} (ht : test.Legible)
    (hyes : ∀ s ∈ yes, Read s) (hno : ∀ s ∈ no, Read s)
    (hfuel : 24 * (branchTokens first test yes no).length ≤ fuel + 1) :
    Accepts (branch fuel) (branchTokens first test yes no) (SameAction (.branch test yes no)) Behind := by
  rw [branchTokens_eq] at hfuel ⊢
  simp only [List.length_cons, List.length_append, suiteTokens_length, List.length_nil] at hfuel
  obtain ⟨fuel, rfl⟩ : ∃ f, fuel = f + 1 := Nat.exists_eq_add_of_le' (by omega)
  refine skip_bind (.bind_eq (fullExpression_accepts ht (by omega)) ?_ rfl)
  refine .bind (P := fun _ => True) (suite_accepts hyes (by omega)) (fun yes' hyes' => ?_) .any
  by_cases hempty : no = []
  · subst hempty
    refine at_bind_other (fun _ hq => hq.ne (by decide)) ?_
    rw [if_neg Bool.false_ne_true]
    refine eat_bind_other (fun _ hq => hq.ne (by decide)) ?_
    exact .pure (hyes'.branch rfl)
  · rcases else_cases hempty with ⟨line, test', yes', no', rfl, htokens, -⟩ | ⟨htokens, -⟩
    · rw [htokens] at hfuel ⊢
      have hread := (hno _ List.mem_cons_self).goesOn line test' yes' no' rfl fuel (by omega)
      rw [branchTokens_eq] at hread ⊢
      refine at_bind rfl ?_
      rw [if_pos rfl]
      refine peek_bind_any fun p => .bind_nil hread (fun a ha => .pure ?_) fun q hq => hq
      exact hyes'.branch (.singleton ha line p.line)
    · rw [htokens, suiteTokens_length] at hfuel
      have hcons : suiteTokens [key .else, sym .colon] (blockTokens no) =
        key .else :: suiteTokens [sym .colon] (blockTokens no) := rfl
      rw [htokens, hcons]
      refine at_bind_other (by exact nofun) ?_
      rw [if_neg Bool.false_ne_true]
      refine eat_bind (.bind_nil (P := Behind) (suite_accepts hno (by omega)) (fun no' hno' => ?_) fun q hq => hq)
      exact .pure (hyes'.branch hno')

/-! ## Guarded blocks -/

theorem handlersTokens_cons (kind : Option Expr) (n? : Option String) (body : List Stmt) (hs : List Handler) :
    handlersTokens (.mk kind n? body :: hs) = key .except :: (afterTokens [] kind ++ newNameTokens n? ++
      (suiteTokens [sym .colon] (blockTokens body) ++ handlersTokens hs)) := by
  rw [handlersTokens, handlerHead, ← List.append_assoc, ← List.cons_append, suiteTokens_append,
    List.cons_append, List.cons_append, List.append_assoc]

theorem handlers_succ_eq (fuel : Nat) : handlers (fuel + 1) = (do
    if ← eat (key .except) then
      let (kind, n) ← handlerFor fuel
      let body ← suite fuel
      return .mk kind n body :: (← handlers fuel)
    else return []) := by
  rw [handlers]
  refine congrArg (eat (key .except) >>= ·) (funext fun here => ?_)
  cases here with
  | false => rfl
  | true =>
    rw [if_pos rfl, if_pos rfl, handlerFor, bind_assoc]
    refine congrArg (at? (sym .colon) >>= ·) (funext fun any => ?_)
    cases any with
    | true => rfl
    | false =>
      rw [if_neg Bool.false_ne_true, if_neg Bool.false_ne_true, bind_assoc]
      refine congrArg (expression fuel >>= ·) (funext fun kind => ?_)
      rw [bind_assoc]
      refine congrArg (eat (key .as) >>= ·) (funext fun new => ?_)
      cases new with
      | false => rfl
      | true => exact (bind_assoc (some <$> name) _ _).symm

/-- **Handlers are read** one after the other. -/
theorem handlers_accepts {hs : List Handler} (hheads : ∀ h ∈ hs, HeadLegible h.kind h.name)
    (hh : ∀ h ∈ hs, ∀ s ∈ h.body, Read s) (hfuel : 24 * (handlersTokens hs).length < fuel) :
    Accepts (handlers fuel) (handlersTokens hs) (SameHandlers hs) (· ≠ key .except) := by
  induction hs generalizing fuel with
  | nil =>
    obtain ⟨fuel, rfl⟩ := Nat.exists_eq_add_of_le' (Nat.zero_lt_of_lt hfuel)
    exact eat_bind_other (fun _ hq => hq) (.pure rfl)
  | cons handler hs ih =>
    obtain ⟨fuel, rfl⟩ := Nat.exists_eq_add_of_le' (Nat.zero_lt_of_lt hfuel)
    obtain ⟨kind, n?, body⟩ := handler
    obtain ⟨hhead, hheads⟩ := List.forall_mem_cons.mp hheads
    obtain ⟨hs', hh⟩ := List.forall_mem_cons.mp hh
    rw [handlersTokens_cons] at hfuel ⊢
    simp only [List.length_cons, List.length_append, suiteTokens_length, List.length_nil] at hfuel
    rw [handlers_succ_eq]
    refine eat_bind ?_
    rw [if_pos rfl]
    refine .bind_eq (handlerHead_accepts hhead (by omega)) ?_ rfl
    refine .bind (P := fun _ => True) (suite_accepts hs' (by omega)) (fun body' hbody => ?_) .any
    refine .bind_nil (ih hheads hh (by omega)) (fun rest hrest => .pure ?_) fun q hq => hq
    rw [SameHandlers, handlersUnlined, handlersUnlined, hbody.unlined, hrest]

theorem finalTokens_cons (s : Stmt) (ss : List Stmt) :
    finalTokens (s :: ss) = key .finally :: suiteTokens [sym .colon] (blockTokens (s :: ss)) := by
  rw [finalTokens, blockTokens]
  rfl

/-- **A guarded block is read** with its handlers and its end. -/
theorem guard_accepts {body final : List Stmt} {hs : List Handler} (hb : ∀ s ∈ body, Read s)
    (hheads : ∀ h ∈ hs, HeadLegible h.kind h.name) (hh : ∀ h ∈ hs, ∀ s ∈ h.body, Read s)
    (hf : ∀ s ∈ final, Read s) (hany : hs ≠ [] ∨ final ≠ [])
    (hfuel : 24 * ((blockTokens body).length + (handlersTokens hs).length + (finalTokens final).length) + 24 <
      fuel) :
    Accepts (guard fuel) (key .try :: (suiteTokens [sym .colon] (blockTokens body) ++
      (handlersTokens hs ++ finalTokens final))) (SameAction (.guard body hs final)) Behind := by
  obtain ⟨fuel, rfl⟩ := Nat.exists_eq_add_of_le' (Nat.zero_lt_of_lt hfuel)
  refine skip_bind (.bind (P := fun _ => True) (suite_accepts hb (by omega)) (fun body' hbody => ?_) .any)
  refine .bind (handlers_accepts hheads hh (by omega)) (fun hs' hhs => ?_) ?_
  · have hend {final' : List Stmt} (hfinal : SameBlock final final') : Accepts (do
        if hs'.isEmpty && final'.isEmpty then failAt (← peek).start .missingHandler
        return .guard body' hs' final') [] (SameAction (.guard body hs final)) Behind := by
      have hsome : ¬ (hs'.isEmpty && final'.isEmpty) = true := by
        rw [hhs.isEmpty, hfinal.isEmpty, Bool.and_eq_true, List.isEmpty_iff, List.isEmpty_iff]
        exact fun hnone => hany.elim (· hnone.1) (· hnone.2)
      rw [if_neg hsome]
      exact .pure (hbody.guard hhs hfinal)
    cases final with
    | nil =>
      refine eat_bind_other (fun _ hq => hq.ne (by decide)) ?_
      exact hend rfl
    | cons s ss =>
      rw [finalTokens_cons, List.length_cons, suiteTokens_length] at hfuel
      rw [finalTokens_cons]
      exact eat_bind (.bind_nil (P := Behind) (suite_accepts hf (by omega)) (fun final' hfinal => hend hfinal)
        fun q hq => hq)
  · cases final with
    | nil => exact fun _ hq => hq.ne (by decide)
    | cons s ss => exact nofun

/-! ## Functions -/

theorem functionHead_tokens (name : String) (params : List Param) (isAsync : Bool) (body : List Token) :
    suiteTokens (functionHead name params isAsync) body = (if isAsync then [key .async] else []) ++
      key .define :: .name name :: (parens (commaSeparated (params.map Param.tokens)) ++
        suiteTokens [sym .colon] body) := by
  simp [functionHead, suiteTokens]

/-- **The definition of a function is read** from its second keyword on. -/
theorem definition_accepts {name : String} {params : List Param} {body : List Stmt} (isAsync : Bool)
    (hp : ParamsLegible params) (hb : ∀ s ∈ body, Read s)
    (hfuel : 24 * ((commaSeparated (params.map Param.tokens)).length + (blockTokens body).length) + 24 < fuel) :
    Accepts (definition fuel isAsync) (key .define :: .name name ::
      (parens (commaSeparated (params.map Param.tokens)) ++ suiteTokens [sym .colon] (blockTokens body)))
      (SameAction (.define (.mk name params body isAsync))) Q := by
  obtain ⟨fuel, rfl⟩ := Nat.exists_eq_add_of_le' (Nat.zero_lt_of_lt hfuel)
  rw [parens, List.cons_append, List.append_assoc]
  refine expect_bind (name_bind (expect_bind (.bind_eq (params_accepts hp (by omega)) ?_ rfl)))
  refine expect_bind (eat_bind_other (show sym .colon ≠ sym .arrow by decide) ?_)
  exact .bind_nil (P := Q) (suite_accepts hb (by omega)) (fun body' hbody => .pure hbody.define) fun q hq => hq

end Transcript.Lang.Reader

namespace Transcript.Lang

open Reader Reader.Accepts

/-! ## Statements -/

/-- **A legible statement is read from its tokens.** -/
theorem Stmt.Legible.read {s : Stmt} (h : s.Legible) : Read s := by
  induction h with
  | @simple line a ha =>
    have htokens : (Stmt.mk line a).tokens = a.tokens ++ [.newline] := ha.allTokens_eq
    refine ⟨?_, fun fuel hfuel => ?_, ?_⟩
    · obtain ⟨t, us, hts, ht⟩ := ha.starts
      exact ⟨t, us ++ [.newline], by rw [htokens, hts]; rfl, startsStatement_of_simple ht⟩
    · rw [htokens] at hfuel ⊢
      refine (simpleLine_accepts ha hfuel).mono ?_ fun _ hq => hq
      rintro _ ⟨line', rfl⟩
      exact .singleton rfl line line'
    · rintro _ test yes no ⟨⟩
      cases ha
  | @branch line test yes no ht hyes hy hn ihy ihn =>
    have htokens : (Stmt.mk line (.branch test yes no)).tokens = branchTokens .if test yes no := rfl
    refine ⟨⟨_, _, rfl, rfl⟩, fun fuel hfuel => ?_, ?_⟩
    · rw [htokens] at hfuel ⊢
      obtain ⟨fuel, rfl⟩ : ∃ f, fuel = f + 1 := by
        refine Nat.exists_eq_add_of_le' ?_
        rw [branchTokens_eq, List.length_cons] at hfuel
        omega
      have hread := branch_accepts .if ht ihy ihn hfuel
      rw [branchTokens_eq] at hread ⊢
      refine peek_bind_any fun p => next_bind (.bind_nil hread (fun a ha => .pure ?_) fun q hq => hq)
      exact .singleton ha line p.line
    · rintro _ _ _ _ ⟨⟩ fuel hfuel
      exact branch_accepts .elif ht ihy ihn hfuel
  | @loop line test body ht hbody hb ihb =>
    have htokens : (Stmt.mk line (.loop test body)).tokens =
        key .while :: (test.inFull ++ suiteTokens [sym .colon] (blockTokens body)) := by
      simp [Stmt.tokens, Action.allTokens, testHead, suiteTokens]
    refine ⟨⟨_, _, htokens, rfl⟩, fun fuel hfuel => ?_, by rintro _ _ _ _ ⟨⟩⟩
    rw [htokens] at hfuel ⊢
    simp only [List.length_cons, List.length_append, suiteTokens_length] at hfuel
    obtain ⟨fuel, rfl⟩ : ∃ f, fuel = f + 1 := Nat.exists_eq_add_of_le' (by omega)
    refine peek_bind_any fun p => next_bind (skip_bind (.bind_eq (fullExpression_accepts ht (by omega)) ?_ rfl))
    exact .bind_nil (P := Behind) (suite_accepts ihb (by omega))
      (fun body' hbody => .pure (.singleton hbody.loop line p.line)) fun q hq => hq
  | @each line target items body ht hi hbody hb ihb =>
    have htokens : (Stmt.mk line (.each target items body)).tokens = key .for :: (target.expr.inFull ++
        key .in :: (items.inFull ++ suiteTokens [sym .colon] (blockTokens body))) := by
      simp [Stmt.tokens, Action.allTokens, eachHead, suiteTokens]
    refine ⟨⟨_, _, htokens, rfl⟩, fun fuel hfuel => ?_, by rintro _ _ _ _ ⟨⟩⟩
    rw [htokens] at hfuel ⊢
    simp only [List.length_cons, List.length_append, suiteTokens_length] at hfuel
    obtain ⟨fuel, rfl⟩ : ∃ f, fuel = f + 1 := Nat.exists_eq_add_of_le' (by omega)
    refine peek_bind_any fun p => next_bind (skip_bind (.bind_eq (loopTarget_accepts ht (by omega)) ?_ rfl))
    refine expect_bind (.bind_eq (full_accepts hi (by omega)) ?_ ⟨rfl, by decide⟩)
    exact .bind_nil (P := Behind) (suite_accepts ihb (by omega))
      (fun body' hbody => .pure (.singleton hbody.each line p.line)) fun q hq => hq
  | @guard line body handlers final hbody hb hheads hbodies hh hf hany ihb ihh ihf =>
    have htokens : (Stmt.mk line (.guard body handlers final)).tokens =
      key .try :: (suiteTokens [sym .colon] (blockTokens body) ++
        (handlersTokens handlers ++ finalTokens final)) := rfl
    refine ⟨⟨_, _, htokens, rfl⟩, fun fuel hfuel => ?_, by rintro _ _ _ _ ⟨⟩⟩
    rw [htokens] at hfuel ⊢
    simp only [List.length_cons, List.length_append, suiteTokens_length] at hfuel
    obtain ⟨fuel, rfl⟩ : ∃ f, fuel = f + 1 := Nat.exists_eq_add_of_le' (by omega)
    refine peek_bind_any fun p => next_bind (.bind_nil (guard_accepts ihb hheads ihh ihf hany (by omega))
      (fun a ha => .pure ?_) fun q hq => hq)
    exact .singleton ha line p.line
  | @define line name params body isAsync hn hp hbody hb ihb =>
    have htokens : (Stmt.mk line (.define (.mk name params body isAsync))).tokens =
        suiteTokens (functionHead name params isAsync) (blockTokens body) := rfl
    rw [functionHead_tokens] at htokens
    refine ⟨?_, fun fuel hfuel => ?_, by rintro _ _ _ _ ⟨⟩⟩
    · rw [htokens]
      cases isAsync <;> exact ⟨_, _, rfl, rfl⟩
    · rw [htokens] at hfuel ⊢
      simp only [List.length_cons, List.length_append, suiteTokens_length, parens, List.length_nil] at hfuel
      obtain ⟨fuel, rfl⟩ : ∃ f, fuel = f + 1 := Nat.exists_eq_add_of_le' (by omega)
      cases isAsync with
      | false =>
        refine peek_bind_any fun p => next_bind (.bind_nil (P := Behind)
          (definition_accepts false hp ihb (by omega)) (fun a ha => .pure ?_) fun q hq => hq)
        exact .singleton ha line p.line
      | true =>
        refine peek_bind_any fun p => next_bind (skip_bind (at_bind rfl ?_))
        rw [Bool.not_true, if_neg Bool.false_ne_true]
        refine .bind_nil (P := Behind) (definition_accepts true hp ihb (by omega)) (fun a ha => .pure ?_)
          fun q hq => hq
        exact .singleton ha line p.line

/-- **Legible statements are read as a module.** -/
theorem module_accepts_block {ss : List Stmt} {fuel : Nat} (h : ∀ s ∈ ss, s.Legible)
    (hfuel : 24 * (blockTokens ss).length < fuel) :
    Accepts (Reader.module fuel) (blockTokens ss) (SameBlock ss) (· = .eof) := by
  induction ss generalizing fuel with
  | nil =>
    obtain ⟨fuel, rfl⟩ := Nat.exists_eq_add_of_le' (Nat.zero_lt_of_lt hfuel)
    exact module_nil.mono (by rintro _ rfl; exact rfl) fun _ hq => hq
  | cons s ss ih =>
    obtain ⟨fuel, rfl⟩ := Nat.exists_eq_add_of_le' (Nat.zero_lt_of_lt hfuel)
    obtain ⟨hs, hss⟩ := List.forall_mem_cons.mp h
    obtain ⟨t, us, htokens, ht⟩ := hs.read.starts
    have hlength : 0 < s.tokens.length := by
      rw [htokens]
      exact Nat.zero_lt_succ _
    have hahead : Ahead Behind (blockTokens ss ++ []) (· = .eof) :=
      blockTokens_ahead (fun s hs => (hss s hs).read) fun q hq => hq ▸ behind_eof
    rw [List.append_nil] at hahead
    rw [blockTokens, List.length_append] at hfuel
    rw [blockTokens]
    refine module_cons htokens ⟨ne_of_startsStatement ht rfl, ne_of_startsStatement ht rfl,
      ne_of_startsStatement ht rfl⟩ (hs.read.reads fuel (by omega)) (fun here hhere => ?_) hahead
    exact (ih hss (by omega)).mono (fun rest hrest => hhere.append hrest) fun _ hq => hq

end Transcript.Lang
