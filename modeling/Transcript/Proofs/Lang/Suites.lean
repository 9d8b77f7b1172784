import Transcript.Proofs.Lang.Rows
import Transcript.Proofs.Text.Line

/-!
# The tokens of statements

A statement with blocks stands for its heads, each with a block after it between the tokens that open and
close it. The rows of a legible statement lay out these tokens: the tokens of each row stand on a line, as
those of expressions do.

Results:
* `blockTokens`: the tokens of statements.
* `Stmt.Legible.laid`: the rows of a legible statement are laid out for its tokens.
* `tokens_written`: the source of legible statements is lexed as their tokens.
-/

namespace Transcript.Lang

open Reader (sym key)

/-! ## Tokens of statements with blocks -/

mutual

/-- **The tokens of a statement.** -/
def Stmt.tokens : Stmt → List Token
  | .mk _ action => action.allTokens

/-- The tokens of what a statement does, with those of its blocks. -/
def Action.allTokens : Action → List Token
  | .branch test yes no => suiteTokens (testHead .if test) (blockTokens yes) ++ elseTokens no
  | .loop test body => suiteTokens (testHead .while test) (blockTokens body)
  | .each target items body => suiteTokens (eachHead target items) (blockTokens body)
  | .guard body handlers final =>
    suiteTokens [key .try, sym .colon] (blockTokens body) ++ (handlersTokens handlers ++ finalTokens final)
  | .define f => f.tokens
  | a => a.tokens ++ [.newline]

/-- The tokens of the definition of a function. -/
def FunctionDef.tokens : FunctionDef → List Token
  | .mk name params body isAsync => suiteTokens (functionHead name params isAsync) (blockTokens body)

/-- The tokens of handlers. -/
def handlersTokens : List Handler → List Token
  | [] => []
  | .mk kind name body :: rest => suiteTokens (handlerHead kind name) (blockTokens body) ++ handlersTokens rest

/-- The tokens of what ends a guarded block. -/
def finalTokens : List Stmt → List Token
  | [] => []
  | s :: ss => suiteTokens [key .finally, sym .colon] (s.tokens ++ blockTokens ss)

/-- The tokens of the other branch. -/
def elseTokens : List Stmt → List Token
  | [] => []
  | [.mk _ (.branch test yes no)] => suiteTokens (testHead .elif test) (blockTokens yes) ++ elseTokens no
  | s :: ss => suiteTokens [key .else, sym .colon] (s.tokens ++ blockTokens ss)

/-- **The tokens of statements.** -/
def blockTokens : List Stmt → List Token
  | [] => []
  | s :: ss => s.tokens ++ blockTokens ss

end

/-- The rows of a branch with its first keyword. -/
def branchRows (first : Keyword) (k : Nat) (test : Expr) (yes no : List Stmt) : List Row :=
  ⟨k, testHead first test⟩ :: (blockRows (k + 1) yes ++ elseRows k no)

/-- The tokens of a branch with its first keyword. -/
def branchTokens (first : Keyword) (test : Expr) (yes no : List Stmt) : List Token :=
  suiteTokens (testHead first test) (blockTokens yes) ++ elseTokens no

/-- The other branch is a branch that goes on with this one, or a block of its own. -/
theorem else_cases {no : List Stmt} (hne : no ≠ []) :
    (∃ line test yes no', no = [.mk line (.branch test yes no')] ∧
      elseTokens no = branchTokens .elif test yes no' ∧
      ∀ k, elseRows k no = branchRows .elif k test yes no') ∨
    (elseTokens no = suiteTokens [key .else, sym .colon] (blockTokens no) ∧
      ∀ k, elseRows k no = ⟨k, [key .else, sym .colon]⟩ :: blockRows (k + 1) no) := by
  by_cases h : ∃ line test yes no', no = [.mk line (.branch test yes no')]
  · obtain ⟨line, test, yes, no', rfl⟩ := h
    exact .inl ⟨line, test, yes, no', rfl, rfl, fun _ => rfl⟩
  · obtain ⟨s, ss, rfl⟩ := List.exists_cons_of_ne_nil hne
    have hother (line : Nat) (test : Expr) (yes no' : List Stmt) :
        s = .mk line (.branch test yes no') → ss = [] → False :=
      fun hs hss => h ⟨line, test, yes, no', by rw [hs, hss]⟩
    exact .inr ⟨by rw [elseTokens.eq_3 _ _ hother, blockTokens],
      fun k => by rw [elseRows.eq_3 _ _ _ hother, blockRows]⟩

/-! ## Module names -/

theorem IsName.not_point {n : String} (h : IsName n) : ∀ c ∈ n.toList, (c == '.') = false := by
  obtain ⟨⟨c, cs, hn, hc, hcs⟩, -⟩ := h
  rw [hn]
  intro d hd
  refine beq_false_of_ne ?_
  rintro rfl
  rcases List.mem_cons.mp hd with rfl | hd
  · cases isNamePart_of_isNameStart hc
  · cases List.all_eq_true.mp hcs _ hd

/-- **A module name falls into its parts** at the points. -/
theorem moduleParts_foldl {n : String} {ns : List String} (hn : IsName n) (hns : ∀ n ∈ ns, IsName n) :
    moduleParts (ns.foldl (fun m n => m ++ "." ++ n) n) = n :: ns := by
  have htext (m : String) : (ns.foldl (fun m n => m ++ "." ++ n) m).toList =
      m.toList ++ ns.flatMap fun n => '.' :: n.toList := by
    clear hns
    induction ns generalizing m with
    | nil => simp
    | cons n ns ih => simp [ih]
  have hpieces : Text.pieces (· == '.') (n.toList ++ ns.flatMap fun n => '.' :: n.toList) =
      (n :: ns).map String.toList := by
    clear htext
    induction ns generalizing n with
    | nil =>
      rw [List.flatMap_nil, List.append_nil]
      exact Text.pieces_of_none hn.not_point
    | cons n' ns ih =>
      obtain ⟨hn', hns⟩ := List.forall_mem_cons.mp hns
      rw [List.flatMap_cons, List.cons_append, Text.pieces_append_cons hn.not_point rfl, ih hn' hns]
      rfl
  rw [moduleParts, htext, hpieces, List.map_map]
  simp

theorem dotted_cons (n : String) (ns : List String) :
    dotted (n :: ns) = .name n :: ns.flatMap fun n => [sym .dot, .name n] := by
  induction ns generalizing n with
  | nil => simp [dotted]
  | cons n' ns ih =>
    have hdotted : dotted (n :: n' :: ns) = .name n :: sym .dot :: dotted (n' :: ns) := by
      simp [dotted, List.intercalate_cons_cons]
    rw [hdotted, ih]
    rfl

/-! ## Rows stand on lines -/

section

variable {before : List Token} {e? : Option Expr} {n? : Option String}

theorem Expr.Legible.inFull {e : Expr} (h : e.Legible) : Inline e.inFull := h.inline_spellAt true .conditional

theorem Inline.afterTokens (hb : Inline before) (h : ∀ e ∈ e?, e.Legible) : Inline (afterTokens before e?) := by
  cases e? with
  | none => exact .nil
  | some e => exact hb.append (h e rfl).inFull

theorem Inline.newName (h : ∀ n ∈ n?, IsName n) : Inline (newNameTokens n?) := by
  cases n? with
  | none => exact .nil
  | some n => exact .cons (Inline.keyword .as) (.singleton (Inline.name (h n rfl)))

theorem Inline.colon : Inline [sym .colon] := .singleton (Inline.symbol ⟨rfl, rfl⟩)

theorem Inline.word (k : Keyword) : Inline [key k, sym .colon] := .cons (Inline.keyword k) .colon

theorem IsModuleName.inline {m : String} (h : IsModuleName m) : Inline (dotted (moduleParts m)) := by
  obtain ⟨n, ns, hn, hns, rfl⟩ := h
  rw [moduleParts_foldl hn hns, dotted_cons]
  exact .cons (Inline.name hn) (.flatMap fun n hn =>
    .cons (Inline.symbol ⟨rfl, rfl⟩) (.singleton (Inline.name (hns n hn))))

/-- **A simple statement stands on a line.** -/
theorem Action.Simple.inline {a : Action} (h : a.Simple) : Inline a.tokens := by
  have hassign : Token.IsPlain (sym .assign) := Inline.symbol ⟨rfl, rfl⟩
  cases h with
  | eval h => exact h.inFull
  | assign hne ht hv =>
    exact (Inline.flatMap fun t h => (ht t h).inFull.append (.singleton hassign)).append hv.inFull
  | @augment _ op _ ht _ _ hv =>
    have hop : op.assignToken.IsPlain := by cases op <;> exact Inline.symbol ⟨rfl, rfl⟩
    exact ht.inFull.append (.cons hop hv.inFull)
  | load hm hn => exact .cons (Inline.keyword _) (hm.inline.append (.newName hn))
  | delete h =>
    refine .cons (Inline.keyword _) (Expr.Legible.inFull ?_)
    rw [Target.expr, targetExprs_eq_map]
    exact .tuple (List.forall_mem_map.mpr h)
  | assert ht hm =>
    exact .cons (Inline.keyword _) (ht.inFull.append (.afterTokens (.singleton (Inline.symbol ⟨rfl, rfl⟩)) hm))
  | globals _ h =>
    exact .cons (Inline.keyword _) (.commaSeparated (List.forall_mem_map.mpr fun n hn =>
      .singleton (Inline.name (h n hn))))
  | raise h | exit h => exact .cons (Inline.keyword _) (.afterTokens .nil h)
  | pass | leave | next => exact .singleton (Inline.keyword _)

theorem Inline.testHead {test : Expr} (h : test.Legible) (k : Keyword) : Inline (testHead k test) :=
  .cons (Inline.keyword k) (h.inFull.append .colon)

theorem Inline.eachHead {target : Target} {items : Expr} (ht : target.expr.Legible) (hi : items.Legible) :
    Inline (eachHead target items) :=
  .cons (Inline.keyword _) (ht.inFull.append (.cons (Inline.keyword _) (hi.inFull.append .colon)))

theorem HeadLegible.inline {kind : Option Expr} (h : HeadLegible kind n?) : Inline (handlerHead kind n?) :=
  .cons (Inline.keyword _) ((Inline.afterTokens .nil h.legible).append ((Inline.newName h.word).append .colon))

theorem ParamsLegible.inline {params : List Param} (h : ParamsLegible params) {name : String}
    (hn : IsName name) (isAsync : Bool) : Inline (functionHead name params isAsync) := by
  have hasync : Inline (if isAsync then [key .async] else []) := by
    split
    · exact .singleton (Inline.keyword _)
    · exact .nil
  have hparams : Inline (commaSeparated (params.map Param.tokens)) := by
    refine .commaSeparated (List.forall_mem_map.mpr fun p hp => ?_)
    exact .cons (Inline.name (h.names p hp))
      (.afterTokens (.singleton (Inline.symbol ⟨rfl, rfl⟩)) (h.defaults p hp))
  exact hasync.append (.cons (Inline.keyword _) (.cons (Inline.name hn) (hparams.parens.append .colon)))

end

/-! ## Legible statements are laid out -/

/-- Whether a statement without a block may start with a token. -/
def Token.startsSimple (t : Token) : Bool :=
  t.leads .conditional || [key .import, key .raise, key .pass, key .del, key .assert, key .global, key .return,
    key .break, key .continue].contains t

theorem Expr.Legible.inFull_starts {e : Expr} (h : e.Legible) : Starts .conditional e.inFull :=
  (h.starts true).enclose true .conditional

theorem Action.Simple.starts {a : Action} (h : a.Simple) :
    ∃ t us, a.tokens = t :: us ∧ t.startsSimple = true := by
  have hexpr {e : Expr} (he : e.Legible) (us : List Token) :
      ∃ t vs, e.inFull ++ us = t :: vs ∧ t.startsSimple = true := by
    obtain ⟨t, vs, hspell, ht, -⟩ := he.inFull_starts
    exact ⟨t, vs ++ us, by rw [hspell]; rfl, by rw [Token.startsSimple, ht, Bool.true_or]⟩
  cases h with
  | eval h =>
    obtain ⟨t, vs, hspell, ht⟩ := hexpr h []
    exact ⟨t, vs, by rw [← hspell, List.append_nil]; rfl, ht⟩
  | @assign targets value hne ht hv =>
    obtain ⟨target, targets, rfl⟩ := List.exists_cons_of_ne_nil hne
    simp only [Action.tokens, List.flatMap_cons, List.append_assoc]
    exact hexpr (ht _ List.mem_cons_self) _
  | augment ht _ _ hv => exact hexpr ht _
  | load | delete | assert | globals | raise | exit | pass | leave | next => exact ⟨_, _, rfl, by decide⟩

theorem Action.Simple.tokens_ne_nil {a : Action} (h : a.Simple) : a.tokens ≠ [] := by
  obtain ⟨t, us, hts, -⟩ := h.starts
  rw [hts]
  exact List.cons_ne_nil t us

theorem Action.Simple.allTokens_eq {a : Action} (h : a.Simple) : a.allTokens = a.tokens ++ [.newline] := by
  cases h <;> rfl

theorem Action.Simple.rows_eq {a : Action} (h : a.Simple) (k : Nat) : a.rows k = [⟨k, a.tokens⟩] := by
  cases h <;> rfl

/-- The rows of a statement are laid out for its tokens, also where a branch goes on with it. -/
def Stmt.Laid (s : Stmt) : Prop :=
  (∀ k, Lays k (s.rows k) s.tokens) ∧ ∀ line test yes no, s = .mk line (.branch test yes no) →
    ∀ k, Lays k (branchRows .elif k test yes no) (branchTokens .elif test yes no)

theorem lays_block {ss : List Stmt} (hne : ss ≠ []) (h : ∀ s ∈ ss, s.Laid) (k : Nat) :
    Lays k (blockRows k ss) (blockTokens ss) := by
  induction ss with
  | nil => exact absurd rfl hne
  | cons s ss ih =>
    obtain ⟨hs, hss⟩ := List.forall_mem_cons.mp h
    refine (hs.1 k).append_or ?_
    by_cases hempty : ss = []
    · subst hempty
      exact .inl ⟨rfl, rfl⟩
    · exact .inr (ih hempty hss)

/-- A head and its block are laid out. -/
theorem lays_suite {head : List Token} {body : List Stmt} (hinline : Inline head) (hhead : head ≠ [])
    (hne : body ≠ []) (h : ∀ s ∈ body, s.Laid) (k : Nat) :
    Lays k (⟨k, head⟩ :: blockRows (k + 1) body) (suiteTokens head (blockTokens body)) :=
  .suite hinline hhead (lays_block hne h (k + 1))

theorem lays_else {no : List Stmt} (h : ∀ s ∈ no, s.Laid) (k : Nat) :
    elseRows k no = [] ∧ elseTokens no = [] ∨ Lays k (elseRows k no) (elseTokens no) := by
  by_cases hne : no = []
  · subst hne
    exact .inl ⟨rfl, rfl⟩
  · rcases else_cases hne with ⟨line, test, yes, no', rfl, htokens, hrows⟩ | ⟨htokens, hrows⟩
    · rw [htokens, hrows]
      exact .inr ((h _ List.mem_cons_self).2 line test yes no' rfl k)
    · rw [htokens, hrows]
      exact .inr (lays_suite (.word _) (List.cons_ne_nil _ _) hne h k)

theorem lays_final {final : List Stmt} (h : ∀ s ∈ final, s.Laid) (k : Nat) :
    finalRows k final = [] ∧ finalTokens final = [] ∨ Lays k (finalRows k final) (finalTokens final) := by
  cases final with
  | nil => exact .inl ⟨rfl, rfl⟩
  | cons s ss => exact .inr (lays_suite (.word _) (List.cons_ne_nil _ _) (List.cons_ne_nil s ss) h k)

theorem lays_handlers {handlers : List Handler} (hheads : ∀ h ∈ handlers, HeadLegible h.kind h.name)
    (hbodies : ∀ h ∈ handlers, h.body ≠ []) (hh : ∀ h ∈ handlers, ∀ s ∈ h.body, s.Laid) (k : Nat) :
    handlersRows k handlers = [] ∧ handlersTokens handlers = [] ∨
      Lays k (handlersRows k handlers) (handlersTokens handlers) := by
  induction handlers with
  | nil => exact .inl ⟨rfl, rfl⟩
  | cons handler handlers ih =>
    obtain ⟨kind, name, body⟩ := handler
    obtain ⟨hhead, hheads⟩ := List.forall_mem_cons.mp hheads
    obtain ⟨hbody, hbodies⟩ := List.forall_mem_cons.mp hbodies
    obtain ⟨hs, hh⟩ := List.forall_mem_cons.mp hh
    exact .inr ((lays_suite hhead.inline (List.cons_ne_nil _ _) hbody hs k).append_or (ih hheads hbodies hh))

/-- **The rows of a legible statement** are laid out for its tokens. -/
theorem Stmt.Legible.laid {s : Stmt} (h : s.Legible) : s.Laid := by
  induction h with
  | @simple line a ha =>
    refine ⟨fun k => ?_, ?_⟩
    · rw [Stmt.rows, Stmt.tokens, ha.rows_eq, ha.allTokens_eq]
      exact .row ha.inline ha.tokens_ne_nil
    · rintro _ test yes no ⟨⟩
      cases ha
  | @branch line test yes no ht hyes hy hn ihy ihn =>
    have hbranch (first : Keyword) (k : Nat) :
        Lays k (branchRows first k test yes no) (branchTokens first test yes no) :=
      (lays_suite (.testHead ht first) (List.cons_ne_nil _ _) hyes ihy k).append_or (lays_else ihn k)
    refine ⟨hbranch .if, ?_⟩
    rintro _ _ _ _ ⟨⟩
    exact hbranch .elif
  | loop ht hbody hb ihb =>
    exact ⟨lays_suite (.testHead ht .while) (List.cons_ne_nil _ _) hbody ihb, nofun⟩
  | each ht hi hbody hb ihb =>
    exact ⟨lays_suite (.eachHead ht hi) (List.cons_ne_nil _ _) hbody ihb, nofun⟩
  | @guard line body handlers final hbody hb hheads hbodies hh hf hany ihb ihh ihf =>
    refine ⟨fun k => ?_, nofun⟩
    refine (lays_suite (.word .try) (List.cons_ne_nil _ _) hbody ihb k).append_or ?_
    rcases lays_handlers hheads hbodies ihh k with ⟨hrows, htokens⟩ | hlays
    · rw [hrows, htokens]
      exact lays_final ihf k
    · exact .inr (hlays.append_or (lays_final ihf k))
  | @define line name params body isAsync hn hp hbody hb ihb =>
    have hhead : functionHead name params isAsync ≠ [] := by simp [functionHead]
    exact ⟨lays_suite (hp.inline hn isAsync) hhead hbody ihb, nofun⟩

/-- **Legible statements are written as their tokens.** -/
theorem tokens_written {ss : List Stmt} (h : ∀ s ∈ ss, s.Legible) :
    ∃ ps, tokens (written ss) = .ok ps ∧ ps.map Placed.token = blockTokens ss ++ [.eof] := by
  by_cases hne : ss = []
  · subst hne
    refine ⟨Layout.start.finish, ?_, rfl⟩
    rw [written, blockRows, List.flatMap_nil, tokens, tokensFrom]
  · exact tokens_rows (lays_block hne (fun s hs => (h s hs).laid) 0)

end Transcript.Lang
