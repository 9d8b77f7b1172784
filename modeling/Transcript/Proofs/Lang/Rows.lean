import Transcript.Proofs.Lang.Scan
import Transcript.Proofs.Lang.Written

/-!
# How statements are written

Statements are written in rows: one for each simple statement and one for the head of each block, whose
statements stand four blanks further right. Expressions are written in full, with parentheses around all
that is no atom. A branch that is the only statement in the other branch of a branch goes on with it.

Legible statements are those that sources without floating point literals can write: their expressions are
legible, their blocks hold statements, an assignment has a target, a guarded block has a handler or an end,
and no parameter without default follows one with a default.

A row has as many open blocks around it as it is deep. So a row opens a block if it is one deeper than the
row before it, and closes as many blocks as it is less deep. The blocks that a row closes are closed by the
next row only, or by the end of the source: what rows have been lexed as falls short of their tokens by the
ends of the blocks that are still open.

Results:
* `written`: the source of statements.
* `Stmt.Legible`: the statements that sources can write.
* `Lays`: the tokens that rows stand for, with the layout of their blocks.
* `Lays.lexes`: rows are lexed as their tokens, up to the ends of the blocks that are open behind them.
* `tokens_rows`: a source of rows is lexed as their tokens.
-/

namespace Transcript.Lang

open Reader (sym key)

/-! ## Tokens of simple statements -/

mutual

/-- **The expression of a target.** -/
def Target.expr : Target → Expr
  | .name n => .name n
  | .subscript value index => .subscript value index
  | .tuple items => .tuple (targetExprs items)

/-- The expressions of targets. -/
def targetExprs : List Target → List Expr
  | [] => []
  | t :: ts => t.expr :: targetExprs ts

end

theorem targetExprs_eq_map (ts : List Target) : targetExprs ts = ts.map Target.expr := by
  induction ts with
  | nil => rfl
  | cons t ts ih => exact congrArg (_ :: ·) ih

/-- The tokens of an expression in full. -/
def Expr.inFull (e : Expr) : List Token := e.spellAt true .conditional

/-- The tokens of an expression after others, if there is one. -/
def afterTokens (before : List Token) : Option Expr → List Token
  | none => []
  | some e => before ++ e.inFull

/-- The tokens of a new name, if there is one. -/
def newNameTokens : Option String → List Token
  | none => []
  | some n => [key .as, .name n]

/-- The token of an augmented assignment. Powers have none. -/
def BinaryOp.assignToken : BinaryOp → Token
  | .add => sym .plusAssign
  | .sub => sym .minusAssign
  | .mul => sym .starAssign
  | .div => sym .slashAssign
  | .floorDiv => sym .floorDivAssign
  | .mod => sym .percentAssign
  | .pow => sym .power

/-- The names that a module name with points is made of. -/
def moduleParts (m : String) : List String := (Text.pieces (· == '.') m.toList).map String.ofList

/-- The tokens of names with points between them. -/
def dotted (ns : List String) : List Token := [sym .dot].intercalate (ns.map fun n => [.name n])

/-- **The tokens of a simple statement.** Statements with blocks have none here. -/
def Action.tokens : Action → List Token
  | .eval e => e.inFull
  | .assign targets value => targets.flatMap (fun t => t.expr.inFull ++ [sym .assign]) ++ value.inFull
  | .augment target op value => target.expr.inFull ++ op.assignToken :: value.inFull
  | .load m newName => key .import :: (dotted (moduleParts m) ++ newNameTokens newName)
  | .raise value => key .raise :: afterTokens [] value
  | .pass => [key .pass]
  | .delete targets => key .del :: (Target.tuple targets).expr.inFull
  | .assert test message => key .assert :: (test.inFull ++ afterTokens [sym .comma] message)
  | .globals names => key .global :: commaSeparated (names.map fun n => [.name n])
  | .exit value => key .return :: afterTokens [] value
  | .leave => [key .break]
  | .next => [key .continue]
  | .branch .. | .loop .. | .each .. | .guard .. | .define .. => []

/-! ## Rows -/

/-- **A row of a source:** how deep it stands, and its tokens. -/
structure Row where
  /-- The number of blocks around it. -/
  depth : Nat
  /-- Its tokens. -/
  tokens : List Token

/-- The tokens of a parameter. -/
def Param.tokens (p : Param) : List Token := .name p.name :: afterTokens [sym .assign] p.default

/-- The head of a handler. -/
def handlerHead (kind : Option Expr) (name : Option String) : List Token :=
  key .except :: (afterTokens [] kind ++ (newNameTokens name ++ [sym .colon]))

/-- The head of a function. -/
def functionHead (name : String) (params : List Param) (isAsync : Bool) : List Token :=
  (if isAsync then [key .async] else []) ++ key .define :: .name name ::
    (parens (commaSeparated (params.map Param.tokens)) ++ [sym .colon])

/-- The head of a branch or a loop with a test. -/
def testHead (k : Keyword) (test : Expr) : List Token := key k :: (test.inFull ++ [sym .colon])

/-- The head of a loop over items. -/
def eachHead (target : Target) (items : Expr) : List Token :=
  key .for :: (target.expr.inFull ++ key .in :: (items.inFull ++ [sym .colon]))

mutual

/-- **The rows of a statement** inside of so many blocks. -/
def Stmt.rows (k : Nat) : Stmt → List Row
  | .mk _ action => action.rows k

/-- The rows of what a statement does. -/
def Action.rows (k : Nat) : Action → List Row
  | .branch test yes no => ⟨k, testHead .if test⟩ :: (blockRows (k + 1) yes ++ elseRows k no)
  | .loop test body => ⟨k, testHead .while test⟩ :: blockRows (k + 1) body
  | .each target items body => ⟨k, eachHead target items⟩ :: blockRows (k + 1) body
  | .guard body handlers final =>
    ⟨k, [key .try, sym .colon]⟩ :: (blockRows (k + 1) body ++ (handlersRows k handlers ++ finalRows k final))
  | .define f => f.rows k
  | a => [⟨k, a.tokens⟩]

/-- The rows of the definition of a function. -/
def FunctionDef.rows (k : Nat) : FunctionDef → List Row
  | .mk name params body isAsync => ⟨k, functionHead name params isAsync⟩ :: blockRows (k + 1) body

/-- The rows of handlers. -/
def handlersRows (k : Nat) : List Handler → List Row
  | [] => []
  | .mk kind name body :: rest => ⟨k, handlerHead kind name⟩ :: (blockRows (k + 1) body ++ handlersRows k rest)

/-- The rows of what ends a guarded block. -/
def finalRows (k : Nat) : List Stmt → List Row
  | [] => []
  | s :: ss => ⟨k, [key .finally, sym .colon]⟩ :: (s.rows (k + 1) ++ blockRows (k + 1) ss)

/-- The rows of the other branch. -/
def elseRows (k : Nat) : List Stmt → List Row
  | [] => []
  | [.mk _ (.branch test yes no)] => ⟨k, testHead .elif test⟩ :: (blockRows (k + 1) yes ++ elseRows k no)
  | s :: ss => ⟨k, [key .else, sym .colon]⟩ :: (s.rows (k + 1) ++ blockRows (k + 1) ss)

/-- **The rows of statements.** -/
def blockRows (k : Nat) : List Stmt → List Row
  | [] => []
  | s :: ss => s.rows k ++ blockRows k ss

end

/-- The text of a row: four blanks for each block around it, its tokens with single blanks between them, and
the end of the line. -/
def Row.text (r : Row) : List Char := List.replicate (4 * r.depth) ' ' ++ spaced r.tokens ++ ['\n']

/-- **The source of statements.** -/
def written (ss : List Stmt) : List Char := (blockRows 0 ss).flatMap Row.text

/-! ## Statements without lines -/

mutual

/-- **A statement without its line** and without those of the statements in it. -/
def Stmt.unlined : Stmt → Stmt
  | .mk _ action => .mk 0 action.unlined

/-- What a statement does, without lines. -/
def Action.unlined : Action → Action
  | .branch test yes no => .branch test (blockUnlined yes) (blockUnlined no)
  | .loop test body => .loop test (blockUnlined body)
  | .each target items body => .each target items (blockUnlined body)
  | .guard body handlers final => .guard (blockUnlined body) (handlersUnlined handlers) (blockUnlined final)
  | .define f => .define f.unlined
  | a => a

/-- A function without lines. -/
def FunctionDef.unlined : FunctionDef → FunctionDef
  | .mk name params body isAsync => .mk name params (blockUnlined body) isAsync

/-- Handlers without lines. -/
def handlersUnlined : List Handler → List Handler
  | [] => []
  | .mk kind name body :: rest => .mk kind name (blockUnlined body) :: handlersUnlined rest

/-- Statements without lines. -/
def blockUnlined : List Stmt → List Stmt
  | [] => []
  | s :: ss => s.unlined :: blockUnlined ss

end

theorem blockUnlined_eq_map (ss : List Stmt) : blockUnlined ss = ss.map Stmt.unlined := by
  induction ss with
  | nil => rfl
  | cons s ss ih => exact congrArg (_ :: ·) ih

/-! ## Legible statements -/

/-- A module name that sources can write: names with points between them. -/
def IsModuleName (m : String) : Prop :=
  ∃ (n : String) (ns : List String), IsName n ∧ (∀ n ∈ ns, IsName n) ∧ m = ns.foldl (fun m n => m ++ "." ++ n) n

/-- **Simple statements that sources without floating point literals can write.** -/
inductive Action.Simple : Action → Prop
  | eval {e : Expr} (h : e.Legible) : Simple (.eval e)
  | assign {targets : List Target} {value : Expr} (hne : targets ≠ []) (ht : ∀ t ∈ targets, t.expr.Legible)
      (hv : value.Legible) : Simple (.assign targets value)
  | augment {target : Target} {op : BinaryOp} {value : Expr} (ht : target.expr.Legible)
      (hone : ∀ ts, target ≠ .tuple ts) (hop : op ≠ .pow) (hv : value.Legible) :
      Simple (.augment target op value)
  | load {m : String} {newName : Option String} (hm : IsModuleName m) (hn : ∀ n ∈ newName, IsName n) :
      Simple (.load m newName)
  | raise {value : Option Expr} (h : ∀ e ∈ value, e.Legible) : Simple (.raise value)
  | pass : Simple .pass
  | delete {targets : List Target} (h : ∀ t ∈ targets, t.expr.Legible) : Simple (.delete targets)
  | assert {test : Expr} {message : Option Expr} (ht : test.Legible) (hm : ∀ e ∈ message, e.Legible) :
      Simple (.assert test message)
  | globals {names : List String} (hne : names ≠ []) (h : ∀ n ∈ names, IsName n) : Simple (.globals names)
  | exit {value : Option Expr} (h : ∀ e ∈ value, e.Legible) : Simple (.exit value)
  | leave : Simple .leave
  | next : Simple .next

/-- Parameters that sources can write. -/
structure ParamsLegible (params : List Param) : Prop where
  /-- Their names are words. -/
  names : ∀ p ∈ params, IsName p.name
  /-- Their defaults are legible. -/
  defaults : ∀ p ∈ params, ∀ e ∈ p.default, e.Legible
  /-- After a parameter with a default, all have one. -/
  order : params.Pairwise fun p q => p.default.isSome → q.default.isSome

/-- The head of a handler that sources can write: a name has a kind before it. -/
structure HeadLegible (kind : Option Expr) (newName : Option String) : Prop where
  /-- The kind is legible. -/
  legible : ∀ e ∈ kind, e.Legible
  /-- The name is a word. -/
  word : ∀ n ∈ newName, IsName n
  /-- Nothing is bound without a kind. -/
  bound : kind = none → newName = none

namespace Handler

/-- The kind of exceptions that are handled. -/
def kind : Handler → Option Expr
  | .mk kind .. => kind

/-- The name that exceptions are bound to. -/
def name : Handler → Option String
  | .mk _ name _ => name

/-- The statements of a handler. -/
def body : Handler → List Stmt
  | .mk _ _ body => body

end Handler

/-- **Statements that sources without floating point literals can write.** -/
inductive Stmt.Legible : Stmt → Prop
  | simple {line : Nat} {a : Action} (h : a.Simple) : Legible (.mk line a)
  | branch {line : Nat} {test : Expr} {yes no : List Stmt} (ht : test.Legible) (hyes : yes ≠ [])
      (hy : ∀ s ∈ yes, Legible s) (hn : ∀ s ∈ no, Legible s) : Legible (.mk line (.branch test yes no))
  | loop {line : Nat} {test : Expr} {body : List Stmt} (ht : test.Legible) (hbody : body ≠ [])
      (hb : ∀ s ∈ body, Legible s) : Legible (.mk line (.loop test body))
  | each {line : Nat} {target : Target} {items : Expr} {body : List Stmt} (ht : target.expr.Legible)
      (hi : items.Legible) (hbody : body ≠ []) (hb : ∀ s ∈ body, Legible s) :
      Legible (.mk line (.each target items body))
  | guard {line : Nat} {body : List Stmt} {handlers : List Handler} {final : List Stmt} (hbody : body ≠ [])
      (hb : ∀ s ∈ body, Legible s) (hheads : ∀ h ∈ handlers, HeadLegible h.kind h.name)
      (hbodies : ∀ h ∈ handlers, h.body ≠ []) (hh : ∀ h ∈ handlers, ∀ s ∈ h.body, Legible s)
      (hf : ∀ s ∈ final, Legible s) (hany : handlers ≠ [] ∨ final ≠ []) :
      Legible (.mk line (.guard body handlers final))
  | define {line : Nat} {name : String} {params : List Param} {body : List Stmt} {isAsync : Bool}
      (hn : IsName name) (hp : ParamsLegible params) (hbody : body ≠ []) (hb : ∀ s ∈ body, Legible s) :
      Legible (.mk line (.define (.mk name params body isAsync)))

section Lexing

variable {blocks blocks' : List Nat} {c k : Nat} {layout ts : List Token} {rest : List Char}

/-! ## Open blocks -/

/-- The columns of the blocks around a row that is so deep. -/
def openBlocks : Nat → List Nat
  | 0 => []
  | k + 1 => 4 * (k + 1) :: openBlocks k

theorem openBlocks_head (k : Nat) : (openBlocks k).head?.getD 0 = 4 * k := by
  cases k <;> rfl

theorem openBlocks_length (k : Nat) : (openBlocks k).length = k := by
  induction k with
  | zero => rfl
  | succ k ih => exact congrArg (· + 1) ih

theorem closeBlocks_openBlocks (h : k ≤ c) : closeBlocks (4 * k) (openBlocks c) = (openBlocks k, c - k) := by
  induction c with
  | zero =>
    cases Nat.le_zero.mp h
    rfl
  | succ c ih =>
    rw [openBlocks, closeBlocks]
    by_cases hk : k ≤ c
    · rw [if_pos (by omega), ih hk, Nat.succ_sub hk]
    · cases Nat.le_antisymm h (Nat.lt_of_not_le hk)
      rw [if_neg (Nat.lt_irrefl _), Nat.sub_self, openBlocks]

/-- A row that is one deeper opens a block. -/
theorem opens_deeper (k : Nat) : Opens (4 * (k + 1)) (openBlocks k) [.indent] (openBlocks (k + 1)) :=
  .deeper (by rw [openBlocks_head]; omega)

/-- A row that is less deep closes blocks. -/
theorem opens_back (h : k ≤ c) :
    Opens (4 * k) (openBlocks c) (List.replicate (c - k) .dedent) (openBlocks k) :=
  .back (by rw [openBlocks_head]; omega) (closeBlocks_openBlocks h) (openBlocks_head k)

/-! ## One row -/

/-- Blanks at the start of a line. -/
theorem Lexes.indentation (n : Nat) (hrest : ∀ c ∈ rest.head?, isInlineBlank c = false) :
    Lexes (LineStart blocks 0) (List.replicate n ' ') [] (LineStart blocks n) rest := by
  cases n with
  | zero => exact .nil
  | succ n =>
    rintro st ⟨hindents, hdepth, hstart, hcolumn⟩
    have hrun : runLength isInlineBlank (List.replicate n ' ' ++ rest) = n := by
      have hall : (List.replicate n ' ').all isInlineBlank = true :=
        List.all_eq_true.mpr fun c hc => by rw [List.eq_of_mem_replicate hc]; rfl
      rw [runLength_append hall hrest, List.length_replicate]
    have hscan : scan? (' ' :: (List.replicate n ' ' ++ rest)) =
        some (.blanks, (List.replicate n ' ').length) := by
      rw [List.length_replicate]
      unfold scan?
      simp [isInlineBlank, hrun]
    have hcolumns (m : Nat) (cs : Nat) :
        (List.replicate m ' ').foldl (fun n c => n + if c = '\t' then 8 else 1) cs = cs + m := by
      induction m generalizing cs with
      | zero => rfl
      | succ m ih =>
        rw [List.replicate_succ, List.foldl_cons, ih]
        exact Nat.add_right_comm cs 1 m
    refine ⟨st.pass (List.replicate (n + 1) ' '), [], ⟨hindents, hdepth, hstart, ?_⟩, rfl,
      tokensFrom_cons hscan rfl⟩
    rw [Layout.pass, hcolumn, columns, hcolumns, Nat.zero_add, Nat.zero_add]

/-- The end of a line. -/
theorem Lexes.lineEnd : Lexes (InLine blocks 0) ['\n'] [.newline] (LineStart blocks 0) rest := by
  rintro st ⟨hindents, hdepth, hstart⟩
  have hscan : scan? ('\n' :: ([] ++ rest)) = some (.lineEnd, 0) := by
    unfold scan?
    simp [isInlineBlank]
  have hadvance : st.advance .lineEnd ['\n'] = .ok ({ st.passLineEnd ['\n'] with atLineStart := true },
      [⟨.newline, st.byte, (st.passLineEnd ['\n']).byte, st.line⟩]) := by
    unfold Layout.advance
    rw [hdepth, hstart]
    rfl
  exact ⟨{ st.passLineEnd ['\n'] with atLineStart := true }, _, ⟨hindents, hdepth, rfl, rfl⟩, rfl,
    tokensFrom_cons hscan hadvance⟩

/-- **A row is lexed** as its layout, its tokens and the end of the line. -/
theorem Row.lexes (hinline : Inline ts) (hne : ts ≠ []) (ho : Opens (4 * k) blocks layout blocks') :
    Lexes (LineStart blocks 0) (Row.text ⟨k, ts⟩) (layout ++ (ts ++ [.newline])) (LineStart blocks' 0) rest := by
  obtain ⟨t, us, rfl⟩ := List.exists_cons_of_ne_nil hne
  obtain ⟨ht, hus⟩ := List.forall_mem_cons.mp hinline.writable
  have hend : Delimited ('\n' :: rest) := by
    rintro _ ⟨⟩
    decide
  have htext : Row.text ⟨k, t :: us⟩ =
      List.replicate (4 * k) ' ' ++ (t.text ++ (spacedAfter us ++ ['\n'])) := by
    rw [Row.text, spaced_cons, List.append_assoc, List.append_assoc]
  have hlayout : layout ++ (t :: us ++ [.newline]) = [] ++ (layout ++ [t] ++ (us ++ [.newline])) := by simp
  have hafter : Delimited (spacedAfter us ++ ['\n'] ++ rest) := by
    rw [List.append_assoc]
    exact hend.spacedAfter us
  have hwords : Lexes (InLine blocks' (t.nest 0)) (spacedAfter us) us (InLine blocks' 0) ('\n' :: rest) := by
    have hclosed : nestAll (t.nest 0) us = 0 := hinline.balanced 0
    exact (spacedAfter_writes hus hend).lexes.mono (fun _ hst => hst) fun _ hst => hclosed ▸ hst
  rw [htext, hlayout]
  refine (Lexes.indentation (4 * k) ?_).append ((Lexes.first ho ht (hafter.endsAt t)).append
    (hwords.append .lineEnd))
  rw [List.append_assoc]
  exact ht.text_head _

/-! ## Rows one after the other -/

/-- The tokens of a head with a block after it. -/
def suiteTokens (head body : List Token) : List Token := head ++ .newline :: .indent :: (body ++ [.dedent])

/-- **The tokens that rows stand for,** in a block that is so deep: the tokens of a row and the end of its
line, the head of a block and its statements between the layout that opens and closes it, and rows that
follow each other. -/
inductive Lays : Nat → List Row → List Token → Prop
  | row {k : Nat} {ts : List Token} (hinline : Inline ts) (hne : ts ≠ []) :
      Lays k [⟨k, ts⟩] (ts ++ [.newline])
  | suite {k : Nat} {head ts : List Token} {rows : List Row} (hinline : Inline head) (hne : head ≠ [])
      (h : Lays (k + 1) rows ts) :
      Lays k (⟨k, head⟩ :: rows) (suiteTokens head ts)
  | append {k : Nat} {rows rows' : List Row} {ts us : List Token} (h : Lays k rows ts)
      (h' : Lays k rows' us) : Lays k (rows ++ rows') (ts ++ us)

/-- What follows rows may be nothing. -/
theorem Lays.append_or {rows rows' : List Row} {us : List Token} (h : Lays k rows ts)
    (h' : rows' = [] ∧ us = [] ∨ Lays k rows' us) : Lays k (rows ++ rows') (ts ++ us) := by
  rcases h' with ⟨rfl, rfl⟩ | h'
  · rwa [List.append_nil, List.append_nil]
  · exact h.append h'

/-- **Rows are lexed as their tokens,** up to the ends of the blocks that are open behind them. -/
theorem Lays.lexes {rows : List Row} (h : Lays k rows ts)
    (ho : Opens (4 * k) (openBlocks c) layout (openBlocks k)) :
    ∃ us e, k ≤ e ∧ layout ++ ts = us ++ List.replicate (e - k) .dedent ∧
      ∀ rest, Lexes (LineStart (openBlocks c) 0) (rows.flatMap Row.text) us (LineStart (openBlocks e) 0) rest := by
  induction h generalizing c layout with
  | @row k ts hinline hne =>
    refine ⟨layout ++ (ts ++ [.newline]), k, Nat.le_refl k, by simp, fun rest => ?_⟩
    rw [List.flatMap_singleton]
    exact Row.lexes hinline hne ho
  | @suite k head ts rows hinline hne h ih =>
    obtain ⟨us, e, hle, hus, hlexes⟩ := ih (opens_deeper k)
    refine ⟨layout ++ (head ++ [.newline]) ++ us, e, by omega, ?_, fun rest => ?_⟩
    · -- One more block is open behind the rows than behind those of the block.
      have hend : List.replicate (e - k) Token.dedent = List.replicate (e - (k + 1)) .dedent ++ [.dedent] := by
        rw [← List.replicate_succ']
        congr 1
        omega
      have hblock : Token.indent :: ts = us ++ List.replicate (e - (k + 1)) .dedent := hus
      calc layout ++ suiteTokens head ts
          = layout ++ (head ++ [.newline]) ++ ((.indent :: ts) ++ [.dedent]) := by simp [suiteTokens]
        _ = layout ++ (head ++ [.newline]) ++ us ++ List.replicate (e - k) .dedent := by
          rw [hblock, hend]
          simp only [List.append_assoc]
    · rw [List.flatMap_cons]
      exact (Row.lexes hinline hne ho).append (hlexes rest)
  | @append k rows rows' ts us h h' ih ih' =>
    obtain ⟨vs, d, hd, hvs, hlexes⟩ := ih ho
    obtain ⟨ws, e, he, hws, hlexes'⟩ := ih' (opens_back hd)
    refine ⟨vs ++ ws, e, he, ?_, fun rest => ?_⟩
    · rw [← List.append_assoc, hvs, List.append_assoc, hws, List.append_assoc]
    · rw [List.flatMap_append]
      exact (hlexes _).append (hlexes' rest)

/-- **A source of rows is lexed as their tokens** and the end of the source, which closes all blocks. -/
theorem tokens_rows {rows : List Row} (h : Lays 0 rows ts) :
    ∃ ps, tokens (rows.flatMap Row.text) = .ok ps ∧ ps.map Placed.token = ts ++ [.eof] := by
  obtain ⟨us, e, -, hus, hlexes⟩ := h.lexes (opens_back (Nat.le_refl 0))
  obtain ⟨st, ps, ⟨hindents, -, hstart, -⟩, hps, hs⟩ := hlexes [] .start ⟨rfl, rfl, rfl, rfl⟩
  rw [List.append_nil] at hs
  refine ⟨ps ++ st.finish, ?_, ?_⟩
  · rw [tokens, hs, tokensFrom]
    rfl
  · have hlayout : ts = us ++ List.replicate e .dedent := hus
    rw [List.map_append, hps, hlayout, List.append_assoc]
    simp [Layout.finish, hstart, hindents, Layout.mark, openBlocks_length]

end Lexing

end Transcript.Lang
