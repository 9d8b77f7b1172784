import Transcript.Lang.Compile
import Transcript.Proofs.Except
import Transcript.Proofs.Lang.MakesStmt
import Transcript.Proofs.Lang.Nesting
import Transcript.Proofs.Lang.Simple
import Transcript.Proofs.Lang.Written

/-!
# Programs are read back from their texts

An expression is written as its tokens with single blanks between them, with parentheses only around
operands that bind less tightly than their places ask for. The source is lexed as these tokens, and they
are read as the expression, so the one statement of the source evaluates that expression again.
What a source is read as can be written again, in rows, and the rows are read as the same statements.
Between the two stand the tokens: the lexer makes layout of the columns at which rows start, and the reader
takes each block up to the token that closes it, so both follow the statements.

Results:
* `statements_written`: a text that writes an expression is a source that evaluates it.
* `expression_reread`: a legible expression is read back from its text.
* `statements_of_rows`: legible statements are read back from their rows.
* `blocks_reread`: so are the statements of each source without floating point literals.
-/

namespace Transcript.Lang

/-! ## Expressions -/

section

open Reader Reader.Accepts

variable {e : Expr} {fuel : Nat}

/-- The text of an expression, with parentheses only where they are needed. -/
def Expr.text (e : Expr) : List Char := spaced (e.spell false)

theorem Expr.spellAt_loosest (e : Expr) : e.spellAt false .conditional = e.spell false := by
  unfold Expr.spellAt enclose
  exact if_neg (Nat.not_lt_zero _)

/-- The tokens of an expression on a line make a module of one statement. -/
theorem module_accepts (h : e.Legible) (hfuel : 24 * (e.spell false).length + 4 < fuel) :
    Accepts (Reader.module fuel) (e.spell false ++ [.newline]) (fun ss => ss.map Stmt.action = [.eval e])
      (· = .eof) := by
  obtain ⟨fuel, rfl⟩ : ∃ f, fuel = f + 3 := Nat.exists_eq_add_of_le' (by omega)
  have hbound : 24 * (e.spellAt false .conditional).length + 1 < fuel := by
    rw [e.spellAt_loosest]
    omega
  have heval := eval_accepts (h.readable false) hbound
  rw [e.spellAt_loosest] at heval
  obtain ⟨t, us, hspell, ht, -⟩ := h.starts false
  have hne {u : Token} (hu : u.leads .conditional = false) : t ≠ u := by
    rintro rfl
    exact Bool.false_ne_true (hu.symm.trans (Token.leads_of_rank_le ht (Nat.zero_le _)))
  have hcons : e.spell false ++ [.newline] = t :: (us ++ [.newline]) := by rw [hspell]; rfl
  have hline : Accepts (statement (fuel + 2)) (e.spell false ++ [.newline])
      (fun ss => ss.map Stmt.action = [.eval e]) (fun _ => True) := by
    refine (statement_of_simple hcons ?_ (line_accepts heval)).mono ?_ fun _ hq => hq
    · have hall : ∀ k ∈ [Keyword.if, .while, .for, .try, .define, .async],
          (key k).leads .conditional = false := by decide
      exact fun k hk => hne (hall k hk)
    · rintro _ ⟨line, rfl⟩
      rfl
  have hfirst : t ≠ .eof ∧ t ≠ .indent ∧ t ≠ .newline := ⟨hne rfl, hne rfl, hne rfl⟩
  have hend (here : List Stmt) (hhere : here.map Stmt.action = [.eval e]) :
      Accepts (Reader.module (fuel + 2)) [] (fun rest => (here ++ rest).map Stmt.action = [.eval e])
        (· = .eof) := by
    refine module_nil.mono ?_ fun _ hq => hq
    rintro _ rfl
    rwa [List.append_nil]
  have hmodule : Accepts (Reader.module (fuel + 3)) (e.spell false ++ [.newline] ++ [])
      (fun ss => ss.map Stmt.action = [.eval e]) (· = .eof) :=
    module_cons hcons hfirst hline hend fun _ _ => trivial
  rwa [List.append_nil] at hmodule

theorem read_expression (h : e.Legible) {ps : List Placed}
    (hps : ps.map Placed.token = e.spell false ++ [.newline, .eof]) :
    (Reader.read ps).map (List.map Stmt.action) = .ok [.eval e] := by
  have hlength : ps.length = (e.spell false).length + 2 := by
    rw [← List.length_map (f := Placed.token), hps, List.length_append]
    rfl
  have hbound : 24 * (e.spell false).length + 4 < fuelFor ps.length := by
    rw [hlength, fuelFor]
    omega
  rw [← List.singleton_append, ← List.append_assoc] at hps
  obtain ⟨body, hbody, hread⟩ := read_of_accepts hps (module_accepts h hbound)
  rw [hread]
  exact congrArg Except.ok hbody

/-- **A text that writes a legible expression** is the source of one statement, which evaluates it. -/
theorem statements_written (h : e.Legible) {s : List Char} (hwrites : Writes [] (e.spell false) s)
    (hs : ∀ c ∈ s.head?, isInlineBlank c = false) (filename : String) :
    (statements s filename).map (List.map Stmt.action) = .ok [.eval e] := by
  obtain ⟨t, us, hspell, -⟩ := h.starts false
  obtain ⟨ps, htokens, hps⟩ := tokens_line (hspell ▸ hwrites) hs
  have hread := read_expression h (hps.trans (congrArg (· ++ _) hspell.symm))
  rw [statements, htokens]
  cases hbody : Reader.read ps with
  | error problem =>
    rw [hbody] at hread
    cases hread
  | ok body =>
    rw [hbody] at hread
    simp only [hbody]
    exact congrArg Except.ok (Except.ok.inj hread)

/-- **A legible expression is read back** from its text: the tokens of the expression with single blanks
between them. -/
theorem expression_reread (e : Expr) (h : e.Legible) (filename : String) :
    (statements e.text filename).map (List.map Stmt.action) = .ok [.eval e] := by
  have hwritable := (h.inline false).writable
  obtain ⟨t, us, hspell, -⟩ := h.starts false
  rw [hspell] at hwritable
  obtain ⟨ht, hus⟩ := List.forall_mem_cons.mp hwritable
  have hend : Delimited [] := nofun
  have htext : e.text = t.text ++ spacedAfter us := by rw [Expr.text, hspell, spaced_cons]
  have hwrites : Writes [] (e.spell false) e.text := by
    rw [hspell, htext]
    exact .token ht ((hend.spacedAfter us).endsAt t) (spacedAfter_writes hus hend)
  refine statements_written h hwrites ?_ filename
  rw [htext]
  exact ht.text_head _

/-- A sum under a sign, a power with a sign in its exponent, a call, a comparison of two words and a slice
of what is awaited, in the branches of a condition. -/
theorem expression_reread_mixed :
    (statements
      "- ( d + 1 ) * f ( x , k = [ ] ) ** - 2 if not b is not c else await g . h [ : 'it\\'s \"' ]".toList
      "<doc>").map (List.map Stmt.action) =
      .ok [.eval (.conditional (.unary .not (.compare (.name "b") [(.notSame, .name "c")]))
        (.binary .mul (.unary .negate (.binary .add (.name "d") (.constant (.int 1))))
          (.binary .pow (.call (.name "f") [.name "x"] [("k", .list [])])
            (.unary .negate (.constant (.int 2)))))
        (.await (.subscript (.attribute (.name "g") "h")
          (.slice none (some (.constant (.str ['i', 't', '\'', 's', ' ', '"'])))))))] := by
  have hname (c : Char) (hc : isNameStart c = true) (hk : Keyword.ofText? (String.ofList [c]) = none) :
      IsName (String.ofList [c]) := ⟨⟨c, [], String.toList_ofList, hc, rfl⟩, hk⟩
  have htest : (Expr.unary .not (.compare (.name "b") [(.notSame, .name "c")])).Legible :=
    .unary (.compare (.name (hname 'b' rfl rfl)) (List.cons_ne_nil _ _)
      (List.forall_mem_singleton.mpr (.name (hname 'c' rfl rfl))))
  have hcall : (Expr.call (.name "f") [.name "x"] [("k", .list [])]).Legible :=
    .call (.name (hname 'f' rfl rfl)) (List.forall_mem_singleton.mpr (.name (hname 'x' rfl rfl)))
      (List.forall_mem_singleton.mpr (hname 'k' rfl rfl)) (by simp)
      (List.forall_mem_singleton.mpr (.list nofun))
  have hone : (Constant.int 1).Legible := show (0 : Int64) ≤ 1 by decide
  have htwo : (Constant.int 2).Legible := show (0 : Int64) ≤ 2 by decide
  have hsum : (Expr.binary .add (.name "d") (.constant (.int 1))).Legible :=
    .binary (.name (hname 'd' rfl rfl)) (.constant hone)
  have hproduct : (Expr.binary .mul (.unary .negate (.binary .add (.name "d") (.constant (.int 1))))
      (.binary .pow (.call (.name "f") [.name "x"] [("k", .list [])])
        (.unary .negate (.constant (.int 2))))).Legible :=
    .binary (.unary hsum) (.binary hcall (.unary (.constant htwo)))
  have hawait : (Expr.await (.subscript (.attribute (.name "g") "h")
      (.slice none (some (.constant (.str ['i', 't', '\'', 's', ' ', '"'])))))).Legible :=
    .await (.sliced (.attribute (.name (hname 'g' rfl rfl)) (hname 'h' rfl rfl)) nofun
      (by rintro _ ⟨⟩; exact .constant trivial))
  refine Eq.trans (congrArg (fun source => (statements source "<doc>").map (List.map Stmt.action)) ?_)
    (expression_reread _ (.conditional htest hproduct hawait) "<doc>")
  decide +kernel

end

/-! ## Statements -/

section

open Reader

theorem read_block {ss : List Stmt} (h : ∀ s ∈ ss, s.Legible) {ps : List Placed}
    (hps : ps.map Placed.token = blockTokens ss ++ [.eof]) : ∃ ss', SameBlock ss ss' ∧ Reader.read ps = .ok ss' := by
  have hfuel : 24 * (blockTokens ss).length < fuelFor ps.length := by
    rw [← List.length_map (f := Placed.token), hps, List.length_append, fuelFor]
    omega
  exact read_of_accepts hps (module_accepts_block h hfuel)

/-- **Legible statements are read back** from their rows, but for their lines. -/
theorem statements_of_rows {ss : List Stmt} (h : ∀ s ∈ ss, s.Legible) (filename : String) :
    (statements (written ss) filename).map (List.map Stmt.unlined) = .ok (ss.map Stmt.unlined) := by
  obtain ⟨ps, htokens, hps⟩ := tokens_written h
  obtain ⟨ss', hsame, hread⟩ := read_block h hps
  rw [statements, htokens]
  simp only [hread]
  exact congrArg Except.ok hsame

/-- **Statements are read back from their rows:** those of a source without floating point literals, each
simple statement and each head of a block on a line of its own, each block four blanks further right than its
head, and all expressions in full. -/
theorem blocks_reread (source : List Char) (filename : String) (ss : List Stmt)
    (hfloat : ∀ ps, tokens source = .ok ps → NoFloats (ps.map Placed.token))
    (h : statements source filename = .ok ss) :
    (statements (written ss) filename).map (List.map Stmt.unlined) = .ok (ss.map Stmt.unlined) :=
  statements_of_rows (statements_legible hfloat h) filename

/-- Lines with their ends. -/
def linesOf (ls : List String) : List Char := ls.flatMap fun l => l.toList ++ ['\n']

/-- A coroutine with a chain of branches in a loop, and a guarded block, with several statements on a line and
blocks on the lines of their heads. -/
def nestedSource : List Char := linesOf [
  "async def f(a, b=1):",
  "  for i in a:",
  "    if i: del a[i]; return await g(i)",
  "    elif b:",
  "      while True: break",
  "    else: b += -1",
  "try:",
  "\tf(x).y",
  "except E as e: raise",
  "finally:",
  "\timport m.n as k"]

/-- The rows of that source. -/
def nestedRows : List Char := linesOf [
  "async def f ( a , b = 1 ) :",
  "    for i in a :",
  "        if i :",
  "            del ( ( a [ i ] ) , )",
  "            return ( await ( g ( i ) ) )",
  "        elif b :",
  "            while True :",
  "                break",
  "        else :",
  "            b += ( - 1 )",
  "try :",
  "    ( ( f ( x ) ) . y )",
  "except E as e :",
  "    raise",
  "finally :",
  "    import m . n as k"]

/-- Several blocks end before the guarded one. -/
theorem blocks_reread_nested : ∃ ss, statements nestedSource "<doc>" = .ok ss ∧ written ss = nestedRows ∧
    (statements (written ss) "<doc>").map (List.map Stmt.unlined) = .ok (ss.map Stmt.unlined) := by
  have hrows : (statements nestedSource "<doc>").toOption.map written = some nestedRows := by decide +kernel
  have hfloats : ((tokens nestedSource).toOption.all fun ps => decide (NoFloats (ps.map Placed.token))) = true := by
    decide +kernel
  obtain ⟨ss, hss, hwritten⟩ := Option.map_eq_some_iff.mp hrows
  have hstatements : statements nestedSource "<doc>" = .ok ss := Except.toOption_eq_some.mp hss
  refine ⟨ss, hstatements, hwritten, blocks_reread nestedSource "<doc>" ss (fun ps hps => ?_) hstatements⟩
  rw [hps] at hfloats
  exact of_decide_eq_true hfloats

end

end Transcript.Lang
