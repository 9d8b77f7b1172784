import Transcript.Lang.Lexer
import Transcript.Lang.Reader

/-!
# How expressions are spelled

An expression is spelled as tokens, with parentheses around an operand that binds less tightly than its
place asks for, or, in full, around every operand that is not an atom. A power asks for an operand on its
left that is a primary, or an await of one, and for one on its right that may have a sign.

Legible expressions are those that sources without floating point literals can write: integers are not
negative, bytes are ASCII, names are words and no keywords, comparisons compare something, named arguments
differ in their names, and slices stand as an index only.

Results:
* `Expr.spell`: the tokens of an expression.
* `Expr.Legible`: the expressions that sources can write.
* `Expr.Legible.starts`: an expression of a level starts with a token that such an expression may start with.
-/

namespace Transcript.Lang

open Reader (sym key)

/-! ## Levels -/

/-- **Levels of precedence,** from the loosest to the tightest. -/
inductive Level
  | conditional | or | and | not | comparison | sum | product | sign | power | primary | atom
  deriving DecidableEq, Repr

namespace Level

/-- The place of a level among the others. -/
def rank : Level → Nat
  | .conditional => 0
  | .or => 1
  | .and => 2
  | .not => 3
  | .comparison => 4
  | .sum => 5
  | .product => 6
  | .sign => 7
  | .power => 8
  | .primary => 9
  | .atom => 10

/-- The next tighter level. -/
def tighter : Level → Level
  | .conditional => .or
  | .or => .and
  | .and => .not
  | .not => .comparison
  | .comparison => .sum
  | .sum => .product
  | .product => .sign
  | .sign => .power
  | .power => .primary
  | .primary | .atom => .atom

theorem rank_injective {level level' : Level} (h : level.rank = level'.rank) : level = level' := by
  cases level <;> cases level' <;> first | rfl | cases h

end Level

/-- The level of an arithmetic operator. -/
def BinaryOp.level : BinaryOp → Level
  | .add | .sub => .sum
  | .mul | .div | .floorDiv | .mod => .product
  | .pow => .power

/-- The level of an operator with one operand. -/
def UnaryOp.level : UnaryOp → Level
  | .negate | .plus => .sign
  | .not => .not

/-- The level of an operator that may leave its second operand alone. -/
def LogicOp.level : LogicOp → Level
  | .and => .and
  | .or => .or

/-- **The level of an expression.** A slice stands alone in its brackets. -/
def Expr.level : Expr → Level
  | .conditional .. => .conditional
  | .logic op .. => op.level
  | .compare .. => .comparison
  | .binary op .. => op.level
  | .unary op _ => op.level
  | .await _ => .power
  | .call .. | .attribute .. | .subscript .. => .primary
  | .constant _ | .name _ | .list _ | .tuple _ | .dict _ | .slice .. => .atom

/-- The level that an arithmetic operator asks for on its left: that of the operator itself, but for
powers, which ask for a primary or an await. -/
def BinaryOp.leftLevel (op : BinaryOp) (left : Expr) : Level :=
  match op, left with
  | .pow, .await _ => .power
  | .pow, _ => .primary
  | op, _ => op.level

theorem BinaryOp.level_le_leftLevel (op : BinaryOp) (left : Expr) :
    op.level.rank ≤ (op.leftLevel left).rank := by
  unfold leftLevel
  split
  · decide
  · decide
  · exact Nat.le_refl _

/-- The level that an arithmetic operator asks for on its right. -/
def BinaryOp.rightLevel : BinaryOp → Level
  | .pow => .sign
  | op => op.level.tighter

/-! ## Spelling -/

/-- The token of an arithmetic operator. -/
def BinaryOp.token : BinaryOp → Token
  | .add => sym .plus
  | .sub => sym .minus
  | .mul => sym .star
  | .div => sym .slash
  | .floorDiv => sym .floorDiv
  | .mod => sym .percent
  | .pow => sym .power

/-- The token of an operator with one operand. -/
def UnaryOp.token : UnaryOp → Token
  | .negate => sym .minus
  | .plus => sym .plus
  | .not => key .not

/-- The token of an operator that may leave its second operand alone. -/
def LogicOp.token : LogicOp → Token
  | .and => key .and
  | .or => key .or

/-- The tokens of a comparison. -/
def CompareOp.tokens : CompareOp → List Token
  | .equal => [sym .equal]
  | .notEqual => [sym .notEqual]
  | .less => [sym .less]
  | .lessEqual => [sym .lessEqual]
  | .greater => [sym .greater]
  | .greaterEqual => [sym .greaterEqual]
  | .member => [key .in]
  | .notMember => [key .not, key .in]
  | .same => [key .is]
  | .notSame => [key .is, key .not]

/-- The token of a literal. -/
def Constant.token : Constant → Token
  | .none => key .none
  | .bool true => key .true
  | .bool false => key .false
  | .int n => .int n
  | .float d => .float d
  | .str s => .str s
  | .bytes b => .bytes b

/-- Tokens in parentheses. -/
def parens (ts : List Token) : List Token := sym .openParen :: (ts ++ [sym .closeParen])

/-- The level that a place asks for: an atom in full spelling. -/
def Level.asked (full : Bool) (level : Level) : Level := if full then .atom else level

theorem Level.rank_le_asked (full : Bool) (level : Level) : level.rank ≤ (level.asked full).rank := by
  cases full with
  | false => exact Nat.le_refl _
  | true => cases level <;> decide

/-- The tokens of an expression where a level is asked for. -/
def enclose (full : Bool) (level : Level) (e : Expr) (ts : List Token) : List Token :=
  if e.level.rank < (level.asked full).rank then parens ts else ts

/-- Parts with commas between them. -/
def commaSeparated (parts : List (List Token)) : List Token := [sym .comma].intercalate parts

theorem commaSeparated_singleton (part : List Token) : commaSeparated [part] = part := by
  simp [commaSeparated]

/-- What follows a part: the other parts with a comma before each of them. -/
def commaTail : List (List Token) → List Token
  | [] => []
  | parts => sym .comma :: commaSeparated parts

theorem commaSeparated_cons (part : List Token) (parts : List (List Token)) :
    commaSeparated (part :: parts) = part ++ commaTail parts := by
  cases parts with
  | nil => rw [commaSeparated_singleton, commaTail, List.append_nil]
  | cons next parts => simp [commaTail, commaSeparated, List.intercalate_cons_cons]

theorem commaTail_length {parts : List (List Token)} (hne : parts ≠ []) :
    (commaSeparated parts).length < (commaTail parts).length := by
  cases parts with
  | nil => exact absurd rfl hne
  | cons part parts => exact Nat.lt_succ_self _

/-- The items of a tuple; a comma follows a single one. -/
def tupleItems : List (List Token) → List Token
  | [item] => item ++ [sym .comma]
  | items => commaSeparated items

section

variable (full : Bool)

mutual

/-- **The tokens of an expression.** -/
def Expr.spell : Expr → List Token
  | .constant c => [c.token]
  | .name n => [.name n]
  | .list items => sym .openBracket :: (commaSeparated (spellAll items) ++ [sym .closeBracket])
  | .tuple items => parens (tupleItems (spellAll items))
  | .dict items => sym .openBrace :: (commaSeparated (spellPairs items) ++ [sym .closeBrace])
  | .binary op l r =>
    enclose full (op.leftLevel l) l l.spell ++ op.token :: enclose full op.rightLevel r r.spell
  | .unary op e => op.token :: enclose full op.level e e.spell
  | .logic op l r =>
    enclose full op.level l l.spell ++ op.token :: enclose full op.level.tighter r r.spell
  | .compare e rest => enclose full .sum e e.spell ++ spellCompared rest
  | .call f args named =>
    enclose full .primary f f.spell ++ parens (commaSeparated (spellAll args ++ spellNamed named))
  | .attribute e n => enclose full .primary e e.spell ++ [sym .dot, .name n]
  | .subscript e index =>
    enclose full .primary e e.spell ++
      sym .openBracket :: (enclose full .conditional index index.spell ++ [sym .closeBracket])
  | .slice lower upper => spellOption lower ++ sym .colon :: spellOption upper
  | .conditional test yes no =>
    enclose full .or yes yes.spell ++ key .if :: (enclose full .or test test.spell ++
      key .else :: enclose full .conditional no no.spell)
  | .await e => key .await :: enclose full .primary e e.spell

/-- The tokens of each expression of a list. -/
def spellAll : List Expr → List (List Token)
  | [] => []
  | e :: es => enclose full .conditional e e.spell :: spellAll es

/-- The tokens of each item of a dictionary. -/
def spellPairs : List (Expr × Expr) → List (List Token)
  | [] => []
  | (k, v) :: items =>
    (enclose full .conditional k k.spell ++ sym .colon :: enclose full .conditional v v.spell) ::
      spellPairs items

/-- The tokens of each named argument. -/
def spellNamed : List (String × Expr) → List (List Token)
  | [] => []
  | (n, e) :: named =>
    (.name n :: sym .assign :: enclose full .conditional e e.spell) :: spellNamed named

/-- The tokens of the comparisons of a chain. -/
def spellCompared : List (CompareOp × Expr) → List Token
  | [] => []
  | (op, e) :: rest => op.tokens ++ (enclose full .sum e e.spell ++ spellCompared rest)

/-- The tokens of an end of a slice that may be missing. -/
def spellOption : Option Expr → List Token
  | none => []
  | some e => enclose full .conditional e e.spell

end

/-- **The tokens of an expression where a level is asked for.** -/
def Expr.spellAt (level : Level) (e : Expr) : List Token := enclose full level e (e.spell full)

/-- The tokens of an item of a dictionary. -/
def pairTokens (item : Expr × Expr) : List Token :=
  item.1.spellAt full .conditional ++ sym .colon :: item.2.spellAt full .conditional

/-- The tokens of a named argument. -/
def namedTokens (arg : String × Expr) : List Token :=
  .name arg.1 :: sym .assign :: arg.2.spellAt full .conditional

theorem spellAll_eq_map (es : List Expr) :
    spellAll full es = es.map (Expr.spellAt full .conditional) := by
  induction es with
  | nil => rfl
  | cons e es ih => exact congrArg (_ :: ·) ih

theorem spellPairs_eq_map (items : List (Expr × Expr)) :
    spellPairs full items = items.map (pairTokens full) := by
  induction items with
  | nil => rfl
  | cons item items ih => exact congrArg (_ :: ·) ih

theorem spellNamed_eq_map (named : List (String × Expr)) :
    spellNamed full named = named.map (namedTokens full) := by
  induction named with
  | nil => rfl
  | cons arg named ih => exact congrArg (_ :: ·) ih

end

/-! ## Legible expressions -/

/-- A text that is a word and no keyword. -/
def IsName (n : String) : Prop :=
  (∃ c cs, n.toList = c :: cs ∧ isNameStart c = true ∧ cs.all isNamePart = true) ∧
    Keyword.ofText? n = none

/-- A literal that sources without floating point literals can write. -/
def Constant.Legible : Constant → Prop
  | .int n => 0 ≤ n
  | .bytes b => ∀ x ∈ b, x.toNat < 128
  | .float _ => False
  | .none | .bool _ | .str _ => True

/-- **Expressions that sources without floating point literals can write.** -/
inductive Expr.Legible : Expr → Prop
  | constant {c : Constant} (h : c.Legible) : Legible (.constant c)
  | name {n : String} (h : IsName n) : Legible (.name n)
  | list {items : List Expr} (h : ∀ e ∈ items, Legible e) : Legible (.list items)
  | tuple {items : List Expr} (h : ∀ e ∈ items, Legible e) : Legible (.tuple items)
  | dict {items : List (Expr × Expr)} (hk : ∀ item ∈ items, Legible item.1)
      (hv : ∀ item ∈ items, Legible item.2) : Legible (.dict items)
  | binary {op : BinaryOp} {l r : Expr} (hl : Legible l) (hr : Legible r) : Legible (.binary op l r)
  | unary {op : UnaryOp} {e : Expr} (h : Legible e) : Legible (.unary op e)
  | logic {op : LogicOp} {l r : Expr} (hl : Legible l) (hr : Legible r) : Legible (.logic op l r)
  | compare {e : Expr} {rest : List (CompareOp × Expr)} (h : Legible e) (hne : rest ≠ [])
      (hrest : ∀ operand ∈ rest, Legible operand.2) : Legible (.compare e rest)
  | call {f : Expr} {args : List Expr} {named : List (String × Expr)} (hf : Legible f)
      (hargs : ∀ e ∈ args, Legible e) (hnames : ∀ arg ∈ named, IsName arg.1)
      (hdistinct : (named.map Prod.fst).Nodup) (hnamed : ∀ arg ∈ named, Legible arg.2) :
      Legible (.call f args named)
  | «attribute» {e : Expr} {n : String} (h : Legible e) (hn : IsName n) : Legible (.attribute e n)
  | subscript {e index : Expr} (h : Legible e) (hi : Legible index) : Legible (.subscript e index)
  | sliced {e : Expr} {lower upper : Option Expr} (h : Legible e) (hl : ∀ e ∈ lower, Legible e)
      (hu : ∀ e ∈ upper, Legible e) : Legible (.subscript e (.slice lower upper))
  | conditional {test yes no : Expr} (ht : Legible test) (hy : Legible yes) (hn : Legible no) :
      Legible (.conditional test yes no)
  | await {e : Expr} (h : Legible e) : Legible (.await e)

/-! ## First tokens -/

/-- Whether an expression of a level, or of a tighter one, may start with a token. -/
def Token.leads (level : Level) : Token → Bool
  | .name _ | .int _ | .str _ | .bytes _ | .symbol .openParen | .symbol .openBracket
  | .symbol .openBrace | .keyword .true | .keyword .false | .keyword .none => true
  | .keyword .await => level.rank ≤ Level.power.rank
  | .symbol .minus | .symbol .plus => level.rank ≤ Level.sign.rank
  | .keyword .not => level.rank ≤ Level.not.rank
  | _ => false

theorem Token.leads_of_rank_le {level level' : Level} {t : Token} (h : t.leads level' = true)
    (hle : level.rank ≤ level'.rank) : t.leads level = true := by
  cases t with
  | keyword k =>
    cases k <;> first | rfl | exact decide_eq_true (Nat.le_trans hle (of_decide_eq_true h)) | cases h
  | symbol s =>
    cases s <;> first | rfl | exact decide_eq_true (Nat.le_trans hle (of_decide_eq_true h)) | cases h
  | float _ | newline | indent | dedent | eof => cases h
  | _ => rfl

/-- **Tokens that an expression of a level may start with.** The second one is no equals sign, which
would make a named argument of it. -/
def Starts (level : Level) (ts : List Token) : Prop :=
  ∃ t us, ts = t :: us ∧ t.leads level = true ∧ us.head? ≠ some (sym .assign)

namespace Starts

variable {level level' : Level} {t u : Token} {ts us : List Token}

theorem of_rank_le (h : Starts level' ts) (hle : level.rank ≤ level'.rank) : Starts level ts := by
  obtain ⟨t, us, rfl, ht, hus⟩ := h
  exact ⟨t, us, rfl, Token.leads_of_rank_le ht hle, hus⟩

theorem loosest (h : Starts level ts) : Starts .conditional ts := h.of_rank_le (Nat.zero_le _)

/-- The first token is one that an expression may start with. -/
theorem head_ne (h : Starts level ts) (ht : t.leads level = false) (vs : List Token) :
    (ts ++ vs).head? ≠ some t := by
  obtain ⟨u, us, rfl, hu, -⟩ := h
  intro heq
  cases heq
  exact Bool.false_ne_true (ht.symm.trans hu)

/-- An operator behind an operand changes nothing. -/
theorem append (h : Starts level ts) (hu : u ≠ sym .assign) (vs : List Token) :
    Starts level (ts ++ u :: vs) := by
  obtain ⟨t, us, rfl, ht, hus⟩ := h
  refine ⟨t, us ++ u :: vs, rfl, ht, ?_⟩
  cases us with
  | nil => exact fun heq => hu (Option.some.inj heq)
  | cons v us => exact hus

theorem cons (ht : t.leads level = true) (h : us.head? ≠ some (sym .assign)) :
    Starts level (t :: us) :=
  ⟨t, us, rfl, ht, h⟩

theorem singleton (ht : t.leads level = true) : Starts level [t] := cons ht nofun

/-- An operand behind a sign changes nothing. -/
theorem sign (ht : t.leads level = true) (h : Starts level' ts) : Starts level (t :: ts) := by
  have hhead := h.loosest.head_ne (t := sym .assign) rfl []
  rw [List.append_nil] at hhead
  exact cons ht hhead

theorem parens (h : Starts level' ts) : Starts level (parens ts) :=
  cons rfl (h.loosest.head_ne rfl _)

theorem enclose {e : Expr} (h : Starts e.level ts) (full : Bool) (level : Level) :
    Starts level (enclose full level e ts) := by
  unfold Lang.enclose
  split
  · exact h.parens
  · rename_i hle
    exact h.of_rank_le (Nat.le_trans (level.rank_le_asked full) (Nat.le_of_not_lt hle))

/-- Parts with commas between them start like the first of them. -/
theorem commaSeparated_head {parts : List (List Token)} (h : ∀ part ∈ parts, Starts .conditional part)
    {close : Token} (hclose : close ≠ sym .assign) :
    (commaSeparated parts ++ [close]).head? ≠ some (sym .assign) := by
  cases parts with
  | nil => exact fun heq => hclose (Option.some.inj heq)
  | cons part parts =>
    have hpart := h part List.mem_cons_self
    rw [commaSeparated_cons, List.append_assoc]
    exact hpart.head_ne rfl _

theorem tupleItems_head {parts : List (List Token)} (h : ∀ part ∈ parts, Starts .conditional part) :
    (tupleItems parts ++ [sym .closeParen]).head? ≠ some (sym .assign) := by
  unfold tupleItems
  split
  · have hitem := h _ List.mem_cons_self
    rw [List.append_assoc]
    exact hitem.head_ne rfl _
  · exact commaSeparated_head h (by decide)

end Starts

/-- **A legible expression** starts with a token that an expression of its level may start with. -/
theorem Expr.Legible.starts {e : Expr} (h : e.Legible) (full : Bool) : Starts e.level (e.spell full) := by
  have hall {es : List Expr} (ih : ∀ e ∈ es, Starts e.level (e.spell full)) :
      ∀ part ∈ spellAll full es, Starts .conditional part := by
    rw [spellAll_eq_map, List.forall_mem_map]
    exact fun e he => (ih e he).enclose full _
  induction h with
  | @constant c h =>
    cases c with
    | float d => cases h
    | bool b => cases b <;> exact .singleton rfl
    | _ => exact .singleton rfl
  | name h => exact .singleton rfl
  | list h ih => exact .cons rfl (Starts.commaSeparated_head (hall ih) (by decide))
  | tuple h ih => exact .cons rfl (Starts.tupleItems_head (hall ih))
  | @dict items hk hv ihk ihv =>
    refine .cons rfl (Starts.commaSeparated_head ?_ (by decide))
    rw [spellPairs_eq_map, List.forall_mem_map]
    exact fun item hitem => ((ihk item hitem).enclose full _).append (by decide) _
  | @binary op l r hl hr ihl ihr =>
    have hop : op.token ≠ sym .assign := by cases op <;> decide
    exact ((ihl.enclose full (op.leftLevel l)).append hop _).of_rank_le (op.level_le_leftLevel l)
  | @unary op e h ih => exact .sign (by cases op <;> rfl) (ih.enclose full op.level)
  | @logic op l r hl hr ihl ihr =>
    have hop : op.token ≠ sym .assign := by cases op <;> decide
    exact (ihl.enclose full op.level).append hop _
  | @compare e rest h hne hrest ih ihrest =>
    cases rest with
    | nil => exact absurd rfl hne
    | cons operand rest =>
      obtain ⟨op, e'⟩ := operand
      obtain ⟨t, us, hop, ht⟩ : ∃ t us, op.tokens = t :: us ∧ t ≠ sym .assign := by
        cases op <;> exact ⟨_, _, rfl, by decide⟩
      have hstarts := (ih.enclose full .sum).append ht (us ++ (e'.spellAt full .sum ++ spellCompared full rest))
      have hrank : Level.comparison.rank ≤ Level.sum.rank := by decide
      have hspell : (Expr.compare e ((op, e') :: rest)).spell full = enclose full .sum e (e.spell full) ++
          t :: (us ++ (e'.spellAt full .sum ++ spellCompared full rest)) := by
        rw [Expr.spell, spellCompared, hop]
        rfl
      rw [hspell]
      exact hstarts.of_rank_le hrank
  | call hf hargs hnames hdistinct hnamed ihf => exact (ihf.enclose full .primary).append (by decide) _
  | «attribute» h hn ih => exact (ih.enclose full .primary).append (by decide) _
  | subscript h hi ih => exact (ih.enclose full .primary).append (by decide) _
  | sliced h hl hu ih => exact (ih.enclose full .primary).append (by decide) _
  | conditional ht hy hn iht ihy ihn =>
    exact ((ihy.enclose full .or).append (by decide) _).loosest
  | await h ih => exact .sign rfl (ih.enclose full .primary)

end Transcript.Lang
