import Transcript.Decimal.Basic

/-!
# Statements and expressions

The trees of the session language, and the question whether a tree awaits outside of the function
bodies in it.
-/

namespace Transcript.Lang

/-- Arithmetic operators. -/
inductive BinaryOp
  | add | sub | mul | div | floorDiv | mod | pow
  deriving DecidableEq, Repr

/-- The spelling of an arithmetic operator. -/
def BinaryOp.symbol : BinaryOp → String
  | .add => "+"
  | .sub => "-"
  | .mul => "*"
  | .div => "/"
  | .floorDiv => "//"
  | .mod => "%"
  | .pow => "**"

/-- Operators with one operand. -/
inductive UnaryOp
  | negate | plus | not
  deriving DecidableEq, Repr

/-- Operators that may leave their second operand alone. -/
inductive LogicOp
  | and | or
  deriving DecidableEq, Repr

/-- Comparisons. -/
inductive CompareOp
  | equal | notEqual | less | lessEqual | greater | greaterEqual | member | notMember | same
  | notSame
  deriving DecidableEq, Repr

/-- Literals. -/
inductive Constant
  | none
  | bool (b : Bool)
  | int (n : Int64)
  | float (d : Decimal)
  | str (s : List Char)
  | bytes (b : List UInt8)
  deriving DecidableEq, Repr

/-- **Expressions.** -/
inductive Expr
  | constant (c : Constant)
  | name (n : String)
  | list (items : List Expr)
  | tuple (items : List Expr)
  | dict (items : List (Expr × Expr))
  | binary (op : BinaryOp) (left right : Expr)
  | unary (op : UnaryOp) (operand : Expr)
  | logic (op : LogicOp) (left right : Expr)
  | compare (first : Expr) (rest : List (CompareOp × Expr))
  | call (function : Expr) (args : List Expr) (named : List (String × Expr))
  | attribute (value : Expr) (name : String)
  | subscript (value index : Expr)
  | slice (lower upper : Option Expr)
  | conditional (test yes no : Expr)
  | await (value : Expr)
  deriving Inhabited

/-- What can be assigned to or deleted. -/
inductive Target
  | name (n : String)
  | subscript (value index : Expr)
  | tuple (items : List Target)
  deriving Inhabited

/-- A parameter of a function. -/
structure Param where
  /-- Its name. -/
  name : String
  /-- The default, computed where the function is defined. -/
  default : Option Expr

mutual

/-- **A statement** with its line in the source. -/
inductive Stmt
  | mk (line : Nat) (action : Action)

/-- What a statement does. -/
inductive Action
  | eval (e : Expr)
  | assign (targets : List Target) (value : Expr)
  | augment (target : Target) (op : BinaryOp) (value : Expr)
  | load (module : String) (newName : Option String)
  | raise (value : Option Expr)
  | pass
  | delete (targets : List Target)
  | assert (test : Expr) (message : Option Expr)
  | globals (names : List String)
  | exit (value : Option Expr)
  | branch (test : Expr) (yes no : List Stmt)
  | loop (test : Expr) (body : List Stmt)
  | each (target : Target) (items : Expr) (body : List Stmt)
  | guard (body : List Stmt) (handlers : List Handler) (final : List Stmt)
  | leave
  | next
  | define (f : FunctionDef)

/-- What is done about an exception: its class (none for all), the name it is bound to, and the
statements. -/
inductive Handler
  | mk (kind : Option Expr) (name : Option String) (body : List Stmt)

/-- The definition of a function. -/
inductive FunctionDef
  | mk (name : String) (params : List Param) (body : List Stmt) (isAsync : Bool)

end

instance : Inhabited Stmt := ⟨.mk 0 .pass⟩
instance : Inhabited FunctionDef := ⟨.mk "" [] [] false⟩

/-- The line of a statement. -/
def Stmt.line : Stmt → Nat
  | .mk line _ => line

/-- What a statement does. -/
def Stmt.action : Stmt → Action
  | .mk _ action => action

namespace FunctionDef

/-- The name of a function. -/
def name : FunctionDef → String
  | .mk name .. => name

/-- The parameters of a function. -/
def params : FunctionDef → List Param
  | .mk _ params .. => params

/-- The body of a function. -/
def body : FunctionDef → List Stmt
  | .mk _ _ body _ => body

/-- Whether calls of a function give a coroutine. -/
def isAsync : FunctionDef → Bool
  | .mk _ _ _ isAsync => isAsync

end FunctionDef

mutual

/-- Whether an expression awaits. -/
def Expr.awaits : Expr → Bool
  | .await _ => true
  | .constant _ | .name _ => false
  | .list items | .tuple items => awaitsAny items
  | .dict items => awaitsAnyPair items
  | .binary _ l r | .logic _ l r => l.awaits || r.awaits
  | .unary _ e => e.awaits
  | .compare e rest => e.awaits || awaitsAnyCompared rest
  | .call f args named => f.awaits || awaitsAny args || awaitsAnyNamed named
  | .attribute e _ => e.awaits
  | .subscript e i => e.awaits || i.awaits
  | .slice lower upper => awaitsOption lower || awaitsOption upper
  | .conditional t y n => t.awaits || y.awaits || n.awaits

/-- Whether some expression of a list awaits. -/
def awaitsAny : List Expr → Bool
  | [] => false
  | e :: es => e.awaits || awaitsAny es

/-- Whether some expression of a list of pairs awaits. -/
def awaitsAnyPair : List (Expr × Expr) → Bool
  | [] => false
  | (k, v) :: es => k.awaits || v.awaits || awaitsAnyPair es

/-- Whether some operand of a comparison chain awaits. -/
def awaitsAnyCompared : List (CompareOp × Expr) → Bool
  | [] => false
  | (_, e) :: es => e.awaits || awaitsAnyCompared es

/-- Whether some named argument awaits. -/
def awaitsAnyNamed : List (String × Expr) → Bool
  | [] => false
  | (_, e) :: es => e.awaits || awaitsAnyNamed es

/-- Whether an optional expression awaits. -/
def awaitsOption : Option Expr → Bool
  | none => false
  | some e => e.awaits

end

mutual

/-- Whether a target awaits. -/
def Target.awaits : Target → Bool
  | .name _ => false
  | .subscript e i => e.awaits || i.awaits
  | .tuple items => awaitsAnyTarget items

/-- Whether some target of a list awaits. -/
def awaitsAnyTarget : List Target → Bool
  | [] => false
  | t :: ts => t.awaits || awaitsAnyTarget ts

end

mutual

/-- Whether a statement awaits outside of the function bodies in it. -/
def Stmt.awaits : Stmt → Bool
  | .mk _ action => action.awaits

/-- Whether an action awaits outside of the function bodies in it. -/
def Action.awaits : Action → Bool
  | .eval e => e.awaits
  | .assign targets value => value.awaits || awaitsAnyTarget targets
  | .augment target _ value => target.awaits || value.awaits
  | .raise e | .exit e => awaitsOption e
  | .delete targets => awaitsAnyTarget targets
  | .assert test message => test.awaits || awaitsOption message
  | .branch test yes no => test.awaits || blockAwaits yes || blockAwaits no
  | .loop test body => test.awaits || blockAwaits body
  | .each target items body => target.awaits || items.awaits || blockAwaits body
  | .guard body handlers final => blockAwaits body || awaitsAnyHandler handlers || blockAwaits final
  | .load .. | .pass | .globals _ | .leave | .next | .define _ => false

/-- Whether a block awaits outside of the function bodies in it. -/
def blockAwaits : List Stmt → Bool
  | [] => false
  | s :: ss => s.awaits || blockAwaits ss

/-- Whether some handler awaits outside of the function bodies in it. -/
def awaitsAnyHandler : List Handler → Bool
  | [] => false
  | .mk kind _ body :: hs => awaitsOption kind || blockAwaits body || awaitsAnyHandler hs

end

end Transcript.Lang
