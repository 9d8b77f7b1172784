import Transcript.Lang.Token
import Transcript.Lang.Tree
import Transcript.Text.Blank
import Transcript.Text.Bytes

/-!
# From tokens to statements

Statements and expressions are read by descent; each level of precedence has its function. A level
spends one unit of fuel, and the entry point gives more units than a token list can use up.
-/

namespace Transcript.Lang

/-- **Why tokens make no statement.** -/
inductive ParseProblem
  /-- A token that cannot stand here. -/
  | unexpected (t : Token)
  /-- A deeper line outside of a block. -/
  | unexpectedIndent
  /-- A block without statements. -/
  | missingBlock
  /-- A call on the left of an assignment. -/
  | assignToCall
  /-- A literal on the left of an assignment. -/
  | assignToLiteral
  /-- Another expression on the left of an assignment. -/
  | assignToExpression
  /-- Several targets of an augmented assignment. -/
  | augmentedTuple
  /-- A guarded block without handlers. -/
  | missingHandler
  /-- A parameter without default after one with a default. -/
  | defaultOrder
  /-- A keyword argument given twice. -/
  | repeatedArgument (name : String)
  /-- A positional argument after a keyword argument. -/
  | argumentOrder
  /-- The fuel is spent; a token list never uses up what the entry point gives. -/
  | tooDeep
  deriving DecidableEq, Repr

/-- A problem with the byte offset where it shows. -/
structure ParseError where
  /-- The byte offset. -/
  place : Nat
  /-- The problem. -/
  problem : ParseProblem
  deriving DecidableEq, Repr

/-- The wording of a problem, and whether it is one of indentation. What an unexpected end of line
means depends on the source before it: after a colon a block was expected. -/
def ParseProblem.message (before : List Char) : ParseProblem → String × Bool
  | .unexpected t =>
    let afterColon := (Text.trimEnd before).getLast? == some ':'
    match t with
    | .eof =>
      if afterColon then ("expected an indented block", true)
      else ("unexpected EOF while parsing", false)
    | .newline =>
      if afterColon then ("expected an indented block", true) else ("invalid syntax", false)
    | .indent => ("unexpected indent", true)
    | _ => ("invalid syntax", false)
  | .unexpectedIndent => ("unexpected indent", true)
  | .missingBlock => ("expected an indented block", true)
  | .assignToCall =>
    ("cannot assign to function call here. Maybe you meant '==' instead of '='?", false)
  | .assignToLiteral =>
    ("cannot assign to literal here. Maybe you meant '==' instead of '='?", false)
  | .assignToExpression => ("cannot assign to expression", false)
  | .augmentedTuple => ("'tuple' is an illegal expression for augmented assignment", false)
  | .missingHandler => ("expected 'except' or 'finally' block", false)
  | .defaultOrder => ("non-default argument follows default argument", false)
  | .repeatedArgument name => ("keyword argument repeated: " ++ name, false)
  | .argumentOrder => ("positional argument follows keyword argument", false)
  | .tooDeep => ("invalid syntax", false)

/-- A reader of tokens: what it reads, and the tokens after it. -/
abbrev Reader := StateT (List Placed) (Except ParseError)

namespace Reader

/-- The next token; behind the last there is an endless end. -/
def peek : Reader Placed := do return (← get).head?.getD ⟨.eof, 0, 0, 1⟩

/-- The kind of the next token. -/
def next : Reader Token := do return (← peek).token

/-- The kind of the token after the next one. -/
def second : Reader Token := do
  match ← get with
  | _ :: t :: _ => return t.token
  | [t] => return t.token
  | [] => return .eof

/-- Goes past the next token; the last one stays. -/
def skip : Reader Unit := do
  match ← get with
  | _ :: t :: ts => set (t :: ts)
  | _ => pure ()

/-- Fails at a place. -/
def failAt {α : Type} (place : Nat) (problem : ParseProblem) : Reader α := throw ⟨place, problem⟩

/-- Fails because of the next token. -/
def unexpected {α : Type} : Reader α := do
  let t ← peek
  failAt t.start (.unexpected t.token)

/-- Whether the next token is the given one. -/
def at? (t : Token) : Reader Bool := do return (← next) == t

/-- Goes past the next token if it is the given one. -/
def eat (t : Token) : Reader Bool := do
  if ← at? t then
    skip
    return true
  else return false

/-- Goes past the next token, which must be the given one. -/
def expect (t : Token) : Reader Unit := do
  if !(← eat t) then unexpected

/-- Reads a name. -/
def name : Reader String := do
  match ← next with
  | .name n =>
    skip
    return n
  | _ => unexpected

/-- Fails for want of fuel. -/
def spent {α : Type} : Reader α := do failAt (← peek).start .tooDeep

/-- A symbol as a token. -/
abbrev sym (s : Symbol) : Token := .symbol s

/-- A keyword as a token. -/
abbrev key (k : Keyword) : Token := .keyword k

/-- The comparison that the next tokens write, and how many tokens it takes. -/
def comparison? : Token → Token → Option (CompareOp × Nat)
  | .symbol .equal, _ => some (.equal, 1)
  | .symbol .notEqual, _ => some (.notEqual, 1)
  | .symbol .less, _ => some (.less, 1)
  | .symbol .lessEqual, _ => some (.lessEqual, 1)
  | .symbol .greater, _ => some (.greater, 1)
  | .symbol .greaterEqual, _ => some (.greaterEqual, 1)
  | .keyword .in, _ => some (.member, 1)
  | .keyword .not, .keyword .in => some (.notMember, 2)
  | .keyword .is, .keyword .not => some (.notSame, 2)
  | .keyword .is, _ => some (.same, 1)
  | _, _ => none

/-- The additive operator that a token writes. -/
def additive? : Token → Option BinaryOp
  | .symbol .plus => some .add
  | .symbol .minus => some .sub
  | _ => none

/-- The multiplicative operator that a token writes. -/
def multiplicative? : Token → Option BinaryOp
  | .symbol .star => some .mul
  | .symbol .slash => some .div
  | .symbol .floorDiv => some .floorDiv
  | .symbol .percent => some .mod
  | _ => none

/-- The operator of the augmented assignment that a token writes. -/
def augmented? : Token → Option BinaryOp
  | .symbol .plusAssign => some .add
  | .symbol .minusAssign => some .sub
  | .symbol .starAssign => some .mul
  | .symbol .slashAssign => some .div
  | .symbol .floorDivAssign => some .floorDiv
  | .symbol .percentAssign => some .mod
  | _ => none

/-- Whether an expression may start with a token. -/
def startsExpression (t : Token) : Bool :=
  match t with
  | .newline | .eof | .symbol .semicolon | .symbol .assign | .symbol .closeParen
  | .symbol .closeBracket | .symbol .closeBrace | .symbol .colon | .keyword .in => false
  | _ => (augmented? t).isNone

/-- Goes past text literals that continue a text. -/
def moreText : Nat → List Char → Reader (List Char)
  | 0, s => pure s
  | fuel + 1, s => do
    match ← next with
    | .str t =>
      skip
      moreText fuel (s ++ t)
    | _ => return s

/-- Goes past bytes literals that continue bytes. -/
def moreBytes : Nat → List UInt8 → Reader (List UInt8)
  | 0, s => pure s
  | fuel + 1, s => do
    match ← next with
    | .bytes t =>
      skip
      moreBytes fuel (s ++ t)
    | _ => return s

mutual

/-- An expression, maybe with a condition. -/
def expression : Nat → Reader Expr
  | 0 => spent
  | fuel + 1 => do
    let yes ← orTest fuel
    if !(← eat (key .if)) then return yes
    let test ← orTest fuel
    expect (key .else)
    let no ← expression fuel
    return .conditional test yes no

/-- Operands with `or` between them. -/
def orTest : Nat → Reader Expr
  | 0 => spent
  | fuel + 1 => do orRest fuel (← andTest fuel)

/-- The rest of operands with `or` between them. -/
def orRest : Nat → Expr → Reader Expr
  | 0, _ => spent
  | fuel + 1, left => do
    if ← eat (key .or) then orRest fuel (.logic .or left (← andTest fuel))
    else return left

/-- Operands with `and` between them. -/
def andTest : Nat → Reader Expr
  | 0 => spent
  | fuel + 1 => do andRest fuel (← notTest fuel)

/-- The rest of operands with `and` between them. -/
def andRest : Nat → Expr → Reader Expr
  | 0, _ => spent
  | fuel + 1, left => do
    if ← eat (key .and) then andRest fuel (.logic .and left (← notTest fuel))
    else return left

/-- A comparison, maybe negated. -/
def notTest : Nat → Reader Expr
  | 0 => spent
  | fuel + 1 => do
    if ← eat (key .not) then return .unary .not (← notTest fuel)
    else comparison fuel

/-- A chain of comparisons. -/
def comparison : Nat → Reader Expr
  | 0 => spent
  | fuel + 1 => do
    let first ← sum fuel
    match ← compared fuel with
    | [] => return first
    | rest => return .compare first rest

/-- The comparisons of a chain. -/
def compared : Nat → Reader (List (CompareOp × Expr))
  | 0 => spent
  | fuel + 1 => do
    match comparison? (← next) (← second) with
    | none => return []
    | some (op, n) =>
      skip
      if n = 2 then skip
      let e ← sum fuel
      return (op, e) :: (← compared fuel)

/-- Terms that are added and subtracted. -/
def sum : Nat → Reader Expr
  | 0 => spent
  | fuel + 1 => do sumRest fuel (← product fuel)

/-- The rest of terms that are added and subtracted. -/
def sumRest : Nat → Expr → Reader Expr
  | 0, _ => spent
  | fuel + 1, left => do
    match additive? (← next) with
    | some op =>
      skip
      sumRest fuel (.binary op left (← product fuel))
    | none => return left

/-- Factors that are multiplied and divided. -/
def product : Nat → Reader Expr
  | 0 => spent
  | fuel + 1 => do productRest fuel (← factor fuel)

/-- The rest of factors that are multiplied and divided. -/
def productRest : Nat → Expr → Reader Expr
  | 0, _ => spent
  | fuel + 1, left => do
    match multiplicative? (← next) with
    | some op =>
      skip
      productRest fuel (.binary op left (← factor fuel))
    | none => return left

/-- A power, maybe with signs. -/
def factor : Nat → Reader Expr
  | 0 => spent
  | fuel + 1 => do
    match ← next with
    | .symbol .minus =>
      skip
      return .unary .negate (← factor fuel)
    | .symbol .plus =>
      skip
      return .unary .plus (← factor fuel)
    | _ => power fuel

/-- A primary, maybe awaited, maybe with an exponent. -/
def power : Nat → Reader Expr
  | 0 => spent
  | fuel + 1 => do
    let base ← if ← eat (key .await) then Expr.await <$> primary fuel else primary fuel
    if ← eat (sym .power) then return .binary .pow base (← factor fuel)
    else return base

/-- An atom with what is looked up in it, called or indexed. -/
def primary : Nat → Reader Expr
  | 0 => spent
  | fuel + 1 => do primaryRest fuel (← atom fuel)

/-- What is looked up, called or indexed. -/
def primaryRest : Nat → Expr → Reader Expr
  | 0, _ => spent
  | fuel + 1, e => do
    match ← next with
    | .symbol .dot =>
      skip
      primaryRest fuel (.attribute e (← name))
    | .symbol .openParen =>
      skip
      let (args, named) ← arguments fuel [] []
      primaryRest fuel (.call e args named)
    | .symbol .openBracket =>
      skip
      let index ← index fuel
      expect (sym .closeBracket)
      primaryRest fuel (.subscript e index)
    | _ => return e

/-- The arguments of a call with its closing bracket; the given ones came before. -/
def arguments : Nat → List Expr → List (String × Expr) → Reader (List Expr × List (String × Expr))
  | 0, _, _ => spent
  | fuel + 1, args, named => do
    if ← eat (sym .closeParen) then return (args, named)
    let start := (← peek).start
    let (args, named) ←
      match ← next, ← second with
      | .name n, .symbol .assign => do
        skip
        skip
        if named.any (·.1 == n) then failAt start (.repeatedArgument n)
        pure (args, named ++ [(n, ← expression fuel)])
      | _, _ => do
        if !named.isEmpty then failAt start .argumentOrder
        pure (args ++ [← expression fuel], named)
    if ← eat (sym .comma) then arguments fuel args named
    else do
      expect (sym .closeParen)
      return (args, named)

/-- An index or a slice. -/
def index : Nat → Reader Expr
  | 0 => spent
  | fuel + 1 => do
    let lower ← if ← at? (sym .colon) then pure none else some <$> expressions fuel
    if ← eat (sym .colon) then
      let upper ← if ← at? (sym .closeBracket) then pure none else some <$> expression fuel
      return .slice lower upper
    else
      match lower with
      | some e => return e
      | none => unexpected

/-- Expressions with commas between them: a tuple if there is a comma. -/
def expressions : Nat → Reader Expr
  | 0 => spent
  | fuel + 1 => do
    let first ← expression fuel
    if ← at? (sym .comma) then return .tuple (first :: (← moreExpressions fuel))
    else return first

/-- The expressions after commas; a last comma may end them. -/
def moreExpressions : Nat → Reader (List Expr)
  | 0 => spent
  | fuel + 1 => do
    if ← eat (sym .comma) then
      if startsExpression (← next) then
        let e ← expression fuel
        return e :: (← moreExpressions fuel)
      else return []
    else return []

/-- The items of a bracket up to its end, which is not read; the given ones came before. -/
def items : Nat → Symbol → List Expr → Reader (List Expr)
  | 0, _, _ => spent
  | fuel + 1, close, sofar => do
    if ← at? (sym close) then return sofar
    let sofar := sofar ++ [← expression fuel]
    if ← eat (sym .comma) then items fuel close sofar else return sofar

/-- The items of a dictionary up to its end, which is not read; the given ones came before. -/
def pairs : Nat → List (Expr × Expr) → Reader (List (Expr × Expr))
  | 0, _ => spent
  | fuel + 1, sofar => do
    if ← at? (sym .closeBrace) then return sofar
    let k ← expression fuel
    expect (sym .colon)
    let sofar := sofar ++ [(k, ← expression fuel)]
    if ← eat (sym .comma) then pairs fuel sofar else return sofar

/-- A name, a literal or a bracket. -/
def atom : Nat → Reader Expr
  | 0 => spent
  | fuel + 1 => do
    match ← next with
    | .name n =>
      skip
      return .name n
    | .int n =>
      skip
      return .constant (.int n)
    | .float d =>
      skip
      return .constant (.float d)
    | .str s =>
      skip
      return .constant (.str (← moreText fuel s))
    | .bytes b =>
      skip
      return .constant (.bytes (← moreBytes fuel b))
    | .keyword .true =>
      skip
      return .constant (.bool true)
    | .keyword .false =>
      skip
      return .constant (.bool false)
    | .keyword .none =>
      skip
      return .constant .none
    | .symbol .openParen =>
      skip
      if ← eat (sym .closeParen) then return .tuple []
      let first ← expression fuel
      if ← eat (sym .closeParen) then return first
      let all ← if ← eat (sym .comma) then items fuel .closeParen [first] else pure [first]
      expect (sym .closeParen)
      return .tuple all
    | .symbol .openBracket =>
      skip
      let all ← items fuel .closeBracket []
      expect (sym .closeBracket)
      return .list all
    | .symbol .openBrace =>
      skip
      let all ← pairs fuel []
      expect (sym .closeBrace)
      return .dict all
    | _ => unexpected

end

mutual

/-- The target that an expression on the left of an assignment denotes. -/
def toTarget : Expr → Except ParseProblem Target
  | .name n => .ok (.name n)
  | .subscript value index => .ok (.subscript value index)
  | .tuple items | .list items => (toTargets items).map .tuple
  | .call .. => .error .assignToCall
  | .constant _ => .error .assignToLiteral
  | _ => .error .assignToExpression

/-- The targets of several expressions. -/
def toTargets : List Expr → Except ParseProblem (List Target)
  | [] => .ok []
  | e :: es => do return (← toTarget e) :: (← toTargets es)

end

/-- The target that an expression at a place denotes. -/
def target (e : Expr) (place : Nat) : Reader Target :=
  match toTarget e with
  | .ok t => pure t
  | .error p => failAt place p

/-- Names with commas between them. -/
def names : Nat → Reader (List String)
  | 0 => spent
  | fuel + 1 => do
    let n ← name
    if ← eat (sym .comma) then return n :: (← names fuel) else return [n]

/-- A module name with dots; the given part came before. -/
def moduleName : Nat → String → Reader String
  | 0, _ => spent
  | fuel + 1, sofar => do
    if ← eat (sym .dot) then moduleName fuel (sofar ++ "." ++ (← name)) else return sofar

/-- An optional list of expressions before the end of a statement. -/
def optionalExpressions (fuel : Nat) : Reader (Option Expr) := do
  match ← next with
  | .newline | .symbol .semicolon | .eof => return none
  | _ => return some (← expressions fuel)

/-- The sides of an assignment after the first, with their places. -/
def sides : Nat → Reader (List (Expr × Nat))
  | 0 => spent
  | fuel + 1 => do
    if ← eat (sym .assign) then
      let start := (← peek).start
      let e ← expressions fuel
      return (e, start) :: (← sides fuel)
    else return []

/-- Targets from the sides of an assignment but the last, and the last side. -/
def splitSides (first : Expr × Nat) : List (Expr × Nat) → Reader (List Target × Expr)
  | [] => pure ([], first.1)
  | second :: rest => do
    let t ← target first.1 first.2
    let (ts, value) ← splitSides second rest
    return (t :: ts, value)

/-- An expression or an assignment. -/
def expressionStatement (fuel : Nat) : Reader Action := do
  let start := (← peek).start
  let first ← expressions fuel
  match augmented? (← next) with
  | some op =>
    skip
    match ← target first start with
    | .tuple _ => failAt start .augmentedTuple
    | t => return .augment t op (← expressions fuel)
  | none =>
    match ← sides fuel with
    | [] => return .eval first
    | rest =>
      let (targets, value) ← splitSides (first, start) rest
      return .assign targets value

/-- A statement without a block. -/
def simpleStatement (fuel : Nat) : Reader Action := do
  match ← next with
  | .keyword .pass =>
    skip
    return .pass
  | .keyword .break =>
    skip
    return .leave
  | .keyword .continue =>
    skip
    return .next
  | .keyword .return =>
    skip
    return .exit (← optionalExpressions fuel)
  | .keyword .raise =>
    skip
    return .raise (← optionalExpressions fuel)
  | .keyword .global =>
    skip
    return .globals (← names fuel)
  | .keyword .import =>
    skip
    let module ← moduleName fuel (← name)
    let newName ← if ← eat (key .as) then some <$> name else pure none
    return .load module newName
  | .keyword .del =>
    skip
    let start := (← peek).start
    match ← target (← expressions fuel) start with
    | .tuple ts => return .delete ts
    | t => return .delete [t]
  | .keyword .assert =>
    skip
    let test ← expression fuel
    let message ← if ← eat (sym .comma) then some <$> expression fuel else pure none
    return .assert test message
  | _ => expressionStatement fuel

/-- Statements without blocks on one line. -/
def simpleStatements : Nat → Reader (List Stmt)
  | 0 => spent
  | fuel + 1 => do
    let line := (← peek).line
    let action ← simpleStatement fuel
    let here := Stmt.mk line action
    let ends ← if ← eat (sym .semicolon) then at? .newline else pure true
    if !ends then return here :: (← simpleStatements fuel)
    if !(← eat .newline) && !(← at? .eof) then unexpected
    return [here]

/-- The items of the target of a loop after the first: whether there is a comma, and the items. -/
def loopItems : Nat → Reader (Bool × List Expr)
  | 0 => spent
  | fuel + 1 => do
    if ← eat (sym .comma) then
      if ← at? (key .in) then return (true, [])
      let e ← primary fuel
      return (true, e :: (← loopItems fuel).2)
    else return (false, [])

/-- The target of a loop. -/
def loopTarget (fuel : Nat) : Reader Target := do
  let start := (← peek).start
  let first ← primary fuel
  let (tuple, rest) ← loopItems fuel
  target (if tuple then .tuple (first :: rest) else first) start

/-- The parameters of a function; the given ones came before. -/
def params : Nat → List Param → Reader (List Param)
  | 0, _ => spent
  | fuel + 1, sofar => do
    if ← at? (sym .closeParen) then return sofar
    let start := (← peek).start
    let n ← name
    let dflt ← if ← eat (sym .assign) then some <$> expression fuel else pure none
    if dflt.isNone && sofar.any (·.default.isSome) then failAt start .defaultOrder
    let sofar := sofar ++ [⟨n, dflt⟩]
    if ← eat (sym .comma) then params fuel sofar else return sofar

mutual

/-- A statement with blocks, or statements on one line. -/
def statement : Nat → Reader (List Stmt)
  | 0 => spent
  | fuel + 1 => do
    let line := (← peek).line
    match ← next with
    | .keyword .if => return [.mk line (← branch fuel)]
    | .keyword .while =>
      skip
      let test ← expression fuel
      return [.mk line (.loop test (← suite fuel))]
    | .keyword .for =>
      skip
      let t ← loopTarget fuel
      expect (key .in)
      let items ← expressions fuel
      return [.mk line (.each t items (← suite fuel))]
    | .keyword .try => return [.mk line (← guard fuel)]
    | .keyword .define => return [.mk line (← definition fuel false)]
    | .keyword .async =>
      skip
      if !(← at? (key .define)) then unexpected
      return [.mk line (← definition fuel true)]
    | _ => simpleStatements fuel

/-- A branch with its first keyword. -/
def branch : Nat → Reader Action
  | 0 => spent
  | fuel + 1 => do
    skip
    let test ← expression fuel
    let yes ← suite fuel
    if ← at? (key .elif) then
      let line := (← peek).line
      return .branch test yes [.mk line (← branch fuel)]
    else if ← eat (key .else) then return .branch test yes (← suite fuel)
    else return .branch test yes []

/-- A guarded block. -/
def guard : Nat → Reader Action
  | 0 => spent
  | fuel + 1 => do
    skip
    let body ← suite fuel
    let hs ← handlers fuel
    let final ← if ← eat (key .finally) then suite fuel else pure []
    if hs.isEmpty && final.isEmpty then failAt (← peek).start .missingHandler
    return .guard body hs final

/-- The handlers of a guarded block. -/
def handlers : Nat → Reader (List Handler)
  | 0 => spent
  | fuel + 1 => do
    if ← eat (key .except) then
      let (kind, n) ←
        if ← at? (sym .colon) then pure (none, none)
        else do
          let kind ← expression fuel
          let n ← if ← eat (key .as) then some <$> name else pure none
          pure (some kind, n)
      let body ← suite fuel
      return .mk kind n body :: (← handlers fuel)
    else return []

/-- The definition of a function. -/
def definition : Nat → Bool → Reader Action
  | 0, _ => spent
  | fuel + 1, isAsync => do
    expect (key .define)
    let n ← name
    expect (sym .openParen)
    let ps ← params fuel []
    expect (sym .closeParen)
    if ← eat (sym .arrow) then discard (expression fuel)
    let body ← suite fuel
    return .define (.mk n ps body isAsync)

/-- A block after its colon: statements on the same line, or deeper lines. -/
def suite : Nat → Reader (List Stmt)
  | 0 => spent
  | fuel + 1 => do
    expect (sym .colon)
    if !(← eat .newline) then simpleStatements fuel
    else if !(← eat .indent) then failAt (← peek).start .missingBlock
    else block fuel

/-- The statements of a block up to its end. -/
def block : Nat → Reader (List Stmt)
  | 0 => spent
  | fuel + 1 => do
    if ← eat .dedent then return []
    if ← at? .eof then return []
    let here ← statement fuel
    return here ++ (← block fuel)

end

/-- Statements up to the end of the source. -/
def module : Nat → Reader (List Stmt)
  | 0 => spent
  | fuel + 1 => do
    if ← at? .eof then return []
    if ← at? .indent then failAt (← peek).start .unexpectedIndent
    if ← eat .newline then module fuel
    else
      let here ← statement fuel
      return here ++ (← module fuel)

/-- The units of fuel that suffice for a number of tokens. -/
def fuelFor (n : Nat) : Nat := 24 * (n + 1)

/-- **The statements that tokens make.** -/
def read (tokens : List Placed) : Except ParseError (List Stmt) :=
  (module (fuelFor tokens.length)).run' tokens

end Reader

end Transcript.Lang
