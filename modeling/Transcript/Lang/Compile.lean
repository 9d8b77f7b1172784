import Transcript.Lang.ExceptionKind
import Transcript.Lang.Lexer
import Transcript.Lang.Reader
import Transcript.Text.Lines
import Transcript.Text.Search

/-!
# Compiled sources

A source compiles if it falls into tokens, the tokens make statements, the statements suit the mode,
and every jump and every await stands where it has a meaning.
-/

namespace Transcript.Lang

/-- **What a source is compiled as.** -/
inductive Mode
  /-- One interactive statement, whose value is shown. -/
  | single
  /-- Any number of statements. -/
  | exec
  /-- One expression, whose value is the result. -/
  | eval
  deriving DecidableEq, Repr, Inhabited

/-- **A compiled source.** -/
structure Code where
  /-- The name of the source. -/
  filename : String
  /-- What it was compiled as. -/
  mode : Mode
  /-- Whether it awaits at the top level; running it then gives a coroutine. -/
  isCoroutine : Bool
  /-- The statements. -/
  body : List Stmt
  deriving Inhabited

/-- **Why a source does not compile**: the kind of exception, its message and its place. -/
structure CompileError where
  /-- A syntax error, or its subclass for indentation. -/
  kind : ExceptionKind
  /-- The message. -/
  message : String
  /-- The place. -/
  place : SourcePlace
  deriving DecidableEq, Repr

/-- The place of a byte offset. -/
def placeAt (source : List Char) (filename : String) (offset : Nat) : SourcePlace :=
  let before := Text.upToBytes offset source
  let after := source.drop before.length
  let lead := (before.reverse.takeWhile (· != '\n')).reverse
  ⟨filename, Text.lineFeeds before + 1, lead.length + 1, lead ++ after.takeWhile (· != '\n')⟩

/-- The word between the first two single quotes of a message. -/
def quotedWord? (message : List Char) : Option (List Char) :=
  match Text.splitOn ['\''] message with
  | _ :: w :: _ => some w
  | _ => none

/-- The place of a word in a line of a text, or of its first character that is not blank. -/
def placeOnLine (source : List Char) (filename : String) (line : Nat) (message : String) :
    SourcePlace :=
  let text := ((Text.lines source)[line - 1]?).getD []
  let lead :=
    match (quotedWord? message.toList).bind (Text.splitAt? · text) with
    | some (before, _) => before
    | none => text.takeWhile Text.isBlank
  ⟨filename, line, lead.length + 1, text⟩

/-- Where a statement stands. -/
structure Scope where
  /-- Inside a function body, whether it is that of an async function. -/
  function : Option Bool
  /-- Whether it is inside a loop of the same body. -/
  inLoop : Bool

/-- The scope of a module. -/
def Scope.module : Scope := ⟨none, false⟩

/-- **A statement where it has no meaning.** -/
inductive ScopeProblem
  | awaitOutsideAsync | returnOutside | breakOutside | continueOutside
  deriving DecidableEq, Repr

/-- The wording of a misplaced statement. -/
def ScopeProblem.message : ScopeProblem → String
  | .awaitOutsideAsync => "'await' outside async function"
  | .returnOutside => "'return' outside function"
  | .breakOutside => "'break' outside loop"
  | .continueOutside => "'continue' not properly in loop"

mutual

/-- The first misplaced statement in a statement, with its line. -/
def Stmt.scopeProblem? (scope : Scope) : Stmt → Option (Nat × ScopeProblem)
  | .mk line action =>
    if scope.function = some false && action.awaits then some (line, .awaitOutsideAsync)
    else action.scopeProblem? scope line

/-- The first misplaced statement in what a statement at a line does. -/
def Action.scopeProblem? (scope : Scope) (line : Nat) : Action → Option (Nat × ScopeProblem)
  | .exit _ => if scope.function.isNone then some (line, .returnOutside) else none
  | .leave => if scope.inLoop then none else some (line, .breakOutside)
  | .next => if scope.inLoop then none else some (line, .continueOutside)
  | .branch _ yes no => (blockProblem? scope yes).or (blockProblem? scope no)
  | .loop _ body => blockProblem? { scope with inLoop := true } body
  | .each _ _ body => blockProblem? { scope with inLoop := true } body
  | .guard body handlers final =>
    (blockProblem? scope body).or ((handlersProblem? scope handlers).or (blockProblem? scope final))
  | .define f => f.scopeProblem?
  | _ => none

/-- The first misplaced statement in a function body. -/
def FunctionDef.scopeProblem? : FunctionDef → Option (Nat × ScopeProblem)
  | .mk _ _ body isAsync => blockProblem? ⟨some isAsync, false⟩ body

/-- The first misplaced statement in a block. -/
def blockProblem? (scope : Scope) : List Stmt → Option (Nat × ScopeProblem)
  | [] => none
  | s :: ss => (s.scopeProblem? scope).or (blockProblem? scope ss)

/-- The first misplaced statement in handlers. -/
def handlersProblem? (scope : Scope) : List Handler → Option (Nat × ScopeProblem)
  | [] => none
  | .mk _ _ body :: hs => (blockProblem? scope body).or (handlersProblem? scope hs)

end

/-- Whether statements suit a mode; the place of what does not. -/
def suits (mode : Mode) (body : List Stmt) (source : List Char) (filename : String) :
    Except CompileError Unit :=
  match mode with
  | .single =>
    match body with
    | [] => .ok ()
    | first :: rest =>
      match rest.find? (·.line != first.line) with
      | none => .ok ()
      | some extra =>
        let message := "multiple statements found while compiling a single statement"
        .error ⟨.syntaxError, message, placeOnLine source filename extra.line message⟩
  | .eval =>
    match body with
    | [.mk _ (.eval _)] => .ok ()
    | _ => .error ⟨.syntaxError, "invalid syntax", placeAt source filename 0⟩
  | .exec => .ok ()

/-- The statements of a source. -/
def statements (source : List Char) (filename : String) : Except CompileError (List Stmt) :=
  match tokens source with
  | .error (offset, problem) =>
    let kind := if problem = .badDedent then .indentationError else .syntaxError
    .error ⟨kind, problem.message, placeAt source filename offset⟩
  | .ok ts =>
    match Reader.read ts with
    | .error e =>
      let (message, isIndentation) := e.problem.message (Text.upToBytes e.place source)
      let kind := if isIndentation then .indentationError else .syntaxError
      .error ⟨kind, message, placeAt source filename e.place⟩
    | .ok body => .ok body

/-- **Compiles a source.** An expression never awaits; other sources may await at the top level
only where `topLevelAwait` allows it. -/
def compile (source : List Char) (filename : String) (mode : Mode) (topLevelAwait : Bool) :
    Except CompileError Code := do
  let onLine (line : Nat) (message : String) : CompileError :=
    ⟨.syntaxError, message, placeOnLine source filename line message⟩
  let body ← statements source filename
  suits mode body source filename
  match blockProblem? .module body with
  | some (line, problem) => .error (onLine line problem.message)
  | none =>
    let isCoroutine := blockAwaits body
    if isCoroutine && (mode = .eval || !topLevelAwait) then
      let line := ((body.find? (·.awaits)).map Stmt.line).getD 1
      .error (onLine line "'await' outside function")
    else .ok ⟨filename, mode, isCoroutine, body⟩

end Transcript.Lang
