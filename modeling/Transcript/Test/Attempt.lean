import Transcript.Compare.Check
import Transcript.Compare.Difference
import Transcript.Lang.Interpreter
import Transcript.Session.Example
import Transcript.Tally
import Transcript.Test.Region

/-!
# Running an example

The statement of an example is compiled and run, and what it showed or raised is judged. Where
statements may wait, they share an event loop for the whole test case.

What can go wrong when a test case is run: an example shows something else than expected, raises an
exception, or is interrupted, or a condition cannot be evaluated. Failures of examples have a
report.

Results:
* `Failure.report?_isSome`: the failures of examples, and no others, have a report.
-/

namespace Transcript.Test

open Lang

/-! ## Failures -/

/-- **The place of an example.** -/
structure Location where
  /-- The name of the test case. -/
  test : String
  /-- The name of the document. -/
  filename : String
  /-- The line of the document. -/
  line : Nat
  deriving DecidableEq, Repr

/-- A place in words. -/
def Location.describe (l : Location) : String :=
  s!"File \"{l.filename}\", line {l.line}, in {l.test}"

/-- **A failure.** -/
inductive Failure
  /-- The test case was interrupted. -/
  | interrupted (test : String)
  /-- An example did not show what it was expected to show. -/
  | mismatch (location : Location) (e : Session.Example) (got : List Char) (flags : FlagSet)
  /-- An example raised an exception that was not expected. -/
  | unexpected (location : Location) (e : Session.Example) (exc : Exc) (traceback : List Char)
  /-- The condition of a test case cannot be evaluated. -/
  | condition (test : String) (expression : List Char) (exc : Exc)

namespace Failure

/-- Whether an example has failed. -/
def isOfExample : Failure → Bool
  | mismatch .. | unexpected .. => true
  | _ => false

/-- Whether the run was interrupted. -/
def isInterrupt : Failure → Bool
  | interrupted _ => true
  | _ => false

/-- The wording of a failure. -/
def message : Failure → Host (List Char)
  | interrupted test => return s!"interrupted while running {test}".toList
  | mismatch l e _ _ => return s!"{l.describe}: example failed: ".toList ++ Text.trimEnd e.source
  | unexpected l _ exc _ => do
    return s!"{l.describe}: unexpected exception: ".toList ++ (← exc.describe)
  | condition test expression exc => do
    let shown := Text.quoted expression
    return s!"cannot evaluate the skip condition {shown} of {test}: ".toList ++ (← exc.describe)

/-- The heading of a report. -/
def heading (l : Location) (e : Session.Example) : List Char :=
  s!"{Ledger.divider}\n{l.describe}\nFailed example:\n".toList ++ Compare.indent e.source

/-- **The report of a failing example.** -/
def report? : Failure → Option (List Char)
  | mismatch l e got flags => some (heading l e ++ Compare.difference e.want got flags)
  | unexpected l e _ traceback =>
    some (heading l e ++ "Exception raised:\n".toList ++ Compare.indent traceback)
  | _ => none

theorem report?_isSome (f : Failure) : f.report?.isSome = f.isOfExample := by
  cases f <;> rfl

end Failure

/-! ## Statements -/

/-- **How statements are run.** -/
inductive Execution
  /-- At once; they must not wait. -/
  | immediate
  /-- On an event loop of the test case, as far as they wait. -/
  | suspending
  deriving DecidableEq, Repr

/-- **What runs the statements of a test case:** an event loop, or nothing of its own. -/
abbrev Executor := Option OpenLoop

namespace Executor

/-- Gets ready for a test case. -/
def start : Execution → Host Executor
  | .immediate => return none
  | .suspending => some <$> OpenLoop.new

/-- Runs compiled code in a namespace. -/
def runCode (x : Executor) (code : Code) (space : Ref) : Host (Outcome × Executor) := do
  let o ← evaluate code space
  match o, code.isCoroutine, x with
  | .ok v, true, some l =>
    let (o, l) ← l.complete v
    return (o, some l)
  | _, _, _ => return (o, x)

/-- Compiles and runs a statement in a namespace. -/
def runStatement (x : Executor) (source : List Char) (filename : String) (space : Ref) :
    Host (Outcome × Executor) := do
  match ← compileSource source filename .single x.isSome with
  | .ok code => x.runCode code space
  | .error e => return (.error e, x)

/-- Ends a test case: what is still waiting is cancelled. -/
def finish (x : Executor) : Host Unit :=
  match x with
  | some l => l.close
  | none => return

end Executor

/-- **What a statement did.** -/
structure Attempt where
  /-- What it wrote. -/
  output : List Char
  /-- What it raised. -/
  raised : Option Exc

/-- **How an example ended.** -/
inductive Verdict
  /-- As expected. -/
  | success
  /-- By an interruption. -/
  | interrupt
  /-- Otherwise: by a failure. -/
  | failure (f : Failure)

/-- The lines that report an exception, from the one with its kind on for errors of grammar. -/
def messageLines (kind : ExceptionKind) (lines : List (List Char)) : List (List Char) :=
  let start := (kind.qualifiedName ++ ":").toList
  if kind.isSubclass .syntaxError && lines.any start.isPrefixOf then
    lines.dropWhile fun l => !start.isPrefixOf l
  else lines

/-- Whether the message of an exception is the expected one. -/
def acceptsMessage (want message : List Char) (flags : FlagSet) : Bool :=
  Compare.accepts want message flags ||
    (flags.has .ignoreExceptionDetail &&
      Compare.accepts (Compare.exceptionName want) (Compare.exceptionName message) flags)

/-- The file name of the statement of an example. -/
def statementName (test : String) (index : Nat) : String := s!"<doctest {test}[{index}]>"

/-- The report of an exception, unless its failure is not to be shown. -/
def tracebackUnless (quiet : Bool) (exc : Exc) (filename : String) : Host (List Char) :=
  if quiet then return [] else exc.traceback filename

/-- **Judges what the statement of an example did.** Where it is quiet, a failure is not to be shown. -/
def judge (location : Location) (e : Session.Example) (filename : String) (flags : FlagSet)
    (quiet : Bool) (a : Attempt) : Host Verdict := do
  match a.raised with
  | none =>
    if Compare.accepts e.want a.output flags then return .success
    else return .failure (.mismatch location e a.output flags)
  | some exc =>
    if exc.kind = .keyboardInterrupt then return .interrupt
    else
      let traceback ← tracebackUnless quiet exc filename
      match e.message with
      | none => return .failure (.unexpected location e exc traceback)
      | some want =>
        let message := (messageLines exc.kind (← exc.reportLines)).flatten
        if acceptsMessage want message flags then return .success
        else return .failure (.mismatch location e (a.output ++ traceback) flags)

/-- **Runs an example** of a test case, by its place among the examples. Where it is quiet, a failure
is not to be shown. -/
def runExample (c : Case) (index : Nat) (e : Session.Example) (flags : FlagSet) (quiet : Bool)
    (x : Executor) : Host (Verdict × Executor) := do
  let r := c.region
  let filename := statementName r.name index
  let (o, x) ← x.runStatement e.source filename c.space
  let output ← Host.takeOutput
  let raised := match o with
    | .ok _ => none
    | .error exc => some exc
  let verdict ← judge ⟨r.name, r.filename, r.lineOf e⟩ e filename flags quiet ⟨output, raised⟩
  return (verdict, x)

end Transcript.Test
