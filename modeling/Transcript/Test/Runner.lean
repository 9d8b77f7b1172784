import Transcript.Test.Attempt

/-!
# Running test cases

The examples of a test case are run in order in its namespace. A runner keeps the results of all
test cases by name, and the failures that it is to collect.
-/

namespace Transcript.Test

open Lang

/-- **What is done with a failing example.** -/
inductive Handling
  /-- It is reported and counted. -/
  | report
  /-- It ends the run. -/
  | stop
  /-- It is kept for later and counted. -/
  | collect
  deriving DecidableEq, Repr

/-- **How test cases are run.** -/
structure Config where
  /-- The flags for all examples. -/
  flags : FlagSet
  /-- Whether examples that do not fail are reported, too. -/
  isVerbose : Bool
  /-- What is done with failing examples. -/
  handling : Handling
  /-- How statements are run. -/
  execution : Execution

/-- **What a run has done so far.** -/
structure Progress where
  /-- The counts. -/
  counts : Counts
  /-- The report, its last part first. -/
  written : List (List Char)
  /-- The failures kept, the last one first. -/
  kept : List Failure

namespace Progress

/-- Nothing. -/
def zero : Progress := ⟨.zero, [], []⟩

/-- Adds to the report. -/
def write (p : Progress) (text : List Char) : Progress := { p with written := text :: p.written }

/-- Adds to the report if a condition holds. -/
def writeIf (p : Progress) (b : Bool) (text : List Char) : Progress := if b then p.write text else p

/-- Counts an example that is run. -/
def attempt (p : Progress) : Progress :=
  { p with counts := { p.counts with attempted := p.counts.attempted + 1 } }

/-- Counts an example that is skipped. -/
def skip (p : Progress) : Progress :=
  { p with counts := { p.counts with skipped := p.counts.skipped + 1 } }

/-- Counts an example that has failed. -/
def fail (p : Progress) : Progress :=
  { p with counts := { p.counts with failed := p.counts.failed + 1 } }

/-- The report. -/
def report (p : Progress) : List Char := p.written.reverse.flatten

end Progress

/-- The announcement of an example. -/
def announcement (e : Session.Example) : List Char :=
  "Trying:\n".toList ++ Compare.indent e.source ++
    if e.want.isEmpty then "Expecting nothing\n".toList
    else "Expecting:\n".toList ++ Compare.indent e.want

/-- Handles a failure that is to be shown; nothing if it ends the run. -/
def handle (c : Config) (f : Failure) (p : Progress) : Option Progress :=
  match c.handling with
  | .report => some (p.write (f.report?.getD []))
  | .stop => none
  | .collect => some { p with kept := f :: p.kept }

/-- What comes after an example. -/
inductive Next
  /-- The next example. -/
  | goOn (p : Progress)
  /-- The end of the run. -/
  | stop (p : Progress)
  /-- The end of the run by a failure. -/
  | abort (f : Failure) (p : Progress)

/-- **What comes after an example** that has been run. Where only the first failure is to be shown,
the later ones are counted only. -/
def afterVerdict (c : Config) (test : String) (flags : FlagSet) (quiet : Bool) (v : Verdict)
    (p : Progress) : Next :=
  let proceed (p : Progress) : Next :=
    if 0 < p.counts.failed && flags.has .failFast then .stop p else .goOn p
  match v with
  | .success => proceed (p.writeIf (c.isVerbose && !quiet) "ok\n".toList)
  | .interrupt => .abort (.interrupted test) p
  | .failure f =>
    if quiet then proceed p.fail
    else
      match handle c f p with
      | some p => proceed p.fail
      | none => .abort f p

/-- **Runs examples,** the first of which has a place among all examples of its test case. -/
def runExamples (c : Config) (case : Case) :
    Nat → List Session.Example → Executor → Progress → Host (Option Failure × Progress × Executor)
  | _, [], x, p => return (none, p, x)
  | index, e :: es, x, p => do
    let flags := e.overrides.apply c.flags
    let quiet := flags.has .reportOnlyFirstFailure && 0 < p.counts.failed
    let announce (p : Progress) : Progress := p.writeIf (c.isVerbose && !quiet) (announcement e)
    if flags.has .skip then
      let p := (announce p.skip).writeIf (c.isVerbose && !quiet) "skipped\n".toList
      runExamples c case (index + 1) es x p
    else
      let p := announce p.attempt
      let (v, x) ← runExample case index e flags quiet x
      match afterVerdict c case.region.name flags quiet v p with
      | .goOn p => runExamples c case (index + 1) es x p
      | .stop p => return (none, p, x)
      | .abort f p => return (some f, p, x)

/-- **A runner.** -/
structure Runner where
  /-- How it runs test cases. -/
  config : Config
  /-- The results of those that have come to their end. -/
  ledger : Ledger
  /-- The failures collected. -/
  failures : List Failure

/-- A runner that has not run anything. -/
def Runner.new (config : Config) : Runner := ⟨config, .empty, []⟩

/-- A runner with an interpreter of its own. -/
def Runner.start (config : Config) : Host Runner := do
  modify World.freshInterpreter
  return .new config

/-- **What came out of a test case.** -/
structure Conclusion where
  /-- Its counts, or the failure that has ended it. -/
  result : Except Failure Tally
  /-- The report. -/
  report : List Char

/-- **Runs a test case.** Its namespace may be cleared afterwards; it is kept where an example has
ended the run. -/
def Runner.run (r : Runner) (case : Case) (clears : Bool) : Host (Conclusion × Runner) := do
  let x ← Executor.start r.config.execution
  let (failure, p, x) ← runExamples r.config case 0 case.region.examples x .zero
  x.finish
  let _ ← Host.takeOutput
  if clears && !failure.any Failure.isOfExample then Host.setSpace case.space .empty
  let failures := r.failures ++ p.kept.reverse
  match failure with
  | some f => return (⟨.error f, p.report⟩, { r with failures })
  | none =>
    return (⟨.ok p.counts.tally, p.report⟩,
      { r with failures, ledger := r.ledger.record case.region.name p.counts.tally })

/-- Takes the failures collected. -/
def Runner.takeFailures (r : Runner) : List Failure × Runner := (r.failures, { r with failures := [] })

end Transcript.Test
