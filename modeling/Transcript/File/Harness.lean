import Transcript.File.Run

/-!
# Test cases for a harness

A harness finds files by patterns and runs their test cases one by one. All test cases of a file
share one runner; a test case may be skipped on a condition.
-/

namespace Transcript.File

open Lang Test

/-- **How a harness runs test cases.** -/
structure HarnessConfig where
  /-- The flags for all examples. -/
  flags : FlagSet
  /-- Whether a test case goes on after a failure. -/
  goesOn : Bool

namespace HarnessConfig

/-- The configuration by the value of the setting for flags, if there is one. -/
def ofSetting (setting : Option String) : Except OptionError HarnessConfig :=
  match setting with
  | some names => (FlagSet.ofNames names).map (⟨·, false⟩)
  | none => .ok ⟨.single .ellipsis, false⟩

/-- How the runner of a file runs its test cases. -/
def config (c : HarnessConfig) : Config :=
  ⟨c.flags, false, if c.goesOn then .collect else .stop, .suspending⟩

end HarnessConfig

/-- The patterns for documents. -/
def defaultPatterns : List (List Char) := ["**/*.rst".toList, "**/*.md".toList]

/-- **The documents in a folder** that any of some patterns accepts. -/
def documentsIn (t : Tree) (folder : List Char) (patterns : List (List Char)) :
    Except Error (List (List Char)) :=
  match t.filesMatching (patterns.map (Path.join folder)) with
  | .ok paths => .ok paths
  | .error e => .error (.pattern e)

/-- **The test cases of a document** that have examples, and the runner that they share. -/
def harnessCases (read : List Char → Except ReadError (List Char)) (c : HarnessConfig)
    (path : List Char) : Host (Except Error (List Case × Runner)) := do
  match read path with
  | .error cause => return .error (.unreadable path cause)
  | .ok text =>
    match ← casesOf .standard .document (documentName .standard path) text with
    | .error e => return .error e
    | .ok cases =>
      return .ok (cases.filter fun c => !c.region.isEmpty, ← Runner.start c.config)

/-- **What happened to a test case.** -/
inductive CaseOutcome
  /-- All its examples succeeded. -/
  | passed (t : Tally)
  /-- It was not run. -/
  | skipped (reason : List Char)
  /-- Examples have failed. -/
  | failed (failures : List Failure)

/-- Whether the condition of a test case tells to skip it. -/
def skipsOn (c : Case) (condition : List Char) : Host (Except Failure Bool) := do
  match ← Host.aside (evaluateText condition "<skipif>" c.space) with
  | .ok v => return .ok ((← get).truthy v)
  | .error exc => return .error (.condition c.region.name condition exc)

/-- Why a test case is not run, if it is not. -/
def skipReason? (c : Case) : Host (Except Failure (Option (List Char))) := do
  let holds ← match c.region.skipIf with
    | some condition => skipsOn c condition
    | none => pure (.ok false)
  match holds with
  | .error f => return .error f
  | .ok true => return .ok (some ("skipif: ".toList ++ c.region.skipIf.getD []))
  | .ok false =>
    if c.region.examples.all fun e => e.overrides.get? (.single .skip) == some true then
      return .ok (some "all tests skipped by +SKIP option".toList)
    else return .ok none

/-- **Runs a test case** unless it is skipped. -/
def runCase (c : Case) (r : Runner) : Host (Except Failure CaseOutcome × Runner) := do
  match ← skipReason? c with
  | .error f => return (.error f, r)
  | .ok (some reason) => return (.ok (.skipped reason), r)
  | .ok none =>
    let (done, r) ← r.run c false
    match done.result with
    | .ok t =>
      let (failures, r) := r.takeFailures
      return (.ok (if failures.isEmpty then .passed t else .failed failures), r)
    | .error f => return (if f.isOfExample then .ok (.failed [f]) else .error f, r)

end Transcript.File
