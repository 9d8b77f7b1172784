import Transcript.File.Pattern
import Transcript.Test.Runner

/-!
# Running files

A file is run as a document, whose regions are its test cases, or as one session. Reports and the
summary make up the text that is shown.
-/

namespace Transcript.File

open Lang Test

/-- **Why a file is not run to its end.** -/
inductive Error
  /-- Its regions are not found. -/
  | find (e : FindError)
  /-- Its session cannot be read. -/
  | session (e : Session.Error)
  /-- A base folder is given for a path that is not relative to it. -/
  | baseWithoutRelative
  /-- A path that is to be relative begins at the root. -/
  | absolute (path : List Char)
  /-- The file cannot be read. -/
  | unreadable (path : List Char) (cause : ReadError)
  /-- The encoding is not known. -/
  | encoding (name : String)
  /-- A pattern for files is malformed. -/
  | pattern (e : PatternError)
  /-- A failure has ended the run. -/
  | failure (f : Failure)

/-- The wording of an error. -/
def Error.message : Error → Host (List Char)
  | .find e => return e.message.toList
  | .session e => return e.message.toList
  | .baseWithoutRelative =>
    return "package may only be specified for module-relative paths".toList
  | .absolute path =>
    return s!"module-relative files may not have absolute paths: `{String.ofList path}`".toList
  | .unreadable path cause => return s!"cannot read `{String.ofList path}`: {cause.message}".toList
  | .encoding name => return s!"unsupported encoding `{name}`: documents are read as UTF-8".toList
  | .pattern e => return s!"invalid file pattern: {e.message}".toList
  | .failure f => f.message

/-- **How a file is run.** -/
structure Options where
  /-- Whether its path is relative to a base folder. -/
  isRelative : Bool
  /-- The base folder. -/
  base : Option (List Char)
  /-- The name of the document, if it is not that of the file. -/
  name : Option String
  /-- The bindings of all test cases. -/
  globals : Option (Bindings Value)
  /-- Bindings over those. -/
  extra : Option (Bindings Value)
  /-- Whether examples that do not fail are reported, too. -/
  isVerbose : Bool
  /-- Whether a summary is shown at the end. -/
  summarizes : Bool
  /-- The flags for all examples. -/
  flags : FlagSet
  /-- Whether the first failing example ends the run. -/
  stopsOnFailure : Bool
  /-- The encoding of the file. -/
  encoding : Option String
  /-- Whether the namespace of a test case is cleared after it has run. Otherwise its bindings go
  over to the next one. -/
  clears : Bool
  /-- How statements are run. -/
  execution : Execution

namespace Options

/-- How files are run if nothing else is said. -/
def standard : Options where
  isRelative := false
  base := none
  name := none
  globals := none
  extra := none
  isVerbose := false
  summarizes := true
  flags := .empty
  stopsOnFailure := false
  encoding := none
  clears := true
  execution := .suspending

/-- How the test cases of a file are run. -/
def config (o : Options) : Config :=
  ⟨o.flags, o.isVerbose, if o.stopsOnFailure then .stop else .report, o.execution⟩

end Options

/-- Whether the name of an encoding means the one that is known. Case, dashes and underscores do not
count. -/
def isKnownEncoding (name : String) : Bool :=
  (name.toList.filter fun c => c != '-' && c != '_').map Char.toLower == ['u', 't', 'f', '8']

/-- **The path that is read** for a path with some options. -/
def sourcePath (o : Options) (path : List Char) : Except Error (List Char) := do
  if o.base.isSome && !o.isRelative then throw .baseWithoutRelative
  if o.isRelative && Path.isAbsolute path then throw (.absolute path)
  let path := if o.isRelative then (o.base.map (Path.join · path)).getD path else path
  match o.encoding with
  | some name => if isKnownEncoding name then return path else throw (.encoding name)
  | none => return path

/-- The name of the document at a path. -/
def documentName (o : Options) (path : List Char) : String :=
  o.name.getD (String.ofList ((Path.fileName? path).getD path))

/-- **What is in a file.** -/
inductive Content
  /-- A document with regions. -/
  | document
  /-- One session. -/
  | session
  deriving DecidableEq, Repr

/-- **The test cases of a text** with a name. -/
def casesOf (o : Options) (content : Content) (name : String) (text : List Char) :
    Host (Except Error (List Case)) := do
  match content with
  | .document =>
    match ← findCases text (some name) o.globals o.extra with
    | .ok cases => return .ok cases
    | .error e => return .error (.find e)
  | .session =>
    let b ← startingBindings o.globals o.extra
    match Region.ofText text name name 1 with
    | .ok region => return .ok [⟨region, ← Host.newSpace b⟩]
    | .error e => return .error (.session e)

/-- Runs test cases one after the other. The bindings of a namespace may go over to the first one.
Gives the failure that has ended the run, and the reports. -/
def runCases (clears : Bool) :
    List Case → Option Ref → Runner → Host (Option Failure × List (List Char) × Runner)
  | [], _, r => return (none, [], r)
  | c :: cs, carried, r => do
    if let some from? := carried then
      Host.setSpace c.space ((← Host.space c.space).update (← Host.space from?))
    let (done, r) ← r.run c clears
    match done.result with
    | .error f => return (some f, [done.report], r)
    | .ok _ =>
      let (failure, reports, r) ← runCases clears cs (if clears then none else some c.space) r
      return (failure, done.report :: reports, r)

/-- **What came out of a file.** -/
structure Outcome where
  /-- The sum of all counts, or why there is none. -/
  result : Except Error Tally
  /-- The text that was shown. -/
  text : List Char
  /-- The ledger that the results by test case were to be added to. A run that is not finished adds
  nothing. -/
  ledger : Ledger

/-- The outcome of a run that has not begun. -/
def Outcome.none (l : Ledger) (e : Error) : Outcome := ⟨.error e, [], l⟩

/-- Runs test cases, shows the summary and adds the results to a ledger. -/
def runAll (o : Options) (cases : List Case) (l : Ledger) : Host Outcome := do
  let (failure, reports, r) ← runCases o.clears cases none (← Runner.start o.config)
  match failure with
  | some f => return ⟨.error (.failure f), reports.flatten, l⟩
  | none =>
    let summary := if o.summarizes then (r.ledger.summary o.isVerbose).toList else []
    return ⟨.ok r.ledger.totals, reports.flatten ++ summary, l.merge r.ledger⟩

/-- **Runs the file** at a path, by a way to read files, and adds the results to a ledger. -/
def runInto (l : Ledger) (read : List Char → Except ReadError (List Char)) (o : Options)
    (content : Content) (path : List Char) : Host Outcome := do
  match sourcePath o path with
  | .error e => return .none l e
  | .ok path =>
    match read path with
    | .error cause => return .none l (.unreadable path cause)
    | .ok text =>
      match ← casesOf o content (documentName o path) text with
      | .error e => return .none l e
      | .ok cases => runAll o cases l

/-- Runs the file at a path with a ledger of its own. -/
def run (read : List Char → Except ReadError (List Char)) (o : Options) (content : Content)
    (path : List Char) : Host Outcome := runInto .empty read o content path

end Transcript.File
