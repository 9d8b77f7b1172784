import Transcript.File.Run

/-!
# The command line

The command takes files and options, runs the files one after the other, and stops at the first one
that fails.
-/

namespace Transcript.Command

open Lang

/-- **What a command line asks for.** -/
structure Request where
  /-- The paths of the files. -/
  files : List String
  /-- Whether examples that do not fail are reported, too. -/
  isVerbose : Bool
  /-- Whether a failing example ends the run of its test case. -/
  failsFast : Bool
  /-- Whether all files are documents, whatever their names. -/
  allDocuments : Bool
  /-- The flags for all examples. -/
  flags : List Flag
  /-- How much is logged. -/
  logLevel : Option String

/-- A switch. -/
inductive Switch
  | verbose | failFast | allDocuments
  deriving DecidableEq, Repr

/-- A setting, which takes a value. -/
inductive Setting
  | flag | logLevel
  deriving DecidableEq, Repr

/-- An option. -/
inductive OptionName
  | switch (s : Switch)
  | setting (s : Setting)
  deriving DecidableEq, Repr

/-- The option of a long name. -/
def long? (name : List Char) : Option OptionName :=
  [("verbose", .switch .verbose), ("fail-fast", .switch .failFast),
    ("docutils", .switch .allDocuments), ("option", .setting .flag),
    ("log-level", .setting .logLevel)].findSome? fun ((long, o) : String × OptionName) =>
      if long.toList = name then some o else none

/-- The option of a letter. -/
def short? : Char → Option OptionName
  | 'v' => some (.switch .verbose)
  | 'f' => some (.switch .failFast)
  | 'o' => some (.setting .flag)
  | _ => none

/-- The names of log levels. -/
def logLevels : List String := ["DEBUG", "INFO", "WARNING", "ERROR", "CRITICAL"]

namespace Request

/-- Nothing. -/
def empty : Request := ⟨[], false, false, false, [], none⟩

/-- Turns a switch on, which may be done once. -/
def turnOn (r : Request) : Switch → Option Request
  | .verbose => if r.isVerbose then none else some { r with isVerbose := true }
  | .failFast => if r.failsFast then none else some { r with failsFast := true }
  | .allDocuments => if r.allDocuments then none else some { r with allDocuments := true }

/-- Gives a setting a value. There may be several flags, but one log level. -/
def give (r : Request) (s : Setting) (value : List Char) : Option Request :=
  let value := String.ofList value
  match s with
  | .flag => (Flag.ofName? value).map fun f => { r with flags := r.flags ++ [f] }
  | .logLevel =>
    if r.logLevel.isNone && logLevels.contains value then some { r with logLevel := some value }
    else none

/-- Adds a file. -/
def addFile (r : Request) (path : List Char) : Option Request :=
  if path.isEmpty then none else some { r with files := r.files ++ [String.ofList path] }

end Request

/-- Reads the letters behind a dash. A setting that has no value yet is given, too. -/
def letters (r : Request) : List Char → Option (Request × Option Setting)
  | [] => some (r, none)
  | c :: cs =>
    match short? c with
    | some (.switch s) => (r.turnOn s).bind (letters · cs)
    | some (.setting s) =>
      if cs.isEmpty then some (r, some s)
      else (r.give s (if cs.head? == some '=' then cs.drop 1 else cs)).map (·, none)
    | none => none

/-- Reads the name behind two dashes. A setting that has no value yet is given, too. -/
def longName (r : Request) (s : List Char) : Option (Request × Option Setting) :=
  match Text.splitAt? ['='] s with
  | some (name, value) =>
    match long? name with
    | some (.setting s) => (r.give s value).map (·, none)
    | _ => none
  | none =>
    match long? s with
    | some (.switch s) => (r.turnOn s).map (·, none)
    | some (.setting s) => some (r, some s)
    | none => none

/-- Reads arguments. A setting may wait for its value. -/
def arguments (r : Request) : Option Setting → List (List Char) → Option Request
  | none, [] => some r
  | some _, [] => none
  | some s, a :: as =>
    if a.head? == some '-' && a.length != 1 then none
    else (r.give s a).bind (arguments · none as)
  | none, a :: as =>
    match a with
    | ['-', '-'] => as.foldlM Request.addFile r
    | '-' :: '-' :: name => (longName r name).bind fun (r, waiting) => arguments r waiting as
    | '-' :: c :: cs => (letters r (c :: cs)).bind fun (r, waiting) => arguments r waiting as
    | _ => (r.addFile a).bind (arguments · none as)

/-- **What a command line asks for,** unless it is malformed. There is at least one file. -/
def parse (args : List String) : Option Request :=
  (arguments .empty none (args.map String.toList)).filter fun r => !r.files.isEmpty

/-- How the files are run. -/
def Request.options (r : Request) : File.Options :=
  let flags := FlagSet.ofList (r.flags ++ if r.failsFast then [.failFast] else [])
  { File.Options.standard with isVerbose := r.isVerbose, flags }

/-- Whether a path is that of a document. -/
def isDocument (path : List Char) : Bool :=
  (Path.extension? path).any fun e => e = ['r', 's', 't'] || e = ['m', 'd']

/-- What a file holds. -/
def Request.contentOf (r : Request) (path : List Char) : File.Content :=
  if isDocument path || r.allDocuments then .document else .session

/-- **How a command ended.** -/
inductive Status
  /-- All files have been run. -/
  | success
  /-- A file has failed, or could not be run for the reason told. -/
  | failure (reason : List Char)
  /-- The command line is malformed. -/
  | misuse
  deriving DecidableEq, Repr

/-- The number that the system is told. -/
def Status.code : Status → UInt32
  | .success => 0
  | .failure _ => 1
  | .misuse => 2

/-- **Runs a file.** Gives the text shown, and the end of the command if it is the last one. -/
def runFile (read : List Char → Except File.ReadError (List Char)) (r : Request)
    (path : List Char) : Host (List Char × Option Status) := do
  let done ← File.run read r.options (r.contentOf path) path
  match done.result with
  | .error e => return (done.text, some (.failure (path ++ [':', ' '] ++ (← e.message))))
  | .ok t => return (done.text, if t.isSuccess then none else some (.failure []))

/-- Runs files one after the other. -/
def runFiles (read : List Char → Except File.ReadError (List Char)) (r : Request) :
    List (List Char) → Host (List Char × Status)
  | [] => return ([], .success)
  | path :: paths => do
    let (text, status) ← runFile read r path
    match status with
    | some status => return (text, status)
    | none =>
      let (more, status) ← runFiles read r paths
      return (text ++ more, status)

/-- **Runs a command:** the text shown, and how it ended. -/
def run (read : List Char → Except File.ReadError (List Char)) (args : List String) :
    Host (List Char × Status) :=
  match parse args with
  | some r => runFiles read r (r.files.map String.toList)
  | none => return ([], .misuse)

end Transcript.Command
