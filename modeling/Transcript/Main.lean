import Transcript.Command

/-!
# The command

Reads files, shows the reports, and tells the system how the command ended.
-/

namespace Transcript.Main

open Lang

/-- Reads the text of a file of the system. -/
def readText (path : List Char) : IO (Except File.ReadError (List Char)) := do
  try
    return File.textOf (← IO.FS.readBinFile (String.ofList path))
  catch
    | .noFileOrDirectory .. => return .error .notFound
    | .inappropriateType _ code _ =>
      return .error (if code = 21 then .isFolder else .throughFile)
    | e => return .error (.other (toString e))

/-- Shows a text. -/
def display (text : List Char) : IO Unit := do
  (← IO.getStdout).putStr (String.ofList text)

/-- Runs files one after the other. -/
def runFiles (r : Command.Request) : List (List Char) → World → IO Command.Status
  | [], _ => return .success
  | path :: paths, w => do
    let content ← readText path
    match Command.runFile (fun _ => content) r path w with
    | none => return .failure "the program has no end".toList
    | some ((text, status), w) =>
      display text
      match status with
      | some status => return status
      | none => runFiles r paths w

end Transcript.Main

/-- The command. -/
def main (args : List String) : IO UInt32 := do
  let status ←
    match Transcript.Command.parse args with
    | some r => Transcript.Main.runFiles r (r.files.map String.toList) .empty
    | none => pure .misuse
  match status with
  | .failure reason =>
    if !reason.isEmpty then IO.eprintln s!"Error: {String.ofList reason}"
  | .misuse =>
    IO.eprintln "usage: [-v] [-f] [-o NAME] [--log-level LEVEL] [--docutils] FILE..."
  | .success => pure ()
  return status.code
