import Transcript.Session.Example
import Transcript.Text.Bytes
import Transcript.Text.Lines
import Transcript.Text.Character

/-!
# The grammar of a session

An example starts with a prompt line, goes on with continuation lines, and is followed by its
expected output, which runs up to the next blank line or prompt. All else in a session text is
prose. Tabs are expanded and the common indentation is taken off first.

Results:
* `blockAt_lengths`: an example takes its prompt, continuation and output lines off the text, and
  nothing else.
-/

namespace Transcript.Session

/-- The number of leading spaces. -/
def leadingSpaces (line : List Char) : Nat := (line.takeWhile (· == ' ')).length

/-- The columns before the prompt, if the line is a prompt line. -/
def promptIndent? (line : List Char) : Option Nat :=
  if ['>', '>', '>'].isPrefixOf (line.dropWhile (· == ' ')) then some (leadingSpaces line) else none

/-- Whether a line starts with the continuation prompt. -/
def isContinuation (line : List Char) : Bool :=
  ['.', '.', '.'].isPrefixOf (line.dropWhile (· == ' '))

/-- Whether a line may belong to the expected output. -/
def isOutput (line : List Char) : Bool := !Text.allBlank line && (promptIndent? line).isNone

/-- The indentation shared by all lines that are not blank. -/
def commonIndent (lines : List (List Char)) : Nat :=
  ((lines.filter (!Text.allBlank ·)).map leadingSpaces).min?.getD 0

/-- The lines of a text without tabs and without their common indentation. -/
def dedentedLines (text : List Char) : List (List Char) :=
  let lines := (Text.segments text).map Text.expandTabs
  lines.map fun line => (Text.dropBytes (commonIndent lines) line).getD []

/-- The lines of one example. -/
structure Block where
  /-- The prompt line. -/
  prompt : List Char
  /-- The continuation lines. -/
  more : List (List Char)
  /-- The lines of expected output. -/
  output : List (List Char)

/-- The lines of the example that starts with a prompt line, and the lines after it. -/
def blockAt (prompt : List Char) (lines : List (List Char)) : Block × List (List Char) :=
  let rest := lines.dropWhile isContinuation
  (⟨prompt, lines.takeWhile isContinuation, rest.takeWhile isOutput⟩, rest.dropWhile isOutput)

/-- The message that an expected output documents: it starts with the heading of a traceback, and
the message is what follows from the first line that begins with a word. -/
def documentedMessage? (want : List Char) : Option (List Char) :=
  ((Text.afterBegin? "Traceback (most recent call last):".toList want).or
    (Text.afterBegin? "Traceback (innermost last):".toList want)).bind fun rest =>
      match rest.dropWhile (fun c => c == ' ' || c == '\t') with
      | '\n' :: body => wordLine? true body
      | _ => none
where
  /-- The text from the first line that begins with a word character. -/
  wordLine? (atStart : Bool) : List Char → Option (List Char)
    | [] => none
    | c :: cs => if atStart && Text.isWord c then some (c :: cs) else wordLine? (c == '\n') cs

/-- Whether a statement is a single line that is blank or a comment. -/
def isBlankOrComment (source : List Char) : Bool :=
  let line := if source.getLast? = some '\n' then source.dropLast else source
  !line.contains '\n' &&
    match line.dropWhile (· == ' ') with
    | [] => true
    | c :: _ => c == '#'

/-- Each prompt of the lines, the first of which is line `line`, must be followed by a blank or
end its line. -/
def checkBlanks (name : String) (indent : Nat) : Nat → List (List Char) → Except Error Unit
  | _, [] => .ok ()
  | line, text :: rest =>
    match Text.charAtByte (indent + 3) text with
    | none => checkBlanks name indent (line + 1) rest
    | some c =>
      if c = some ' ' then checkBlanks name indent (line + 1) rest
      else
        match (Text.dropBytes indent text).bind (Text.takeBytes 3) with
        | some prompt => .error (.missingBlank line name prompt text)
        | none => .error (.brokenPrompt line name text)

/-- The lines, the first of which is line `line`, must all start as given. -/
def checkBeginnings (name : String) (beginning : List Char) :
    Nat → List (List Char) → Except Error Unit
  | _, [] => .ok ()
  | line, text :: rest =>
    if !text.isEmpty && !beginning.isPrefixOf text then
      .error (.inconsistentIndent line name text)
    else checkBeginnings name beginning (line + 1) rest

/-- The overrides of a statement at the given line, counted from zero. -/
def readOptions (source : List Char) (line : Nat) (name : String) : Except Error Overrides := do
  let overrides ← (optionComments source).foldlM (fun (o : Overrides) (feeds, options) =>
    match Overrides.ofText (String.ofList options) with
    | .ok later => .ok (o.merge later)
    | .error _ => .error (Error.invalidOption (line + feeds + 1) name (Text.trim options))) .empty
  if !overrides.isNone && isBlankOrComment source then
    .error (.optionWithoutExample (line + 1) name source)
  else .ok overrides

/-- The example of a block at the given line, counted from zero; none if its statement is blank or
a comment. -/
def readBlock (name : String) (block : Block) (line indent : Nat) : Except Error (Option Example) := do
  let sources := block.prompt :: block.more
  checkBlanks name indent (line + 1) sources
  checkBeginnings name (List.replicate indent ' ' ++ ['.']) (line + 2) block.more
  let source := Text.joinLines (sources.map fun text => (Text.dropBytes (indent + 4) text).getD [])
  checkBeginnings name (List.replicate indent ' ') (line + sources.length + 1) block.output
  let want := Text.joinLines (block.output.map fun text => (Text.dropBytes indent text).getD [])
  let want := if want.isEmpty then want else want ++ ['\n']
  let overrides ← readOptions source line name
  if isBlankOrComment source then return none
  return some (.make source want (documentedMessage? want) line indent overrides)

theorem length_takeWhile_dropWhile (p : List Char → Bool) (l : List (List Char)) :
    (l.takeWhile p).length + (l.dropWhile p).length = l.length := by
  rw [← List.length_append, List.takeWhile_append_dropWhile]

theorem blockAt_lengths (prompt : List Char) (lines : List (List Char)) :
    (blockAt prompt lines).1.more.length + (blockAt prompt lines).1.output.length +
      (blockAt prompt lines).2.length = lines.length := by
  have h₁ := length_takeWhile_dropWhile isContinuation lines
  have h₂ := length_takeWhile_dropWhile isOutput (lines.dropWhile isContinuation)
  simp only [blockAt]
  omega

/-- The examples of lines, the first of which is line `line`, counted from zero. -/
def readLines (name : String) (line : Nat) (lines : List (List Char)) :
    Except Error (List Example) :=
  match lines with
  | [] => .ok []
  | text :: rest =>
    match promptIndent? text with
    | none => readLines name (line + 1) rest
    | some indent =>
      let block := (blockAt text rest).1
      let after := (blockAt text rest).2
      match readBlock name block line indent with
      | .error e => .error e
      | .ok found =>
        match readLines name (line + 1 + block.more.length + block.output.length) after with
        | .error e => .error e
        | .ok examples => .ok (found.toList ++ examples)
termination_by lines.length
decreasing_by
  · simp
  · have := blockAt_lengths text rest
    simp only [List.length_cons]
    omega

/-- **The examples of a session text.** `name` identifies the session in errors. -/
def read (text : List Char) (name : String) : Except Error (List Example) :=
  readLines name 0 (dedentedLines text)

end Transcript.Session
