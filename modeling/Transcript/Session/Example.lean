import Transcript.Flag.Override
import Transcript.Text.Blank
import Transcript.Text.Character
import Transcript.Text.Search

/-!
# Examples of a session

A session text is made of examples: a statement typed at a prompt, and the output that it is
expected to show. This module holds the example itself and what can be wrong with a session text.

Results:
* `Example.make_source_ends`: the statement of an example always ends its line.
-/

namespace Transcript.Session

/-- **One example of a session.** -/
structure Example where
  /-- The statement, ending with a line feed. -/
  source : List Char
  /-- The expected output: empty, or ending with a line feed. -/
  want : List Char
  /-- The expected message, where the example is documented to raise an exception. -/
  message : Option (List Char)
  /-- The line of the prompt in the session text, counted from zero. -/
  line : Nat
  /-- The columns before the prompt. -/
  indent : Nat
  /-- Overrides of flags written in the statement. -/
  overrides : Overrides
  deriving DecidableEq

/-- Adds a line feed to a text that does not end with one. -/
def endLine (s : List Char) : List Char := if s.getLast? = some '\n' then s else s ++ ['\n']

/-- The example of a statement and its expected output, with their line ends completed. -/
def Example.make (source want : List Char) (message : Option (List Char)) (line indent : Nat)
    (overrides : Overrides) : Example where
  source := endLine source
  want := if want.isEmpty then [] else endLine want
  message := message.map endLine
  line := line
  indent := indent
  overrides := overrides

/-- **What can be wrong with a session text.** Lines are counted from one within the text. -/
inductive Error
  /-- A prompt is not followed by a blank. -/
  | missingBlank (line : Nat) (name : String) (prompt text : List Char)
  /-- A line of an example starts left of its prompt. -/
  | inconsistentIndent (line : Nat) (name : String) (text : List Char)
  /-- An option comment cannot be read. -/
  | invalidOption (line : Nat) (name : String) (option : List Char)
  /-- An option comment stands where no example is. -/
  | optionWithoutExample (line : Nat) (name : String) (text : List Char)
  /-- The prompt of a line that lacks a blank cannot be shown, because its place falls inside a
  character. -/
  | brokenPrompt (line : Nat) (name : String) (text : List Char)

namespace Error

/-- The line that an error names. -/
def line : Error → Nat
  | missingBlank line .. | inconsistentIndent line .. | invalidOption line ..
  | optionWithoutExample line .. | brokenPrompt line .. => line

/-- The wording of an error. -/
def message : Error → String
  | missingBlank line name prompt text =>
    s!"line {line} of the docstring for {name} lacks blank after {String.ofList prompt}: " ++
      Text.quoted text
  | inconsistentIndent line name text =>
    s!"line {line} of the docstring for {name} has inconsistent leading whitespace: " ++
      Text.quoted text
  | invalidOption line name option =>
    s!"line {line} of the doctest for {name} has an invalid option: " ++ Text.quoted option
  | optionWithoutExample line name text =>
    s!"line {line} of the doctest for {name} has an option directive on a line with no example: " ++
      Text.quoted text
  | brokenPrompt line name text =>
    s!"line {line} of the docstring for {name} lacks blank after a prompt that splits a character: " ++
      Text.quoted text

end Error

theorem endLine_ends (s : List Char) : (endLine s).getLast? = some '\n' := by
  unfold endLine; split <;> simp_all

theorem Example.make_source_ends (source want : List Char) (message : Option (List Char))
    (line indent : Nat) (o : Overrides) :
    (Example.make source want message line indent o).source.getLast? = some '\n' :=
  endLine_ends source

/-! ## Option comments of a statement

A comment `# doctest: +NAME -NAME` in the statement of an example overrides flags for it. The
options run to the end of the comment's line and may hold no quote, so that a comment inside a text
literal is not taken for one.
-/

/-- The part of a run of blanks before its last line feed. -/
def beforeLastFeed (blanks : List Char) : List Char :=
  (blanks.reverse.dropWhile (· != '\n')).tail.reverse

/-- A character that may stand in options. -/
def isOptionChar (c : Char) : Bool := !(c == '\n' || c == '\'' || c == '"')

/-- Reads an option comment after its number sign: the text up to the options, and the options.
Options that do not fill the rest of their line are dropped if the blanks before them hold a line
feed: then the comment ends there. -/
def optionsAfterHash? (s : List Char) : Option (List Char × List Char) :=
  let (first, s) := s.span Text.isBlank
  (Text.afterBegin? "doctest:".toList s).bind fun s =>
    let (second, s) := s.span Text.isBlank
    let options := s.takeWhile isOptionChar
    let lead := first ++ "doctest:".toList
    match s.dropWhile isOptionChar with
    | [] | '\n' :: _ => some (lead ++ second, options)
    | _ => if second.contains '\n' then some (lead ++ beforeLastFeed second, []) else none

/-- The option comments of a text, each with the number of line feeds before its options, after
skipping some characters; `feeds` line feeds came before. -/
def optionCommentsAfter : Nat → Nat → List Char → List (Nat × List Char)
  | _, _, [] => []
  | skip + 1, feeds, c :: cs =>
    optionCommentsAfter skip (if c = '\n' then feeds + 1 else feeds) cs
  | 0, feeds, c :: cs =>
    if c = '#' then
      match optionsAfterHash? cs with
      | some (lead, options) =>
        (feeds + lead.count '\n', options) ::
          optionCommentsAfter (lead.length + options.length) feeds cs
      | none => optionCommentsAfter 0 feeds cs
    else optionCommentsAfter 0 (if c = '\n' then feeds + 1 else feeds) cs

/-- The option comments of a statement, each with its line in the statement. -/
def optionComments (source : List Char) : List (Nat × List Char) := optionCommentsAfter 0 0 source

end Transcript.Session
