import Transcript.Bindings
import Transcript.Compare.BlankLine
import Transcript.Doc.Document
import Transcript.Text.Bytes
import Transcript.Text.Search
import Transcript.Version

/-!
# Directives

A directive is a named construct of a document with an argument, options and a body. It becomes a
node, or a container whose children are read from its body.
-/

namespace Transcript.Doc

/-- **What a directive does.** -/
inductive DirectiveKind
  /-- It makes a tested block. -/
  | test (kind : TestKind)
  /-- It holds a part of the document, in the format of the document. -/
  | tab
  /-- It holds a part in reStructuredText. -/
  | evalRst
  /-- It shows code. -/
  | codeBlock
  deriving DecidableEq, Repr

/-- **The known directives** by their names, with what tells whether a requirement of a version is met. -/
structure Directives extends Bindings DirectiveKind where
  /-- Whether the version of the language meets a requirement, if the requirement can be read. -/
  meets? : List Char → Option Bool

namespace Directives

/-- No directive is known. -/
def empty : Directives := ⟨.empty, Version.ofLanguage.meets?⟩

/-- The names every document knows. -/
def standard : List (String × DirectiveKind) :=
  [("doctest", .test .test), ("testsetup", .test .setup), ("testcleanup", .test .cleanup),
    ("tab", .tab), ("eval-rst", .evalRst), ("code-block", .codeBlock), ("code", .codeBlock),
    ("sourcecode", .codeBlock)]

/-- Whether the names without which nothing is found are known. -/
def isReady (d : Directives) : Bool :=
  ["doctest", "testsetup", "testcleanup", "tab"].all d.contains

/-- Makes a name known, unless it is. -/
def register (d : Directives) (entry : String × DirectiveKind) : Directives :=
  if d.contains entry.1 then d else { d with toBindings := d.insert entry.1 entry.2 }

/-- **Makes the standard names known.** A name that is known keeps its meaning. -/
def setup (d : Directives) : Directives := if d.isReady then d else standard.foldl register d

end Directives

/-- **A directive as it is written.** -/
structure Invocation where
  /-- Its name. -/
  name : String
  /-- Its argument. -/
  argument : Option (List Char)
  /-- Its options in the order in which they are written. -/
  options : List (String × List Char)
  /-- Its body without indentation. -/
  content : List Char
  /-- The line it is on, counted from one. -/
  line : Nat
  /-- The line of the first line of its body. -/
  contentLine : Nat

namespace Invocation

/-- The value of an option. -/
def option? (inv : Invocation) (key : String) : Option (List Char) :=
  (inv.options.find? (·.1 == key)).map Prod.snd

/-- Whether an option is given. -/
def hasOption (inv : Invocation) (key : String) : Bool := (inv.option? key).isSome

end Invocation

/-- **A line that gives an option:** a name between colons, then blanks and a value, or nothing. -/
def optionLine? (text : List Char) : Option (String × List Char) := do
  let inner ← Text.afterBegin? [':'] (Text.trim text)
  let first ← inner.head?
  if first = ':' || Text.isBlank first then none
  else
    let (key, rest) := inner.span (· != ':')
    let rest ← Text.afterBegin? [':'] rest
    if rest.isEmpty || rest.head? = some ' ' || rest.head? = some '\t' then
      some (String.ofList key, Text.trim rest)
    else none

/-- **What a directive becomes.** -/
inductive Expansion
  /-- A node. -/
  | node (n : Node)
  /-- A container whose children are read from a text, in a format or in that of the document. -/
  | nested (format : Option Format) (content : List Char) (contentLine line : Nat)

/-! ### The text that is shown -/

/-- A text from the beginning of a line on, without the markers of blank lines at the beginnings of
lines and the blanks before them. The count tells how many characters still belong to a marker; the
flag, whether a line begins here. -/
def dropMarkersAfter : Nat → Bool → List Char → List Char
  | _, _, [] => []
  | skip + 1, _, _ :: cs => dropMarkersAfter skip false cs
  | 0, atBegin, c :: cs =>
    let blanks := (c :: cs).takeWhile Text.isBlank
    let marked := Text.afterBegin? Compare.blankMarker ((c :: cs).drop blanks.length)
    if atBegin && marked.isSome then
      dropMarkersAfter (blanks.length + Compare.blankMarker.length - 1) false cs
    else c :: dropMarkersAfter 0 (c == '\n') cs

/-- A text without the markers of blank lines. -/
def dropMarkers (s : List Char) : List Char := dropMarkersAfter 0 true s

/-- How many characters an option comment has that begins here, with the blanks before it: up to the
end of the line that names the program. -/
def optionCommentLength? (s : List Char) : Option Nat := do
  let blanks := s.takeWhile fun c => c == ' ' || c == '\t'
  let rest ← Text.afterBegin? ['#'] (s.drop blanks.length)
  let gap := rest.takeWhile Text.isBlank
  let said ← Text.afterBegin? "doctest:".toList (rest.drop gap.length)
  let line := said.takeWhile (· != '\n')
  if line.isEmpty then none else some (s.length - (said.length - line.length))

/-- A text without its option comments. The count tells how many characters still belong to one. -/
def dropOptionCommentsAfter : Nat → List Char → List Char
  | _, [] => []
  | skip + 1, _ :: cs => dropOptionCommentsAfter skip cs
  | 0, c :: cs =>
    match optionCommentLength? (c :: cs) with
    | some n => dropOptionCommentsAfter (n - 1) cs
    | none => c :: dropOptionCommentsAfter 0 cs

/-- A text without its option comments. -/
def dropOptionComments (s : List Char) : List Char := dropOptionCommentsAfter 0 s

/-- The text shown of a tested block, and the text to run where it differs. -/
def shownText (content : List Char) (keepsComments : Bool) : List Char × Option (List Char) :=
  let marked := Text.contains content Compare.blankMarker
  let shown := if marked then dropMarkers content else content
  let test := if marked then some content else none
  let bare := dropOptionComments shown
  if bare.length < shown.length && !keepsComments then (bare, test.or (some shown))
  else (shown, test)

/-! ### Tested blocks -/

/-- The name of the directive for a part. -/
def TestKind.directiveName : TestKind → String
  | .test => "doctest"
  | .setup => "testsetup"
  | .cleanup => "testcleanup"

/-- The options that a tested block takes. -/
def TestKind.options : TestKind → List String
  | .test =>
    ["hide", "options", "version", "pyversion", "skipif", "trim-doctest-flags",
      "no-trim-doctest-flags"]
  | .setup | .cleanup => ["skipif"]

/-- The option that sets options for all examples. -/
def blockOverrides (inv : Invocation) : Building Overrides := do
  match inv.option? "options" with
  | none => return .empty
  | some text =>
    let (overrides, errors) := Overrides.ofTextLenient (String.ofList text)
    errors.forM fun e => Building.warn inv.line (.badOption e)
    return overrides

/-- Skips the examples where the version of the language does not meet what the block requires. -/
def gateVersion (meets? : List Char → Option Bool) (inv : Invocation) (overrides : Overrides) :
    Building Overrides := do
  let skipping := overrides.enable (.single .skip)
  match (inv.option? "version").or (inv.option? "pyversion") with
  | none => return overrides
  | some requirement =>
    match meets? requirement with
    | some true => return overrides
    | some false => return skipping
    | none =>
      Building.warn inv.line (.badVersion (String.ofList requirement))
      return skipping

/-- The groups that an argument names. -/
def groupsOf (argument : Option (List Char)) : List String :=
  match argument with
  | some arg => (Text.splitOn [','] arg).map fun g => String.ofList (Text.trim g)
  | none => ["default"]

/-- Whether option comments are to be removed. -/
def trimsFlags? (inv : Invocation) : Option Bool :=
  if inv.hasOption "trim-doctest-flags" then some true
  else if inv.hasOption "no-trim-doctest-flags" then some false
  else none

/-- **The node of a tested block.** Only tests that are not hidden show their text. -/
def testNode (meets? : List Char → Option Bool) (kind : TestKind) (inv : Invocation) : Building Node := do
  for (key, _) in inv.options do
    if !kind.options.contains key then Building.warn inv.line (.unknownOption key inv.name)
  let groups := groupsOf inv.argument
  let skipIf := inv.option? "skipif"
  let node (shown : NodeKind) (text : List Char) (test : Option (List Char))
      (overrides : Overrides) (language : Option String) : Node :=
    { Node.make shown text inv.line inv.contentLine with
      attributes := ⟨groups, test, overrides, skipIf, trimsFlags? inv, some kind, language⟩ }
  match kind with
  | .test =>
    let (text, test) := shownText inv.content (inv.hasOption "no-trim-doctest-flags")
    let overrides ← gateVersion meets? inv (← blockOverrides inv)
    let shown := if inv.hasOption "hide" then NodeKind.comment else .literalBlock
    return node shown text test overrides (some "pycon3")
  | _ => return node .comment inv.content none .empty none

/-! ### Expansion -/

/-- The container of a directive; its body must not be empty. -/
def nestedPart (format : Option Format) (inv : Invocation) : Building (Option Expansion) := do
  if Text.allBlank inv.content then
    Building.warn inv.line (.noContent inv.name)
    return none
  else return some (.nested format inv.content inv.contentLine inv.line)

/-- **What a directive becomes.** Nothing is added to the document but problems. -/
def Directives.expand (d : Directives) (inv : Invocation) : Building (Option Expansion) := do
  match d.get? inv.name with
  | none =>
    Building.warn inv.line (.unknownDirective inv.name)
    return none
  | some (.test kind) => return some (.node (← testNode d.meets? kind inv))
  | some .codeBlock =>
    let n := Node.make .literalBlock inv.content inv.line inv.contentLine
    let language := inv.argument.map String.ofList
    return some (.node { n with attributes := { n.attributes with language } })
  | some .tab => nestedPart none inv
  | some .evalRst => nestedPart (some .rst) inv

end Transcript.Doc
