import Transcript.Flag.Override
import Transcript.Path

/-!
# Documents

A document is a tree of nodes, kept as a list in the order in which they were added, each with the
places of its children. The first node is the root. Problems found while reading are collected
beside the tree.

Results:
* `size_add`: adding a node adds one.
-/

namespace Transcript.Doc

/-- **The markup of a document.** -/
inductive Format
  | rst
  | markdown
  deriving DecidableEq, Repr

/-- The format that a file name tells: the ending `md` stands for Markdown, anything else for
reStructuredText. -/
def Format.ofName (name : List Char) : Format :=
  if Path.extension? name = some ['m', 'd'] then .markdown else .rst

/-! ## Nodes -/

/-- The place of a node in its document. -/
abbrev NodeId := Nat

/-- **What a node stands for.** -/
inductive NodeKind
  | root | section | paragraph | literalBlock | doctestBlock | comment | container
  deriving DecidableEq, Repr

/-- **The part a tested block plays.** -/
inductive TestKind
  /-- Its examples are tests. -/
  | test
  /-- It prepares tests. -/
  | setup
  /-- It cleans up after tests. -/
  | cleanup
  deriving DecidableEq, Repr

/-- What a directive tells about its node. -/
structure Attributes where
  /-- The groups of tests it belongs to. -/
  groups : List String
  /-- The text to run, where it differs from the text shown. -/
  test : Option (List Char)
  /-- Options for all examples. -/
  overrides : Overrides
  /-- An expression that tells whether to skip the block. -/
  skipIf : Option (List Char)
  /-- Whether option comments are removed from the text shown. -/
  trimsFlags : Option Bool
  /-- The part the block plays. -/
  testKind : Option TestKind
  /-- The language of the text. -/
  language : Option String

/-- No attributes. -/
def Attributes.none : Attributes := ⟨[], .none, .empty, .none, .none, .none, .none⟩

/-- **A node.** -/
structure Node where
  /-- What it stands for. -/
  kind : NodeKind
  /-- The text shown. -/
  text : List Char
  /-- The line of the construct, counted from one. -/
  line : Option Nat
  /-- The line of the first line of the text. -/
  contentLine : Option Nat
  /-- The name of the document it comes from. -/
  source : Option String
  /-- What a directive tells about it. -/
  attributes : Attributes
  /-- The places of its children. -/
  children : List NodeId

/-- A node without children at a line. -/
def Node.make (kind : NodeKind) (text : List Char) (line contentLine : Nat) : Node :=
  ⟨kind, text, some line, some contentLine, none, .none, []⟩

/-- A node whose text starts at its line. -/
def Node.atLine (kind : NodeKind) (text : List Char) (line : Nat) : Node := .make kind text line line

/-- The root of a document. -/
def Node.root : Node := ⟨.root, [], none, none, none, .none, []⟩

instance : Inhabited Node := ⟨.root⟩

/-- **A problem found while reading.** -/
inductive Trouble
  | unknownDirective (name : String)
  | noContent (name : String)
  | unknownOption (key name : String)
  | badOption (e : OptionError)
  | badVersion (requirement : String)
  | shortUnderline
  | noLiteralBlock
  | unevenQuoting
  deriving DecidableEq, Repr

/-- The wording of a problem. -/
def Trouble.message : Trouble → String
  | .unknownDirective name => s!"Unknown directive type \"{name}\"."
  | .noContent name => s!"Content block expected for the \"{name}\" directive; none found."
  | .unknownOption key name => s!"unknown option \"{key}\" for the \"{name}\" directive"
  | .badOption e => s!"{e.message}."
  | .badVersion requirement => s!"'{requirement}' is not a valid version option"
  | .shortUnderline => "Title underline too short."
  | .noLiteralBlock => "Literal block expected; none found."
  | .unevenQuoting => "Inconsistent literal block quoting."

/-- **A problem with its line.** -/
structure Diagnostic where
  /-- The line, counted from one. -/
  line : Nat
  /-- What is wrong. -/
  trouble : Trouble
  deriving DecidableEq, Repr

/-- A problem in words. -/
def Diagnostic.describe (d : Diagnostic) : String := s!"line {d.line}: {d.trouble.message}"

/-- **A document.** -/
structure Document where
  /-- Its name. -/
  source : Option String
  /-- Its nodes in the order in which they were added, the root first. -/
  nodes : Array Node
  /-- The problems found. -/
  diagnostics : List Diagnostic

namespace Document

/-- A document with its root only. -/
def new (source : Option String) : Document := ⟨source, #[.root], []⟩

/-- The root. -/
def root : NodeId := 0

/-- A node. -/
def node (d : Document) (id : NodeId) : Node := (d.nodes[id]?).getD .root

/-- The number of nodes. -/
def size (d : Document) : Nat := d.nodes.size

/-- Whether there is nothing but the root. -/
def isEmpty (d : Document) : Bool := d.size == 1

/-- **Adds a node** as the last child of a node. -/
def add (d : Document) (parent : NodeId) (n : Node) : NodeId × Document :=
  let id := d.nodes.size
  let nodes := d.nodes.push { n with source := n.source.or d.source }
  (id, { d with nodes := nodes.modify parent fun p => { p with children := p.children ++ [id] } })

/-- Notes a problem. -/
def warn (d : Document) (line : Nat) (trouble : Trouble) : Document :=
  { d with diagnostics := d.diagnostics ++ [⟨line, trouble⟩] }

/-- The nodes below those of a stack and they themselves, parents before children, at most so
many. -/
def traverseFrom (d : Document) : Nat → List NodeId → List NodeId
  | 0, _ => []
  | _ + 1, [] => []
  | steps + 1, id :: stack => id :: traverseFrom d steps ((d.node id).children ++ stack)

/-- **All nodes in the order of the document**, parents before children. -/
def traverse (d : Document) : List NodeId := d.traverseFrom d.size [root]

theorem size_add (d : Document) (parent : NodeId) (n : Node) :
    (d.add parent n).2.size = d.size + 1 := by
  simp [add, size]

end Document

/-- A computation that builds a document. -/
abbrev Building := StateM Document

/-- Adds a node. -/
def Building.add (parent : NodeId) (n : Node) : Building NodeId := fun d => d.add parent n

/-- Notes a problem. -/
def Building.warn (line : Nat) (trouble : Trouble) : Building Unit := modify (·.warn line trouble)

end Transcript.Doc
