import Transcript.Doc.OfText
import Transcript.Lang.Interpreter
import Transcript.Session.Grammar

/-!
# Regions and test cases

The parts of a document that hold a session: blocks that a directive marks as tests, and blocks
that begin with a prompt. Every region is run on its own. A region with a namespace of its own is
ready to be run.

Results:
* `Region.comesBefore_iff`, `Region.comesBefore_trans`, `Region.comesBefore_total`: regions come by name, and
  those of one name by line.
* `casesOf_spaces`: the namespaces are new ones, one after the other.
-/

namespace Transcript.Test

open Doc

/-- **A region.** -/
structure Region where
  /-- The name of the group it belongs to, or one made of the document's name. -/
  name : String
  /-- The name of the document. -/
  filename : String
  /-- The line it begins on, counted from one. -/
  line : Nat
  /-- The line of the first line of its text. -/
  contentLine : Nat
  /-- Its examples. -/
  examples : List Session.Example
  /-- The groups it belongs to. -/
  groups : List String
  /-- The part it plays; nothing if it was found by its prompt. -/
  kind : Option TestKind
  /-- An expression that tells whether to skip it. -/
  skipIf : Option (List Char)
  /-- Its text. -/
  text : List Char

namespace Region

/-- **The region of a text** that begins on a line. -/
def ofText (text : List Char) (name filename : String) (line : Nat) : Except Session.Error Region :=
  (Session.read text name).map fun examples =>
    ⟨name, filename, line, line, examples, [], none, none, text⟩

/-- The line of an example in the document. -/
def lineOf (r : Region) (e : Session.Example) : Nat := r.contentLine + e.line

/-- Whether there are no examples. -/
def isEmpty (r : Region) : Bool := r.examples.isEmpty

end Region

/-- **Why no regions are found.** -/
inductive FindError
  /-- The text has no name. -/
  | noName
  /-- The session of a region cannot be read; its name and a line of the document. -/
  | unreadable (name : String) (line : Nat) (cause : Session.Error)

/-- The wording of an error. -/
def FindError.message : FindError → String
  | .noName => "a name must be given to find tests in a text"
  | .unreadable name line cause => s!"cannot parse test {name} at line {line}: {cause.message}"

/-- Whether a text begins with a prompt. -/
def beginsWithPrompt (text : List Char) : Bool :=
  (Text.afterBegin? ['>', '>', '>'] (text.dropWhile (· == ' '))).isSome

/-- Whether a node holds a session. -/
def isRegion (n : Node) : Bool :=
  match n.kind with
  | .literalBlock => n.attributes.testKind.isSome || beginsWithPrompt n.text
  | .comment => n.attributes.testKind.isSome
  | .doctestBlock => true
  | _ => false

/-- The name of the region of a node, by its place among all regions. -/
def regionName (filename : String) (index : Nat) (n : Node) : String :=
  match n.attributes.groups.head? with
  | some group => if group = "default" then s!"{filename}[{index}]" else group
  | none => s!"{filename}[{index}]"

/-- **The region of a node.** What its directive says about flags lies under what the examples
say. -/
def regionOf (filename : String) (index : Nat) (n : Node) : Except FindError Region :=
  let name := regionName filename index n
  let line := n.line.getD 1
  let contentLine := n.contentLine.getD line
  let a := n.attributes
  match Region.ofText (a.test.getD n.text) name filename line with
  | .error e => .error (.unreadable name (contentLine + e.line - 1) e)
  | .ok r =>
    let examples := r.examples.map fun e => { e with overrides := a.overrides.merge e.overrides }
    .ok { r with contentLine, examples, groups := a.groups, kind := a.testKind, skipIf := a.skipIf }

/-- Whether a region comes before another one: by name, then by line. -/
def Region.comesBefore (a b : Region) : Bool :=
  a.name < b.name || (a.name == b.name && a.line ≤ b.line)

/-- **The regions of nodes.** -/
def regionsOf (filename : String) (nodes : List Node) : Except FindError (List Region) := do
  let regions ← (nodes.filter isRegion).zipIdx.mapM fun (n, i) => regionOf filename i n
  return regions.mergeSort Region.comesBefore

/-- The regions of a document, in the order of its nodes. -/
def regionsIn (filename : String) (d : Document) : Except FindError (List Region) :=
  regionsOf filename (d.traverse.map d.node)

/-- **The regions of a text.** Its name tells the format and begins the names of regions without a
group. -/
def regions (text : List Char) (name : Option String) (d : Directives) :
    Except FindError (List Region) :=
  match name with
  | none => .error .noName
  | some name => regionsIn name (.ofText (Format.ofName name.toList) text name d.setup)

theorem Region.comesBefore_iff (a b : Region) :
    a.comesBefore b = true ↔ a.name < b.name ∨ (a.name = b.name ∧ a.line ≤ b.line) := by
  simp [Region.comesBefore]

theorem Region.comesBefore_trans (a b c : Region) (h : a.comesBefore b = true)
    (h' : b.comesBefore c = true) : a.comesBefore c = true := by
  rw [Region.comesBefore_iff] at *
  rcases h with h | ⟨h, hl⟩ <;> rcases h' with h' | ⟨h', hl'⟩
  · exact .inl (String.lt_trans h h')
  · exact .inl (h' ▸ h)
  · exact .inl (h ▸ h')
  · exact .inr ⟨h.trans h', Nat.le_trans hl hl'⟩

theorem Region.comesBefore_total (a b : Region) :
    (a.comesBefore b || b.comesBefore a) = true := by
  rw [Bool.or_eq_true, Region.comesBefore_iff, Region.comesBefore_iff]
  by_cases h : a.name < b.name
  · exact .inl (.inl h)
  · by_cases h' : b.name < a.name
    · exact .inr (.inl h')
    · have e : a.name = b.name := String.le_antisymm h' h
      rcases Nat.le_total a.line b.line with hl | hl
      · exact .inl (.inr ⟨e, hl⟩)
      · exact .inr (.inr ⟨e.symm, hl⟩)

/-! ## Test cases -/

open Lang

/-- **A test case.** -/
structure Case where
  /-- The region. -/
  region : Region
  /-- The namespace of its examples. -/
  space : Ref

/-- The name that tells a program what it is run as. -/
def nameBinding : String := "__name__"

/-- **The bindings a test case starts with:** given ones, others over them, and the name of the
program, unless it is bound. -/
def startingBindings (globals extra : Option (Bindings Value)) : Host (Bindings Value) := do
  let b := (globals.getD .empty).update (extra.getD .empty)
  if b.contains nameBinding then return b
  else
    let identity := (← get).identities
    set { (← get) with identities := identity + 1 }
    return b.insert nameBinding (.str identity "__main__".toList)

/-- The test cases of regions, each with a copy of some bindings. -/
def casesOf (b : Bindings Value) : List Region → Host (List Case)
  | [] => return []
  | r :: rs => do
    let space ← Host.newSpace b
    let cases ← casesOf b rs
    return ⟨r, space⟩ :: cases

/-- The test cases of a text with a name, where some directives are known. -/
def findCasesWith (d : Directives) (text : List Char) (name : Option String)
    (globals extra : Option (Bindings Value)) : Host (Except FindError (List Case)) := do
  match regions text name d with
  | .error e => return .error e
  | .ok rs => return .ok (← casesOf (← startingBindings globals extra) rs)

/-- **The test cases of a text** with a name. -/
def findCases (text : List Char) (name : Option String) (globals extra : Option (Bindings Value)) :
    Host (Except FindError (List Case)) := findCasesWith .empty text name globals extra

theorem casesOf_eq (b : Bindings Value) (rs : List Region) (w : World) :
    casesOf b rs w = some
      (rs.zipIdx.map (fun (r, i) => ⟨r, w.spaces.size + i⟩),
        { w with spaces := w.spaces ++ (List.replicate rs.length b).toArray }) := by
  induction rs generalizing w with
  | nil => simp [casesOf, Host.pure_apply]
  | cons r rs ih =>
    simp only [casesOf, bind, StateT.bind, Host.newSpace, Option.bind, World.newSpace, ih,
      Host.pure_apply, List.zipIdx_cons', List.map_cons, List.map_map, List.length_cons]
    simp only [Function.comp_def, Nat.add_assoc, Nat.add_comm 1, List.replicate_succ, Array.size_push,
      Nat.add_zero]
    congr 2
    simp [← Array.toList_inj]

theorem casesOf_spaces (b : Bindings Value) (rs : List Region) (w : World) :
    (casesOf b rs w).map (fun p => p.1.map Case.space) =
      some ((List.range rs.length).map (w.spaces.size + ·)) := by
  rw [casesOf_eq]
  simp only [Option.map_some, List.map_map]
  congr 1
  have h : (fun i => w.spaces.size + i) ∘ Prod.snd =
      Case.space ∘ fun ((r, i) : Region × Nat) => ⟨r, w.spaces.size + i⟩ := rfl
  rw [← h, ← List.map_map, List.zipIdx_map_snd, List.range_eq_range']

end Transcript.Test
