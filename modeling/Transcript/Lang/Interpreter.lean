import Transcript.Lang.Eval

/-!
# The interpreter

What a host does with programs: it evaluates compiled sources, opens event loops, drives coroutines
on them and closes them. A host computation has no result only where a program has no end.

Results:
* `bind_eq_some`: what two steps of a host do.
-/

namespace Transcript.Lang

/-- **A computation of a host.** -/
abbrev Host := StateT World Option

/-- **An exception that reaches the host:** raised by a program that has not handled it, or the
exception of a source that does not compile, which has a place. -/
structure Exc extends Raised where
  /-- Its place in a source. -/
  place : Option SourcePlace

/-- An exception that a program has raised. -/
def Exc.ofRaised (e : Raised) : Exc := ⟨e, none⟩

/-- How a source has ended that a host has run. -/
abbrev Outcome := Except Exc Value

/-- How deep computations nest before they count as endless. No machine gets there. -/
def horizon : Nat := Nat.pow 2 60

namespace Host

variable {α : Type}

theorem pure_apply (a : α) (w : World) : (pure a : Host α) w = some (a, w) := rfl

/-- The result of two steps. -/
theorem bind_eq_some {β : Type} {x : Host α} {f : α → Host β} {w : World}
    {r : β × World} :
    (x >>= f) w = some r ↔ ∃ a w₁, x w = some (a, w₁) ∧ f a w₁ = some r := by
  change (x w).bind (fun p => f p.1 p.2) = some r ↔ _
  rw [Option.bind_eq_some_iff]
  constructor
  · rintro ⟨⟨a, w₁⟩, hx, hf⟩
    exact ⟨a, w₁, hx, hf⟩
  · rintro ⟨a, w₁, hx, hf⟩
    exact ⟨(a, w₁), hx, hf⟩

/-- The result of an evaluation that must not wait. -/
def ofEval (x : Eval α) : Host (Except Exc α) := fun w =>
  match x w with
  | .done r w => some (r.mapError Exc.ofRaised, w)
  | .wait _ w _ =>
    some (.error (.ofRaised (Problem.suspendedOutside.raised w.identities)),
      { w with identities := w.identities + 1 })
  | .halt _ => none

/-- An operation that cannot fail but by having no end. -/
def ofOption (x : World → Option α) : Host α := fun w => (x w).map (·, w)

/-- The form that shows a value. -/
def showValue (v : Value) : Host (List Char) := ofOption (·.show? v)

/-- The form of a value for reading. -/
def readValue (v : Value) : Host (List Char) := ofOption (·.read? v)

/-- The message of an exception. -/
def message (e : Exc) : Host (List Char) := ofOption (·.message? e.toRaised)

/-- Collects the text written. -/
def takeOutput : Host (List Char) := fun w => some w.takeOutput

/-- A new namespace. -/
def newSpace (b : Bindings Value) : Host Ref := fun w => some (w.newSpace b)

/-- The bindings of a namespace. -/
def space (r : Ref) : Host (Bindings Value) := do return (← get).space r

/-- Changes a namespace. -/
def setSpace (r : Ref) (b : Bindings Value) : Host Unit := modify (·.setSpace r b)

/-- **Lets another interpreter** do something. What it writes is lost, and its tasks count from one
again. -/
def aside (x : Host α) : Host α := do
  let before ← get
  set before.freshInterpreter
  let a ← x
  modify fun w => { w with written := before.written, created := before.created }
  return a

end Host

/-- The exception of a source that does not compile. -/
def CompileError.toExc (identity : Nat) (e : CompileError) : Exc :=
  ⟨⟨e.kind, [.str identity e.message.toList]⟩, some e.place⟩

/-- A namespace as text: its names between quotes with the forms of their values between quotes. -/
def describeSpace (b : Bindings Value) : Host (List Char) := do
  let entries ← b.entries.mapM fun (name, v) => do
    let shown ← Host.showValue v
    return (Text.quoted name.toList ++ ": " ++ Text.quoted shown).toList
  return '\x7b' :: (commas entries ++ ['\x7d'])

/-- Compiles a source. -/
def compileSource (source : List Char) (filename : String) (mode : Mode) (topLevelAwait : Bool) :
    Host (Except Exc Code) := fun w =>
  match compile source filename mode topLevelAwait with
  | .ok code => some (.ok code, w)
  | .error e => some (.error (e.toExc w.identities), { w with identities := w.identities + 1 })

/-- **Evaluates compiled code** in a namespace. Code that awaits gives a coroutine. -/
def evaluate (code : Code) (globals : Ref) : Host Outcome :=
  if code.isCoroutine then
    Host.ofEval (Eval.ofOp (Op.newCoroutine "<module>" (.source code globals)))
  else Host.ofEval (runModule plainly horizon code globals)

/-- Compiles and evaluates an expression; blanks around it do not count. -/
def evaluateText (source : List Char) (filename : String) (globals : Ref) : Host Outcome := do
  match ← compileSource (Text.trim source) filename .eval false with
  | .ok code => evaluate code globals
  | .error e => return .error e

/-! ### Event loops -/

/-- **An open event loop** with the tasks that wait on it. -/
structure OpenLoop where
  /-- The loop. -/
  ref : Ref
  /-- Its tasks that wait. -/
  threads : Threads

namespace OpenLoop

/-- Opens an event loop. -/
def new : Host OpenLoop := fun w =>
  let (l, w) := w.newLoop
  some (⟨l, []⟩, w)

/-- Drives a value that can be awaited to its end. -/
def complete (l : OpenLoop) (v : Value) : Host (Outcome × OpenLoop) := fun w => do
  let (o, threads, w) ←
    (driveOn (runCoroutine plainly horizon) l.ref horizon (awaitValue plainly horizon v) l.threads
      w).toOption
  return ((o.mapError Exc.ofRaised, ⟨l.ref, threads⟩), w)

/-- Closes an event loop. -/
def close (l : OpenLoop) : Host Unit := fun w => do
  let w ← (closeLoop (runCoroutine plainly horizon) l.ref horizon l.threads w).toOption
  return ((), w)

end OpenLoop

/-! ## Reports of exceptions

An exception is reported by its kind and message. One that points at a source is reported with the
line it points at and a caret below the place.
-/

/-- The lines that show a place of a source. -/
def placeLines (p : SourcePlace) : List (List Char) :=
  let head := s!"  File \"{p.filename}\", line {p.line}\n".toList
  let text := Text.trimEnd p.text
  let stripped := Text.trimStart text
  if stripped.isEmpty then [head]
  else
    let caret := p.column - 1 - (text.length - stripped.length)
    let margin := "    ".toList
    [head, margin ++ stripped ++ ['\n'], margin ++ List.replicate caret ' ' ++ ['^', '\n']]

/-- The line with the kind and the message of an exception. -/
def kindLine (kind : ExceptionKind) (message : List Char) : List Char :=
  if message.isEmpty then kind.qualifiedName.toList ++ ['\n']
  else kind.qualifiedName.toList ++ [':', ' '] ++ message ++ ['\n']

/-- **The lines that report an exception.** -/
def Exc.reportLines (e : Exc) : Host (List (List Char)) := do
  let message ← Host.message e
  return (e.place.map placeLines).getD [] ++ [kindLine e.kind message]

/-- The heading of a report with the place of the program. -/
def tracebackHeading : List Char := "Traceback (most recent call last):\n".toList

/-- **The report of an exception** that a program has not handled. -/
def Exc.traceback (e : Exc) (filename : String) : Host (List Char) := do
  let place := if e.place.isNone then s!"  File \"{filename}\", line 1, in <module>\n" else ""
  return tracebackHeading ++ place.toList ++ (← e.reportLines).flatten

/-- An exception in one line: its kind, and its message if it has one. -/
def Exc.describe (e : Exc) : Host (List Char) := do
  let message ← Host.message e
  let kind := e.kind.name.toList
  return if message.isEmpty then kind else kind ++ [':', ' '] ++ message

end Transcript.Lang
