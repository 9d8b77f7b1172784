import Transcript.Lang.Value

/-!
# The world of a program

All mutable state: the stores that references point into, the text written so far, the event loops
and their tasks, and a clock. Nothing is ever taken out of a store, so a reference keeps its
meaning.

Results:
* `space_setSpace_self`, `space_setSpace_of_ne`: writing one namespace changes no other.
-/

namespace Transcript.Lang

/-- **The state of all programs that run side by side.** -/
structure World where
  /-- The contents of lists. -/
  lists : Array (List Value)
  /-- The entries of dictionaries, in the order of their first insertion. -/
  dicts : Array (List (Value × Value))
  /-- Functions. -/
  functions : Array Function
  /-- Coroutines. -/
  coroutines : Array Coroutine
  /-- Namespaces. -/
  spaces : Array (Bindings Value)
  /-- Tasks. -/
  tasks : Array Task
  /-- Event loops. -/
  loops : Array EventLoop
  /-- The event loop that is being driven. -/
  running : Option Ref
  /-- Who is being run by it. -/
  current : Waker
  /-- The next identity that is not in use. -/
  identities : Nat
  /-- The text written since it was last collected, its last part first. -/
  written : List (List Char)
  /-- The number of tasks created by the current interpreter. -/
  created : Nat
  /-- The time, in nanoseconds. -/
  now : Nat

namespace World

/-- The world before anything has happened. -/
def empty : World where
  lists := #[]
  dicts := #[]
  functions := #[]
  coroutines := #[]
  spaces := #[]
  tasks := #[]
  loops := #[]
  running := none
  current := .root
  identities := 0
  written := []
  created := 0
  now := 0

instance : Inhabited World := ⟨empty⟩

/-- The items of a list. -/
def list (w : World) (r : Ref) : List Value := (w.lists[r]?).getD []

/-- The entries of a dictionary. -/
def dict (w : World) (r : Ref) : List (Value × Value) := (w.dicts[r]?).getD []

/-- The bindings of a namespace. -/
def space (w : World) (r : Ref) : Bindings Value := (w.spaces[r]?).getD .empty

/-- A task. -/
def task (w : World) (r : Ref) : Task := (w.tasks[r]?).getD default

/-- An event loop. -/
def loop (w : World) (r : Ref) : EventLoop := (w.loops[r]?).getD default

/-- Changes the items of a list. -/
def setList (w : World) (r : Ref) (items : List Value) : World :=
  { w with lists := w.lists.setIfInBounds r items }

/-- Changes the entries of a dictionary. -/
def setDict (w : World) (r : Ref) (entries : List (Value × Value)) : World :=
  { w with dicts := w.dicts.setIfInBounds r entries }

/-- Changes the bindings of a namespace. -/
def setSpace (w : World) (r : Ref) (b : Bindings Value) : World :=
  { w with spaces := w.spaces.setIfInBounds r b }

/-- Changes a task. -/
def setTask (w : World) (r : Ref) (t : Task) : World :=
  { w with tasks := w.tasks.setIfInBounds r t }

/-- Changes an event loop. -/
def setLoop (w : World) (r : Ref) (l : EventLoop) : World :=
  { w with loops := w.loops.setIfInBounds r l }

/-- A new namespace. -/
def newSpace (w : World) (b : Bindings Value) : Ref × World :=
  (w.spaces.size, { w with spaces := w.spaces.push b })

/-- A new event loop. -/
def newLoop (w : World) : Ref × World :=
  (w.loops.size, { w with loops := w.loops.push default })

/-- Writes text. -/
def write (w : World) (text : List Char) : World := { w with written := text :: w.written }

/-- The text written since it was last collected. -/
def output (w : World) : List Char := w.written.reverse.flatten

/-- Collects the text written. -/
def takeOutput (w : World) : List Char × World := (w.output, { w with written := [] })

/-- A world for an interpreter that has not run yet. -/
def freshInterpreter (w : World) : World := { w with written := [], created := 0 }

/-- How deep values can be nested in this world if no value contains itself. -/
def nesting (w : World) : Nat :=
  w.lists.foldl (fun n items => n + 1 + Value.depths items) 0 +
    w.dicts.foldl (fun n entries =>
      n + 1 + entries.foldl (fun m (k, v) => max m (max k.depth v.depth)) 0) 0

theorem space_setSpace_self (w : World) (r : Ref) (b : Bindings Value) (h : r < w.spaces.size) :
    (w.setSpace r b).space r = b := by
  simp [space, setSpace, h]

theorem space_setSpace_of_ne (w : World) {r s : Ref} (b : Bindings Value) (h : r ≠ s) :
    (w.setSpace r b).space s = w.space s := by
  simp [space, setSpace, h]

end World

end Transcript.Lang
