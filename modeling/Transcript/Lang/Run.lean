import Transcript.Lang.Container

/-!
# Computations that can be suspended

A run goes on until it has a result, until it has to wait, or without end, if it is not stopped. A
run that waits is continued from the outside, with the world as it is then. On top of runs there are evaluations,
which may raise, and executions, which also read and change a frame and may leave a block.

Results:
* `Step.bind_assoc`, `Step.bind_pure`: runs compose like programs.
* `Eval.ofOp_ok`, `Eval.ofOp_error`, `Eval.ofOp_endless`: what becomes of the outcome of an operation.
-/

namespace Transcript.Lang

/-- **What a suspended computation waits for.** -/
inductive Wait
  /-- Its next turn. -/
  | turn
  /-- A time. -/
  | time (t : Nat)
  /-- The outcome of a task. -/
  | task (ref : Ref)
  deriving DecidableEq, Repr

/-- Whether the wait is over. -/
def Wait.isOver (w : World) : Wait → Bool
  | .turn => true
  | .time t => t ≤ w.now
  | .task r => (w.task r).outcome.isSome

/-- **Why a computation goes no further.** -/
inductive Halt
  /-- It has no end. -/
  | endless
  /-- A hook that watches it has stopped it. -/
  | stopped
  deriving DecidableEq, Repr

/-- **How far a computation has come.** -/
inductive Step (α : Type)
  /-- It has a result. -/
  | done (a : α) (w : World)
  /-- It waits. -/
  | wait (what : Wait) (w : World) (resume : World → Step α)
  /-- It goes no further. -/
  | halt (why : Halt)

namespace Step

variable {α β γ : Type}

/-- Goes on with a result. -/
def bind : Step α → (α → World → Step β) → Step β
  | done a w, f => f a w
  | wait what w resume, f => wait what w fun w' => (resume w').bind f
  | halt why, _ => halt why

theorem bind_pure (s : Step α) : s.bind done = s := by
  induction s with
  | done a w => rfl
  | wait what w resume ih => simp [bind, ih]
  | halt why => rfl

theorem bind_assoc (s : Step α) (f : α → World → Step β) (g : β → World → Step γ) :
    (s.bind f).bind g = s.bind fun a w => (f a w).bind g := by
  induction s with
  | done a w => rfl
  | wait what w resume ih => simp [bind, ih]
  | halt why => rfl

end Step

/-- **A computation.** -/
def Run (α : Type) : Type := World → Step α

namespace Run

variable {α : Type}

instance : Monad Run where
  pure a := fun w => .done a w
  bind x f := fun w => (x w).bind f

instance : LawfulMonad Run :=
  LawfulMonad.mk' Run (fun x => funext fun w => (x w).bind_pure) (fun _ _ => rfl)
    (fun x f g => funext fun w => (x w).bind_assoc f g)

/-- A computation that goes no further. -/
def halt (why : Halt) : Run α := fun _ => .halt why

/-- The world. -/
def world : Run World := fun w => .done w w

/-- Changes the world. -/
def modify (f : World → World) : Run Unit := fun w => .done () (f w)

/-- Waits. -/
def wait (what : Wait) : Run Unit := fun w => .wait what w fun w' => .done () w'

end Run

/-- **A computation that may raise.** -/
abbrev Eval := ExceptT Raised Run

namespace Eval

variable {α : Type}

/-- A computation that never raises. -/
def ofRun (x : Run α) : Eval α := ExceptT.lift x

/-- A computation that has no end. -/
def endless : Eval α := ExceptT.mk (Run.halt .endless)

/-- A computation that is stopped. Nothing in a program does that. -/
def stop : Eval α := ExceptT.mk (Run.halt .stopped)

/-- An operation; its problem is raised. -/
def ofOp (x : Op α) : Eval α := ExceptT.mk fun w =>
  match x w with
  | .ok (a, w') => .done (.ok a) w'
  | .error .endless => .halt .endless
  | .error p =>
    .done (.error (p.raised w.identities)) { w with identities := w.identities + 1 }

/-- Raises a problem. -/
def fail (p : Problem) : Eval α := ofOp (Op.fail p)

/-- The world. -/
def world : Eval World := ofRun Run.world

/-- Changes the world. -/
def modify (f : World → World) : Eval Unit := ofRun (Run.modify f)

/-- What has been computed or raised before. -/
def ofEnding (x : Except Raised α) : Eval α := ExceptT.mk (pure x)

theorem ofOp_ok {x : Op α} {w w' : World} {a : α} (hx : x w = .ok (a, w')) :
    (ofOp x).run w = .done (.ok a) w' := by
  unfold ofOp
  dsimp only [ExceptT.run, ExceptT.mk]
  rw [hx]

theorem ofOp_error {x : Op α} {w : World} {p : Problem} (hx : x w = .error p) (hp : p ≠ .endless) :
    (ofOp x).run w = .done (.error (p.raised w.identities)) { w with identities := w.identities + 1 } := by
  unfold ofOp
  dsimp only [ExceptT.run, ExceptT.mk]
  rw [hx]
  cases p with
  | endless => exact absurd rfl hp
  | _ => rfl

theorem ofOp_endless {x : Op α} {w : World} (hx : x w = .error .endless) :
    (ofOp x).run w = .halt .endless := by
  unfold ofOp
  dsimp only [ExceptT.run, ExceptT.mk]
  rw [hx]

/-- An evaluation goes on with the result of the one before. -/
theorem bind_of_ok {β : Type} {x : Eval α} {f : α → Eval β} {w w' : World} {a : α}
    (hx : x.run w = .done (.ok a) w') : (x >>= f).run w = (f a).run w' := by
  change (x.run w).bind _ = _
  rw [hx]
  rfl

/-- An exception ends what comes after as well. -/
theorem bind_of_error {β : Type} {x : Eval α} {f : α → Eval β} {w w' : World} {e : Raised}
    (hx : x.run w = .done (.error e) w') : (x >>= f).run w = .done (.error e) w' := by
  change (x.run w).bind _ = _
  rw [hx]
  rfl

end Eval

/-- **Where statements run**: at the top level of a module or in a function body. -/
structure Frame where
  /-- The namespace of the module. -/
  globals : Ref
  /-- The names of a function body. -/
  locals : Option (Bindings Value)
  /-- The names of a function body that mean those of the module. -/
  declared : List String
  /-- Whether the values of expressions are shown. -/
  echo : Bool
  /-- The exception that is being handled. -/
  handling : Option Raised
  /-- Whether they belong to something that is awaited itself: an async function, or a source that
  awaits at its top level. -/
  mayAwait : Bool
  deriving Inhabited

/-- The frame of a module. -/
def Frame.ofModule (globals : Ref) (echo mayAwait : Bool) : Frame :=
  ⟨globals, none, [], echo, none, mayAwait⟩

/-- The frame of a function body. -/
def Frame.ofFunction (globals : Ref) (locals : Bindings Value) (mayAwait : Bool) : Frame :=
  ⟨globals, some locals, [], false, none, mayAwait⟩

/-- **Why a block ends before its end.** -/
inductive Signal
  | raised (e : Raised)
  | exit (v : Value)
  | leave
  | next

/-- **A computation in a frame** that may leave a block. Changes of the frame stay when it does. -/
abbrev Exec := ExceptT Signal (StateT Frame Run)

namespace Exec

variable {α : Type}

/-- An evaluation in the current frame. -/
def ofEval (f : Frame → Eval α) : Exec α := ExceptT.mk fun frame =>
  (fun r => (r.mapError Signal.raised, frame)) <$> (f frame).run

/-- An operation; its problem is raised. -/
def ofOp (x : Op α) : Exec α := ofEval fun _ => Eval.ofOp x

/-- Raises an exception. -/
def raise (e : Raised) : Exec α := throw (.raised e)

/-- Raises a problem. -/
def fail (p : Problem) : Exec α := ofOp (Op.fail p)

/-- A computation without end. -/
def endless : Exec α := ofEval fun _ => Eval.endless

/-- How a computation ends, which is no reason to end this one. -/
def attempt (x : Exec α) : Exec (Except Signal α) := ExceptT.mk fun frame =>
  (fun p => (.ok p.1, p.2)) <$> x.run frame

theorem ofEval_ok {x : Frame → Eval α} {f : Frame} {w w' : World} {a : α}
    (hx : (x f).run w = .done (.ok a) w') : (ofEval x).run.run f w = .done (.ok a, f) w' := by
  change ((x f).run w).bind _ = _
  rw [hx]
  rfl

theorem ofEval_error {x : Frame → Eval α} {f : Frame} {w w' : World} {e : Raised}
    (hx : (x f).run w = .done (.error e) w') :
    (ofEval x).run.run f w = .done (.error (.raised e), f) w' := by
  change ((x f).run w).bind _ = _
  rw [hx]
  rfl

theorem ofOp_ok {x : Op α} {f : Frame} {w w' : World} {a : α} (hx : x w = .ok (a, w')) :
    (ofOp x).run.run f w = .done (.ok a, f) w' :=
  ofEval_ok (Eval.ofOp_ok hx)

theorem ofOp_error {x : Op α} {f : Frame} {w : World} {p : Problem} (hx : x w = .error p) (hp : p ≠ .endless) :
    (ofOp x).run.run f w =
      .done (.error (.raised (p.raised w.identities)), f) { w with identities := w.identities + 1 } :=
  ofEval_error (Eval.ofOp_error hx hp)

/-- A computation goes on with the result of the one before, in the frame that it leaves. -/
theorem bind_of_ok {β : Type} {x : Exec α} {g : α → Exec β} {f f' : Frame} {w w' : World} {a : α}
    (hx : x.run.run f w = .done (.ok a, f') w') : (x >>= g).run.run f w = (g a).run.run f' w' := by
  change (x.run.run f w).bind _ = _
  rw [hx]
  rfl

/-- A signal ends what comes after as well. -/
theorem bind_of_error {β : Type} {x : Exec α} {g : α → Exec β} {f f' : Frame} {w w' : World} {s : Signal}
    (hx : x.run.run f w = .done (.error s, f') w') :
    (x >>= g).run.run f w = .done (.error s, f') w' := by
  change (x.run.run f w).bind _ = _
  rw [hx]
  rfl

end Exec

/-! ### Names -/

namespace Frame

/-- Whether a name means one of the function body. -/
def isLocal (f : Frame) (name : String) : Bool := f.locals.isSome && !f.declared.contains name

/-- What every namespace sees. The kind of exception for cancelled tasks belongs to the module for
concurrency. -/
def builtin? (name : String) : Option Value :=
  match Builtin.globals.find? (·.name == name) with
  | some b => some (.builtin b)
  | none => ((ExceptionKind.ofName? name).filter (· ≠ .cancelledError)).map .exceptionType

/-- The value of a name: from the function body, the module, or what every namespace sees. -/
def lookup (f : Frame) (name : String) : Op Value := do
  let w ← get
  let own := if f.isLocal name then f.locals.bind (·.get? name) else none
  match own.or (((w.space f.globals).get? name).or (builtin? name)) with
  | some v => return v
  | none => Op.fail (.undefinedName name)

end Frame

/-- Binds a name. -/
def bindName (name : String) (v : Value) : Exec Unit := do
  let f ← getThe Frame
  match f.locals, f.isLocal name with
  | some locals, true => set { f with locals := some (locals.insert name v) }
  | _, _ => Exec.ofOp (modify fun w => w.setSpace f.globals ((w.space f.globals).insert name v))

/-- Takes a name away. -/
def unbindName (name : String) : Exec Unit := do
  let f ← getThe Frame
  match f.locals, f.isLocal name with
  | some locals, true =>
    if locals.contains name then set { f with locals := some (locals.erase name) }
    else Exec.fail (.undefinedName name)
  | _, _ =>
    Exec.ofOp do
      let b := (← get).space f.globals
      if b.contains name then modify (·.setSpace f.globals (b.erase name))
      else Op.fail (.undefinedName name)

end Transcript.Lang
