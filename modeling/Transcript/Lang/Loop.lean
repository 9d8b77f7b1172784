import Transcript.Lang.Task

/-!
# Event loops

An event loop drives one computation, its root, and runs tasks beside it. In each round the root
goes on if it was woken, and the tasks in the queue run after it. Then the loop rests: timers go
off, and whoever has yielded is woken.

Tasks that wait are kept as threads beside the world. How the coroutine of a task is started is a
parameter.

Results:
* `runTask_of_cancelled`: a cancelled task ends without running.
-/

namespace Transcript.Lang

/-- A computation that waits. -/
structure Suspended (α : Type) where
  /-- What it waits for. -/
  what : Wait
  /-- How it goes on. -/
  resume : World → Step α

/-- A computation that has not begun. -/
def Suspended.ofRun {α : Type} (x : Run α) : Suspended α := ⟨.turn, x⟩

/-- Lets a computation go on, if its wait is over. -/
def Suspended.poll {α : Type} (s : Suspended α) (w : World) : Step α :=
  if s.what.isOver w then s.resume w else .wait s.what w s.resume

/-! ### Side by side -/

/-- A computation that is run beside others by the same owner: finished or waiting. -/
inductive Member
  | finished (o : Ending)
  | waiting (s : Suspended Ending)

namespace Member

/-- The outcome of a finished member. -/
def outcome? : Member → Option Ending
  | .finished o => some o
  | .waiting _ => none

/-- Lets members go on, the first one first. -/
def pollAll : List Member → World → Except Halt (List Member × World)
  | [], w => .ok ([], w)
  | .finished o :: ms, w => do
    let (ms, w) ← pollAll ms w
    return (.finished o :: ms, w)
  | .waiting s :: ms, w => do
    let (m, w) ←
      match s.poll w with
      | .done o w => .ok (Member.finished o, w)
      | .wait what w resume => .ok (.waiting ⟨what, resume⟩, w)
      | .halt why => .error why
    let (ms, w) ← pollAll ms w
    return (m :: ms, w)

/-- **Runs computations side by side** until all have finished, with at most so many turns. In each turn
everyone whose wait is over goes on, in the order in which they were given. Of more than thirty, a machine asks only
those that have been woken, in the order in which they were: what they do then may come in another order than here,
but not how each of them ends, nor when all have. -/
def together : Nat → List Member → Run (List Ending)
  | 0, _ => Run.halt .endless
  | turns + 1, ms => fun w =>
    match pollAll ms w with
    | .error why => .halt why
    | .ok (ms, w) =>
      match ms.mapM outcome? with
      | some os => .done os w
      | none => .wait .turn w (together turns ms)

end Member

/-! ### Driving a loop -/

/-- The tasks that wait. -/
abbrev Threads := List (Ref × Suspended Ending)

/-- Runs a task until it ends or waits. A cancelled task ends without running. -/
def runTask (start : Ref → Run Ending) (r : Ref) (threads : Threads) (w : World) :
    Except Halt (Threads × World) :=
  let others := threads.filter (·.1 != r)
  let w := { w with current := .task r }
  if (w.task r).cancelled then .ok (others, w.finishTask r cancelledEnding)
  else
    let step :=
      match threads.lookup r with
      | some s => s.poll w
      | none => start (w.task r).coroutine w
    match step with
    | .done o w => .ok (others, w.finishTask r o)
    | .wait what w resume =>
      if (w.task r).cancelled then .ok (others, w.finishTask r cancelledEnding)
      else .ok ((r, ⟨what, resume⟩) :: others, w)
    | .halt why => .error why

/-- Runs tasks from the queue of a loop, at most so many. -/
def runQueue (start : Ref → Run Ending) (l : Ref) :
    Nat → Threads → World → Except Halt (Threads × World)
  | 0, threads, w => .ok (threads, w)
  | n + 1, threads, w =>
    match (w.loop l).queue with
    | [] => .ok (threads, w)
    | r :: queue => do
      let w := w.setLoop l { w.loop l with queue }
      let (threads, w) ← runTask start r threads w
      runQueue start l n threads w

/-- The number of tasks that run before the root has a turn again. -/
def tasksPerRound : Nat := 61

/-- Lets the timers go off that are due. -/
def fireTimers (l : Ref) (w : World) : World :=
  let due := (w.loop l).timers.takeWhile fun (t, _) => t ≤ w.now
  let later := (w.loop l).timers.dropWhile fun (t, _) => t ≤ w.now
  due.foldl (fun w (_, who) => w.wake l who) (w.setLoop l { w.loop l with timers := later })

/-- Wakes whoever has yielded, the most recent first. -/
def wakeYielded (l : Ref) (w : World) : World :=
  let yielded := (w.loop l).yielded
  yielded.foldl (fun w who => w.wake l who) (w.setLoop l { w.loop l with yielded := [] })

/-- **Lets a loop rest.** If nobody has yielded and the root is not woken, time passes until the
first timer; without timers there is nothing to wait for, and no end. -/
def rest (l : Ref) (w : World) : Except Halt World :=
  if (w.loop l).rootWoken || !(w.loop l).yielded.isEmpty then .ok (wakeYielded l (fireTimers l w))
  else
    match (w.loop l).timers with
    | [] => .error .endless
    | (t, _) :: _ => .ok (fireTimers l { w with now := max w.now t })

/-- **Drives a computation** on a loop until it has a result, in at most so many rounds. -/
def drive {α : Type} (start : Ref → Run Ending) (l : Ref) :
    Nat → Suspended α → Threads → World → Except Halt (α × Threads × World)
  | 0, _, _, _ => .error .endless
  | rounds + 1, root, threads, w =>
    if (w.loop l).rootWoken then
      let w := w.setLoop l { w.loop l with rootWoken := false }
      match root.poll { w with current := .root } with
      | .halt why => .error why
      | .done a w => .ok (a, threads, w)
      | .wait what w resume => do
        let (threads, w) ← runQueue start l tasksPerRound threads w
        let w := if (w.loop l).queue.isEmpty then w else w.wakeRoot l
        drive start l rounds ⟨what, resume⟩ threads (← rest l w)
    else do drive start l rounds root threads (← rest l w)

/-- Drives a computation on a loop that is the running one meanwhile. -/
def driveOn {α : Type} (start : Ref → Run Ending) (l : Ref) (rounds : Nat) (root : Run α)
    (threads : Threads) (w : World) : Except Halt (α × Threads × World) := do
  let previous := w.running
  let (a, threads, w) ←
    drive start l rounds (.ofRun root) threads ({ w with running := some l }.wakeRoot l)
  return (a, threads, { w with running := previous })

/-! ### Closing a loop -/

/-- Waits for the outcomes of tasks. -/
def settle : List Ref → Run Unit
  | [] => pure ()
  | r :: rs => do
    if ((← Run.world).task r).outcome.isNone then
      Run.modify (·.awaitedBy r)
      Run.wait (.task r)
    settle rs

/-- **Closes a loop.** The tasks that nobody has awaited are cancelled, and the loop is driven until
they have ended. -/
def closeLoop (start : Ref → Run Ending) (l : Ref) (rounds : Nat) (threads : Threads) (w : World) :
    Except Halt World := do
  let held := (w.loop l).tasks.filter fun r => (w.task r).hasHandle
  let unfinished := held.filter fun r => (w.task r).outcome.isNone
  let w := held.foldl (fun w r => w.setTask r { w.task r with hasHandle := false }) w
  if unfinished.isEmpty then return w
  else
    let w := unfinished.foldl World.cancelTask w
    let (_, _, w) ← driveOn start l rounds (settle unfinished) threads w
    return w

/-- Drives a coroutine on a loop of its own. -/
def runOnNewLoop (start : Ref → Run Ending) (rounds : Nat) (coroutine : Ref) : Run Ending :=
  fun w =>
    let (l, w) := w.newLoop
    let finished := do
      let (o, threads, w) ← driveOn start l rounds (start coroutine) [] w
      return (o, ← closeLoop start l rounds threads w)
    match finished with
    | .ok (o, w) => .done o w
    | .error why => .halt why

theorem runTask_of_cancelled (start : Ref → Run Ending) (r : Ref) (threads : Threads) (w : World)
    (h : (w.task r).cancelled = true) :
    runTask start r threads w =
      .ok (threads.filter (·.1 != r),
        { w with current := .task r }.finishTask r cancelledEnding) := by
  have h' : ({ w with current := .task r } : World).task r = w.task r := rfl
  simp [runTask, h', h]

end Transcript.Lang
