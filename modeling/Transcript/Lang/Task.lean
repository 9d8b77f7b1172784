import Transcript.Lang.Run

/-!
# Tasks

What happens to tasks on an event loop: they are created, woken, cancelled, finished and awaited.
A task stands in the queue of its loop at most once: waking it again, or when it has ended, changes
nothing. The right to await a task is taken by the first who awaits it; only the outcome that this one
receives is kept for others.
-/

namespace Transcript.Lang

namespace World

/-- Wakes the computation that a loop drives. -/
def wakeRoot (w : World) (l : Ref) : World := w.setLoop l { w.loop l with rootWoken := true }

/-- Wakes a task: it is put at the end of the queue of its loop. -/
def wakeTask (w : World) (r : Ref) : World :=
  let t := w.task r
  let l := w.loop t.loop
  if t.outcome.isSome || l.queue.contains r then w
  else w.setLoop t.loop { l with queue := l.queue ++ [r], rootWoken := true }

/-- Wakes someone on a loop. -/
def wake (w : World) (l : Ref) : Waker → World
  | .root => w.wakeRoot l
  | .task r => w.wakeTask r

/-- Creates a task for a coroutine. -/
def spawn (w : World) (l : Ref) (coroutine : Ref) (name : String) : Ref × World :=
  let r := w.tasks.size
  let t : Task := ⟨name, l, coroutine, true, none, none, none, false⟩
  let el := w.loop l
  let w := { w with tasks := w.tasks.push t, created := w.created + 1 }
  (r, (w.setLoop l { el with tasks := el.tasks ++ [r] }).wakeTask r)

/-- Whether a task is being run at this moment. -/
def isRunning (w : World) (r : Ref) : Bool := w.running.isSome && w.current == .task r

/-- Cancels a task. It ends when it runs next, or at its next wait if it is running. -/
def cancelTask (w : World) (r : Ref) : World :=
  let w := w.setTask r { w.task r with cancelled := true }
  if w.isRunning r then w else w.wakeTask r

/-- Ends a task; whoever awaits it is woken. -/
def finishTask (w : World) (r : Ref) (o : Ending) : World :=
  let t := w.task r
  let w := w.setTask r { t with outcome := some o, waiter := none }
  match t.waiter with
  | some who => w.wake t.loop who
  | none => w

/-- Notes who waits for a task; outside of event loops nobody is woken. -/
def awaitedBy (w : World) (r : Ref) : World :=
  match w.running with
  | some _ => w.setTask r { w.task r with waiter := some w.current }
  | none => w

/-- Notes that the current computation yields. -/
def yields (w : World) : World :=
  match w.running with
  | some l => w.setLoop l { w.loop l with yielded := w.current :: (w.loop l).yielded }
  | none => w

/-- Puts a timer behind those that are not later. -/
def addTimer (t : Nat) (who : Waker) : List (Nat × Waker) → List (Nat × Waker)
  | [] => [(t, who)]
  | (t', who') :: rest =>
    if t < t' then (t, who) :: (t', who') :: rest else (t', who') :: addTimer t who rest

/-- Notes that the current computation sleeps until a time. -/
def sleeps (w : World) (t : Nat) : World :=
  match w.running with
  | some l => w.setLoop l { w.loop l with timers := addTimer t w.current (w.loop l).timers }
  | none => w

/-- The number of tasks of a loop that do not count as done. -/
def pending (w : World) (l : Ref) : Nat :=
  ((w.loop l).tasks.filter fun r => !(w.task r).isDone).length

end World

/-- How a cancelled task ends. -/
def cancelledEnding : Ending := .error (Problem.cancelled.raised 0)

/-- **Awaits a task.** The outcome is kept once it has been received. -/
def awaitTask (r : Ref) : Eval Value := do
  let t := (← Eval.world).task r
  match t.result with
  | some o => Eval.ofEnding o
  | none =>
    if !t.hasHandle then Eval.fail .handleTaken
    else
      Eval.modify fun w => w.setTask r { t with hasHandle := false }
      if t.outcome.isNone then
        Eval.modify (·.awaitedBy r)
        Eval.ofRun (Run.wait (.task r))
      let t := (← Eval.world).task r
      let o := t.outcome.getD cancelledEnding
      Eval.modify fun w => w.setTask r { t with result := some o }
      Eval.ofEnding o

/-- The nanoseconds of a second. -/
def perSecond : Nat := 1000000000

/-- The least time, in nanoseconds, that is not before a number of seconds, as far as 64 bits of
seconds go. -/
def nanoseconds (seconds : Float) : Nat :=
  if seconds.isInf then 0x10000000000000000 * perSecond
  else
    let (_, m, s) := floatParts seconds
    let (num, den) := Decimal.binaryRatio m s
    min (0x10000000000000000 * perSecond) (Decimal.roundHalfEven (num * perSecond) den)

/-- **Sleeps** for a number of seconds; without any, the computation only yields. -/
def sleep (delay : Float) (result : Value) : Eval Value := do
  let w ← Eval.world
  if w.running.isNone then Eval.fail .noRunningLoop
  else if delay.isNaN then Eval.fail .notANumber
  else if 0.0 < delay then
    let t := w.now + nanoseconds delay
    Eval.modify (·.sleeps t)
    Eval.ofRun (Run.wait (.time t))
    return result
  else
    Eval.modify World.yields
    Eval.ofRun (Run.wait .turn)
    return result

end Transcript.Lang
