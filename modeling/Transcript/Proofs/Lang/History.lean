import Transcript.Lang.Loop
import Mathlib.Logic.Relation

/-!
# Histories of tasks

A world tells of a task what its fields tell. What has really happened to it is told by a history: the
sequence of what programs, event loops and the host have done to tasks, one thing at a time and in any
order that the turns allow. A ledger keeps the part of a history that is about tasks: which were
created, who has taken the right to await them, how their coroutines have ended, and who has received
that.

Results:
* `Act.size_le`: loops are opened, but none is taken away.
-/

namespace Transcript.Lang

/-! ## What happens -/

/-- **What has happened to tasks.** -/
structure Ledger where
  /-- The tasks that have been created, the first one first, with the loops that run them. -/
  created : List (Ref × Ref)
  /-- The tasks for which someone has taken the right to await them. -/
  claimed : List Ref
  /-- The tasks whose coroutines have returned, raised or been cancelled, with how they have. -/
  ended : List (Ref × Ending)
  /-- The tasks whose outcomes have been received by who awaited them. -/
  received : List (Ref × Ending)

namespace Ledger

/-- Nothing has happened. -/
def empty : Ledger := ⟨[], [], [], []⟩

/-- A task is created on a loop. -/
def create (g : Ledger) (r l : Ref) : Ledger := { g with created := g.created ++ [(r, l)] }

/-- The right to await a task is taken. -/
def claim (g : Ledger) (r : Ref) : Ledger := { g with claimed := r :: g.claimed }

/-- The coroutine of a task ends. -/
def finish (g : Ledger) (r : Ref) (o : Ending) : Ledger := { g with ended := (r, o) :: g.ended }

/-- The outcome of a task is received. -/
def receive (g : Ledger) (r : Ref) (o : Ending) : Ledger :=
  { g with received := (r, o) :: g.received }

/-- The tasks created on a loop. -/
def onLoop (g : Ledger) (l : Ref) : List Ref := (g.created.filter (·.2 == l)).map Prod.fst

/-- Whether the coroutine of a task has returned, raised or been cancelled. -/
def hasEnded (g : Ledger) (r : Ref) : Bool := g.ended.any (·.1 == r)

theorem hasEnded_iff {g : Ledger} {r : Ref} : g.hasEnded r = true ↔ ∃ o, (r, o) ∈ g.ended := by
  simp [hasEnded]

end Ledger

/-- **Whose turn it is.** -/
inductive Turn
  /-- That of a program or the host: outside of event loops, or on one as the computation that it
  drives or as a task. -/
  | program (place : Option (Ref × Waker))
  /-- That of an event loop between the turns of its computations. -/
  | loop (l : Ref)

/-- **A moment of a history.** -/
structure Moment where
  /-- Whose turn it is. -/
  turn : Turn
  /-- The world. -/
  world : World
  /-- What has happened to tasks. -/
  ledger : Ledger

/-- **One thing that a program, an event loop or the host does.** -/
inductive Act : Moment → Moment → Prop
  /-- Something that has nothing to do with tasks and loops. -/
  | other {t : Turn} {w w' : World} {g : Ledger} (htasks : w'.tasks = w.tasks)
      (hloops : w'.loops = w.loops) (hrunning : w'.running = w.running)
      (hcurrent : w'.current = w.current) : Act ⟨t, w, g⟩ ⟨t, w', g⟩
  /-- A program creates a task on the loop that runs it. -/
  | create {l coroutine : Ref} {who : Waker} {name : String} {w : World} {g : Ledger} :
      Act ⟨.program (some (l, who)), w, g⟩
        ⟨.program (some (l, who)), (w.spawn l coroutine name).2, g.create w.tasks.size l⟩
  /-- A task is cancelled. -/
  | cancel {place : Option (Ref × Waker)} {r : Ref} {w : World} {g : Ledger}
      (hr : r < w.tasks.size) : Act ⟨.program place, w, g⟩ ⟨.program place, w.cancelTask r, g⟩
  /-- Someone takes the right to await a task: to await it, or since its loop is closed. -/
  | claim {place : Option (Ref × Waker)} {r : Ref} {w : World} {g : Ledger}
      (hr : r < w.tasks.size) :
      Act ⟨.program place, w, g⟩
        ⟨.program place, w.setTask r { w.task r with hasHandle := false }, g.claim r⟩
  /-- Who awaits a task makes itself known. -/
  | awaitedBy {place : Option (Ref × Waker)} {r : Ref} {w : World} {g : Ledger} :
      Act ⟨.program place, w, g⟩ ⟨.program place, w.awaitedBy r, g⟩
  /-- Who awaits a task receives its outcome. -/
  | receive {place : Option (Ref × Waker)} {r : Ref} {o : Ending} {w : World} {g : Ledger}
      (ho : (w.task r).outcome = some o) :
      Act ⟨.program place, w, g⟩
        ⟨.program place, w.setTask r { w.task r with result := some o }, g.receive r o⟩
  /-- A computation notes that it yields. -/
  | yields {place : Option (Ref × Waker)} {w : World} {g : Ledger} :
      Act ⟨.program place, w, g⟩ ⟨.program place, w.yields, g⟩
  /-- A computation notes that it sleeps. -/
  | sleeps {place : Option (Ref × Waker)} {time : Nat} {w : World} {g : Ledger} :
      Act ⟨.program place, w, g⟩ ⟨.program place, w.sleeps time, g⟩
  /-- An event loop is opened. -/
  | newLoop {w : World} {g : Ledger} :
      Act ⟨.program none, w, g⟩ ⟨.program none, w.newLoop.2, g⟩
  /-- An event loop begins to be driven. -/
  | enter {l : Ref} {w : World} {g : Ledger} (hl : l < w.loops.size) :
      Act ⟨.program none, w, g⟩ ⟨.loop l, { w with running := some l }, g⟩
  /-- An event loop is driven no longer. -/
  | leave {l : Ref} {w : World} {g : Ledger} :
      Act ⟨.loop l, w, g⟩ ⟨.program none, { w with running := none }, g⟩
  /-- The computation that a loop drives is woken. -/
  | wakeRoot {l : Ref} {w : World} {g : Ledger} : Act ⟨.loop l, w, g⟩ ⟨.loop l, w.wakeRoot l, g⟩
  /-- The timers that are due go off. -/
  | fireTimers {l : Ref} {w : World} {g : Ledger} :
      Act ⟨.loop l, w, g⟩ ⟨.loop l, fireTimers l w, g⟩
  /-- Whoever has yielded is woken. -/
  | wakeYielded {l : Ref} {w : World} {g : Ledger} :
      Act ⟨.loop l, w, g⟩ ⟨.loop l, wakeYielded l w, g⟩
  /-- The computation that a loop drives has its turn. -/
  | turnOfRoot {l : Ref} {w : World} {g : Ledger} :
      Act ⟨.loop l, w, g⟩ ⟨.program (some (l, .root)),
        { w.setLoop l { w.loop l with rootWoken := false } with current := .root }, g⟩
  /-- The first task of the queue has its turn. -/
  | turnOfTask {l r : Ref} {queue : List Ref} {w : World} {g : Ledger}
      (hqueue : (w.loop l).queue = r :: queue) :
      Act ⟨.loop l, w, g⟩ ⟨.program (some (l, .task r)),
        { w.setLoop l { w.loop l with queue } with current := .task r }, g⟩
  /-- A computation waits, or the one that a loop drives has come to its end. -/
  | wait {l : Ref} {who : Waker} {w : World} {g : Ledger} :
      Act ⟨.program (some (l, who)), w, g⟩ ⟨.loop l, w, g⟩
  /-- The coroutine of a task returns, raises or is cancelled. -/
  | finish {l r : Ref} {o : Ending} {w : World} {g : Ledger} :
      Act ⟨.program (some (l, .task r)), w, g⟩ ⟨.loop l, w.finishTask r o, g.finish r o⟩

/-- A moment that a sequence of acts leads to from another one. -/
abbrev Leads : Moment → Moment → Prop := Relation.ReflTransGen Act

/-- **The moments that a sequence of acts leads to from the empty world.** -/
def History (m : Moment) : Prop := Leads ⟨.program none, .empty, .empty⟩ m

/-! ## Reading and changing tasks and loops -/

namespace World

theorem task_setTask_self {w : World} {r : Ref} (h : r < w.tasks.size) (t : Task) :
    (w.setTask r t).task r = t := by
  simp [task, setTask, h]

theorem task_setTask_of_ne {w : World} {r s : Ref} (h : r ≠ s) (t : Task) :
    (w.setTask r t).task s = w.task s := by
  simp [task, setTask, h]

theorem loop_setLoop_self {w : World} {l : Ref} (h : l < w.loops.size) (e : EventLoop) :
    (w.setLoop l e).loop l = e := by
  simp [loop, setLoop, h]

theorem loop_setLoop_of_ne {w : World} {l k : Ref} (h : l ≠ k) (e : EventLoop) :
    (w.setLoop l e).loop k = w.loop k := by
  simp [loop, setLoop, h]

@[simp] theorem task_setLoop (w : World) (l : Ref) (e : EventLoop) (r : Ref) :
    (w.setLoop l e).task r = w.task r := rfl

@[simp] theorem size_tasks_setTask (w : World) (r : Ref) (t : Task) :
    (w.setTask r t).tasks.size = w.tasks.size := by
  simp [setTask]

@[simp] theorem size_loops_setLoop (w : World) (l : Ref) (e : EventLoop) :
    (w.setLoop l e).loops.size = w.loops.size := by
  simp [setLoop]

theorem task_push {w : World} {r : Ref} (h : r < w.tasks.size) (t : Task) (n : Nat) :
    ({ w with tasks := w.tasks.push t, created := n } : World).task r = w.task r := by
  simp [task, Array.getElem?_push, Nat.ne_of_lt h]

theorem task_push_size (w : World) (t : Task) (n : Nat) :
    ({ w with tasks := w.tasks.push t, created := n } : World).task w.tasks.size = t := by
  simp [task]

theorem loop_newLoop {w : World} {l : Ref} (h : l < w.loops.size) : w.newLoop.2.loop l = w.loop l := by
  simp [loop, newLoop, Array.getElem?_push, Nat.ne_of_lt h]

theorem loop_newLoop_size (w : World) : w.newLoop.2.loop w.loops.size = default := by
  simp [loop, newLoop]

theorem setTask_of_size_le {w : World} {r : Ref} (h : w.tasks.size ≤ r) (t : Task) :
    w.setTask r t = w := by
  simp [setTask, Array.setIfInBounds_eq_of_size_le h]

theorem tasks_wakeTask (w : World) (r : Ref) : (w.wakeTask r).tasks = w.tasks := by
  unfold wakeTask
  dsimp only
  split <;> rfl

theorem tasks_wake (w : World) (l : Ref) (who : Waker) : (w.wake l who).tasks = w.tasks := by
  cases who with
  | root => rfl
  | task r => exact w.tasks_wakeTask r

theorem tasks_wakeAll {α : Type} (w : World) (l : Ref) (who : α → Waker) (whos : List α) :
    (whos.foldl (fun w a => w.wake l (who a)) w).tasks = w.tasks := by
  induction whos generalizing w with
  | nil => rfl
  | cons a whos ih => exact (ih _).trans (w.tasks_wake l (who a))

theorem size_tasks_finishTask (w : World) (r : Ref) (o : Ending) :
    (w.finishTask r o).tasks.size = w.tasks.size := by
  unfold finishTask
  dsimp only
  split
  · rw [tasks_wake, size_tasks_setTask]
  · exact size_tasks_setTask _ _ _

theorem size_tasks_cancelTask (w : World) (r : Ref) :
    (w.cancelTask r).tasks.size = w.tasks.size := by
  unfold cancelTask
  dsimp only
  split
  · exact size_tasks_setTask _ _ _
  · rw [tasks_wakeTask, size_tasks_setTask]

theorem task_of_size_le {w : World} {r : Ref} (h : w.tasks.size ≤ r) : w.task r = default := by
  simp [task, h]

theorem lt_size_of_outcome {w : World} {r : Ref} {o : Ending} (h : (w.task r).outcome = some o) :
    r < w.tasks.size := by
  refine Nat.lt_of_not_le fun hr => ?_
  rw [task_of_size_le hr] at h
  cases h

theorem lt_size_of_hasHandle {w : World} {r : Ref} (h : (w.task r).hasHandle = true) :
    r < w.tasks.size := by
  refine Nat.lt_of_not_le fun hr => ?_
  rw [task_of_size_le hr] at h
  cases h

end World

/-! ## Loops stay -/

namespace World

theorem size_loops_wakeTask (w : World) (r : Ref) : (w.wakeTask r).loops.size = w.loops.size := by
  unfold wakeTask
  dsimp only
  split
  · rfl
  · exact size_loops_setLoop _ _ _

theorem size_loops_wake (w : World) (l : Ref) (who : Waker) :
    (w.wake l who).loops.size = w.loops.size := by
  cases who with
  | root => exact size_loops_setLoop _ _ _
  | task r => exact size_loops_wakeTask w r

theorem size_loops_wakeAll {α : Type} (w : World) (l : Ref) (who : α → Waker) (whos : List α) :
    (whos.foldl (fun w a => w.wake l (who a)) w).loops.size = w.loops.size := by
  induction whos generalizing w with
  | nil => rfl
  | cons a whos ih => exact (ih _).trans (size_loops_wake w l (who a))

theorem size_loops_spawn (w : World) (l coroutine : Ref) (name : String) :
    (w.spawn l coroutine name).2.loops.size = w.loops.size :=
  (size_loops_wakeTask _ _).trans (size_loops_setLoop _ _ _)

theorem size_loops_cancelTask (w : World) (r : Ref) :
    (w.cancelTask r).loops.size = w.loops.size := by
  unfold cancelTask
  dsimp only
  split
  · rfl
  · exact size_loops_wakeTask _ _

theorem size_loops_finishTask (w : World) (r : Ref) (o : Ending) :
    (w.finishTask r o).loops.size = w.loops.size := by
  unfold finishTask
  dsimp only
  split
  · exact size_loops_wake _ _ _
  · rfl

theorem size_loops_awaitedBy (w : World) (r : Ref) :
    (w.awaitedBy r).loops.size = w.loops.size := by
  unfold awaitedBy
  split <;> rfl

theorem size_loops_yields (w : World) : w.yields.loops.size = w.loops.size := by
  unfold yields
  split
  · exact size_loops_setLoop _ _ _
  · rfl

theorem size_loops_sleeps (w : World) (t : Nat) : (w.sleeps t).loops.size = w.loops.size := by
  unfold sleeps
  split
  · exact size_loops_setLoop _ _ _
  · rfl

theorem size_loops_fireTimers (w : World) (l : Ref) :
    (fireTimers l w).loops.size = w.loops.size :=
  (size_loops_wakeAll _ _ _ _).trans (size_loops_setLoop _ _ _)

theorem size_loops_wakeYielded (w : World) (l : Ref) :
    (wakeYielded l w).loops.size = w.loops.size :=
  (size_loops_wakeAll _ _ _ _).trans (size_loops_setLoop _ _ _)

theorem size_loops_newLoop (w : World) : w.newLoop.2.loops.size = w.loops.size + 1 :=
  Array.size_push _

end World

/-- Loops are opened, but none is taken away. -/
theorem Act.size_le {m m' : Moment} (ha : Act m m') : m.world.loops.size ≤ m'.world.loops.size := by
  cases ha <;> dsimp only
  case other hloops _ _ => exact Nat.le_of_eq (congrArg Array.size hloops.symm)
  case create => exact Nat.le_of_eq (World.size_loops_spawn _ _ _ _).symm
  case cancel => exact Nat.le_of_eq (World.size_loops_cancelTask _ _).symm
  case claim => exact Nat.le_refl _
  case awaitedBy => exact Nat.le_of_eq (World.size_loops_awaitedBy _ _).symm
  case receive => exact Nat.le_refl _
  case yields => exact Nat.le_of_eq (World.size_loops_yields _).symm
  case sleeps => exact Nat.le_of_eq (World.size_loops_sleeps _ _).symm
  case newLoop => exact World.size_loops_newLoop _ ▸ Nat.le_succ _
  case enter => exact Nat.le_refl _
  case leave => exact Nat.le_refl _
  case wakeRoot => exact Nat.le_of_eq (World.size_loops_setLoop _ _ _).symm
  case fireTimers => exact Nat.le_of_eq (World.size_loops_fireTimers _ _).symm
  case wakeYielded => exact Nat.le_of_eq (World.size_loops_wakeYielded _ _).symm
  case turnOfRoot => exact Nat.le_of_eq (World.size_loops_setLoop _ _ _).symm
  case turnOfTask => exact Nat.le_of_eq (World.size_loops_setLoop _ _ _).symm
  case wait => exact Nat.le_refl _
  case finish => exact Nat.le_of_eq (World.size_loops_finishTask _ _ _).symm

theorem Leads.size_le {m m' : Moment} (h : Leads m m') : m.world.loops.size ≤ m'.world.loops.size := by
  induction h with
  | refl => exact Nat.le_refl _
  | tail _ ha ih => exact Nat.le_trans ih ha.size_le

end Transcript.Lang
