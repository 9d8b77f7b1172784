import Transcript.Proofs.Lang.Ledger
import Transcript.Proofs.Lang.Data

/-!
# Worlds with an idle event loop

An event loop that nobody drives can be put between the others: those after it move by one place, and the
tasks that are on them know the new place. Nothing that happens to tasks and loops does anything to it,
and it changes nothing of what happens. Tasks that do not exist must not be woken, since those count as
being on the first loop, whichever that is.

Results:
* `withIdle_setLoop`, `withIdle_setTask`: changing a loop or a task beside the idle loop.
* `withIdle_wake`, `withIdle_cancelTask`, `withIdle_finishTask`: what happens to tasks.
* `withIdle_rest`: what a loop does at rest.
* `newLoop_eq_withIdle`: an event loop that has just been opened is an idle one.
-/

namespace Transcript.Lang

/-! ## Places -/

/-- The place of an event loop after an idle one is put at a place. -/
def pastIdle (k l : Ref) : Ref := if l < k then l else l + 1

theorem pastIdle_of_lt {k l : Ref} (h : l < k) : pastIdle k l = l := if_pos h

theorem pastIdle_of_le {k l : Ref} (h : k ≤ l) : pastIdle k l = l + 1 := if_neg (Nat.not_lt.mpr h)

theorem pastIdle_succ (k l : Ref) : pastIdle (k + 1) (l + 1) = pastIdle k l + 1 := by
  rcases Nat.lt_or_ge l k with h | h
  · rw [pastIdle_of_lt h, pastIdle_of_lt (Nat.succ_lt_succ h)]
  · rw [pastIdle_of_le h, pastIdle_of_le (Nat.succ_le_succ h)]

/-- A list with an item put between the others. -/
theorem getElem?_insertIdx_pastIdle {α : Type} (as : List α) (k i : Nat) (a : α) :
    (as.insertIdx k a)[pastIdle k i]? = as[i]? := by
  rw [List.getElem?_insertIdx]
  by_cases h : i < k
  · rw [pastIdle_of_lt h, if_pos h]
  · rw [pastIdle_of_le (Nat.not_lt.mp h), if_neg (by omega), if_neg (by omega), Nat.add_sub_cancel]

/-- A change of an item beside one that is put between the others. -/
theorem insertIdx_set (as : List α) (k i : Nat) (a b : α) :
    (as.set i b).insertIdx k a = (as.insertIdx k a).set (pastIdle k i) b := by
  induction as generalizing k i with
  | nil => cases k <;> simp [pastIdle]
  | cons c as ih =>
    cases k with
    | zero => simp [pastIdle]
    | succ k =>
      cases i with
      | zero => simp [pastIdle]
      | succ i => simp [pastIdle_succ, ih]

/-- A new last item stays the last one. -/
theorem insertIdx_concat {α : Type} (as : List α) (k : Nat) (hk : k ≤ as.length) (a b : α) :
    (as ++ [b]).insertIdx k a = as.insertIdx k a ++ [b] := by
  induction as generalizing k with
  | nil =>
    rw [Nat.le_zero.mp hk]
    rfl
  | cons c as ih =>
    cases k with
    | zero => rfl
    | succ k => simp [ih k (Nat.le_of_succ_le_succ hk)]

/-- A task on a loop that has moved. -/
def Task.pastIdle (k : Ref) (t : Task) : Task := { t with loop := Lang.pastIdle k t.loop }

namespace World

variable {k : Ref} {w : World}

/-- **The world with an idle event loop** put at a place. -/
def withIdle (k : Ref) (w : World) : World :=
  { w with
    tasks := w.tasks.map (Task.pastIdle k)
    loops := (w.loops.toList.insertIdx k default).toArray
    running := w.running.map (pastIdle k) }

/-- Nothing of it is seen by operations on data. -/
theorem view_withIdle (k : Ref) (w : World) : (w.withIdle k).view = w.view := by
  simp only [view, withIdle, Array.map_map, Function.comp_def, Task.pastIdle]

/-! ## Reading -/

theorem loop_withIdle (k : Ref) (w : World) (l : Ref) :
    (w.withIdle k).loop (pastIdle k l) = w.loop l := by
  simp only [loop, withIdle, List.getElem?_toArray, getElem?_insertIdx_pastIdle, Array.getElem?_toList]

/-- The idle loop has no tasks. -/
theorem loop_withIdle_self (k : Ref) (w : World) : (w.withIdle k).loop k = default := by
  simp only [loop, withIdle, List.getElem?_toArray, List.getElem?_insertIdx, Nat.lt_irrefl, if_false,
    if_true]
  split <;> rfl

theorem size_loops_withIdle (hk : k ≤ w.loops.size) :
    (w.withIdle k).loops.size = w.loops.size + 1 := by
  simp [withIdle, List.length_insertIdx, hk]

@[simp] theorem size_tasks_withIdle (k : Ref) (w : World) :
    (w.withIdle k).tasks.size = w.tasks.size :=
  Array.size_map

theorem task_withIdle (k : Ref) {r : Ref} (hr : r < w.tasks.size) :
    (w.withIdle k).task r = (w.task r).pastIdle k := by
  simp [task, withIdle, hr]

/-- A task is the same but for the loop that it is on. -/
theorem eq_of_task_withIdle {α : Type} (f : Task → α) (hf : ∀ t : Task, f { t with loop := 0 } = f t)
    (k : Ref) (w : World) (r : Ref) : f ((w.withIdle k).task r) = f (w.task r) := by
  rw [← hf, ← task_view, view_withIdle, task_view, hf]

/-- A wait is over as soon as it is without the idle loop. -/
theorem isOver_withIdle (k : Ref) (w : World) (what : Wait) :
    what.isOver (w.withIdle k) = what.isOver w := by
  cases what with
  | turn => rfl
  | time t => rfl
  | task r => exact eq_of_task_withIdle (·.outcome.isSome) (fun _ => rfl) k w r

/-! ## Changing -/

theorem withIdle_setTask (k : Ref) (w : World) (r : Ref) (t : Task) :
    (w.setTask r t).withIdle k = (w.withIdle k).setTask r (t.pastIdle k) := by
  simp only [setTask, withIdle, Array.map_setIfInBounds]

/-- A task changes in a way that does not depend on the loop that it is on. -/
theorem withIdle_updateTask {f : Task → Task} (hf : ∀ t, (f t).pastIdle k = f (t.pastIdle k)) (w : World)
    (r : Ref) :
    (w.setTask r (f (w.task r))).withIdle k =
      (w.withIdle k).setTask r (f ((w.withIdle k).task r)) := by
  by_cases hr : r < w.tasks.size
  · rw [withIdle_setTask, task_withIdle k hr, hf]
  · rw [Nat.not_lt] at hr
    rw [setTask_of_size_le hr, setTask_of_size_le (w.size_tasks_withIdle k ▸ hr)]

theorem withIdle_setLoop (k : Ref) (w : World) (l : Ref) (e : EventLoop) :
    (w.setLoop l e).withIdle k = (w.withIdle k).setLoop (pastIdle k l) e := by
  simp only [setLoop, withIdle, Array.toList_setIfInBounds, insertIdx_set, List.setIfInBounds_toArray]

/-- An event loop is opened after the place of the idle one. -/
theorem withIdle_newLoop (hk : k ≤ w.loops.size) :
    (w.withIdle k).newLoop = (pastIdle k w.newLoop.1, w.newLoop.2.withIdle k) := by
  have hloops : (w.newLoop.2.withIdle k).loops = (w.withIdle k).loops.push default := by
    have hpush : w.newLoop.2.loops.toList = w.loops.toList ++ [default] := Array.toList_push
    simp only [withIdle, hpush, List.push_toArray]
    rw [insertIdx_concat _ k hk]
  have hworld : w.newLoop.2.withIdle k = { w.withIdle k with loops := (w.withIdle k).loops.push default } := by
    rw [← hloops]
    rfl
  rw [hworld, newLoop, size_loops_withIdle hk]
  exact congrArg (·, _) (pastIdle_of_le hk).symm

/-! ## Waking -/

/-- Someone who exists. -/
def Knows (w : World) : Waker → Prop
  | .root => True
  | .task r => r < w.tasks.size

theorem Knows.of_size {w' : World} {who : Waker} (h : w.Knows who)
    (hsize : w'.tasks.size = w.tasks.size) : w'.Knows who := by
  cases who with
  | root => trivial
  | task r => exact Nat.lt_of_lt_of_eq h hsize.symm

theorem withIdle_wakeRoot (k : Ref) (w : World) (l : Ref) :
    (w.wakeRoot l).withIdle k = (w.withIdle k).wakeRoot (pastIdle k l) := by
  rw [wakeRoot, withIdle_setLoop, wakeRoot, loop_withIdle]

theorem withIdle_wakeTask (k : Ref) {r : Ref} (hr : r < w.tasks.size) :
    (w.wakeTask r).withIdle k = (w.withIdle k).wakeTask r := by
  have ht : (w.withIdle k).task r = (w.task r).pastIdle k := task_withIdle k hr
  simp only [wakeTask, ht, Task.pastIdle, loop_withIdle]
  split
  · rfl
  · exact withIdle_setLoop _ _ _ _

theorem withIdle_wake (k l : Ref) {who : Waker} (hwho : w.Knows who) :
    (w.wake l who).withIdle k = (w.withIdle k).wake (pastIdle k l) who := by
  cases who with
  | root => exact w.withIdle_wakeRoot k l
  | task r => exact withIdle_wakeTask k hwho

/-- Several are woken, one after the other. -/
theorem withIdle_wakeAll {α : Type} (k l : Ref) (who : α → Waker) {whos : List α}
    (hwhos : ∀ a ∈ whos, w.Knows (who a)) :
    (whos.foldl (fun w a => w.wake l (who a)) w).withIdle k =
      whos.foldl (fun w a => w.wake (pastIdle k l) (who a)) (w.withIdle k) := by
  induction whos generalizing w with
  | nil => rfl
  | cons a whos ih =>
    rw [List.forall_mem_cons] at hwhos
    rw [List.foldl_cons, List.foldl_cons, ← withIdle_wake k l hwhos.1]
    exact ih fun b hb => (hwhos.2 b hb).of_size (congrArg Array.size (w.tasks_wake l (who a)))

/-! ## Tasks -/

/-- A task is created on a loop. -/
theorem withIdle_spawn (k : Ref) (w : World) (l coroutine : Ref) (name : String) :
    (w.spawn l coroutine name).2.withIdle k =
      ((w.withIdle k).spawn (pastIdle k l) coroutine name).2 := by
  let t : Task := ⟨name, l, coroutine, true, none, none, none, false⟩
  have hpush : ({ w with tasks := w.tasks.push t, created := w.created + 1 } : World).withIdle k =
      { w.withIdle k with
        tasks := (w.withIdle k).tasks.push (t.pastIdle k), created := w.created + 1 } := by
    simp only [withIdle, Array.map_push]
  unfold spawn
  dsimp only
  rw [withIdle_wakeTask, withIdle_setLoop, hpush, loop_withIdle, size_tasks_withIdle]
  · rfl
  · change w.tasks.size < (w.tasks.push t).size
    rw [Array.size_push]
    exact Nat.lt_succ_self _

theorem isRunning_withIdle (k : Ref) (w : World) (r : Ref) :
    (w.withIdle k).isRunning r = w.isRunning r := by
  simp only [isRunning, withIdle, Option.isSome_map]

theorem withIdle_cancelTask (k : Ref) {r : Ref} (hr : r < w.tasks.size) :
    (w.cancelTask r).withIdle k = (w.withIdle k).cancelTask r := by
  have hset : (w.setTask r { w.task r with cancelled := true }).withIdle k =
      (w.withIdle k).setTask r { (w.withIdle k).task r with cancelled := true } :=
    withIdle_updateTask (f := fun t => { t with cancelled := true }) (fun _ => rfl) w r
  unfold cancelTask
  dsimp only
  rw [← hset, isRunning_withIdle]
  split
  · rfl
  · exact withIdle_wakeTask k ((size_tasks_setTask _ _ _).symm ▸ hr)

theorem withIdle_finishTask (k : Ref) {r : Ref} (hr : r < w.tasks.size) (o : Ending)
    (hwaiter : ∀ who ∈ (w.task r).waiter, w.Knows who) :
    (w.finishTask r o).withIdle k = (w.withIdle k).finishTask r o := by
  have ht : (w.withIdle k).task r = (w.task r).pastIdle k := task_withIdle k hr
  have hset : (w.setTask r { w.task r with outcome := some o, waiter := none }).withIdle k =
      (w.withIdle k).setTask r { (w.withIdle k).task r with outcome := some o, waiter := none } :=
    withIdle_updateTask (f := fun t => { t with outcome := some o, waiter := none }) (fun _ => rfl) w r
  unfold finishTask
  dsimp only
  rw [← hset, ht]
  dsimp only [Task.pastIdle]
  cases hwho : (w.task r).waiter with
  | none => rfl
  | some who =>
    refine withIdle_wake k _ ((hwaiter who hwho).of_size ?_)
    exact size_tasks_setTask _ _ _

theorem withIdle_awaitedBy (k : Ref) (w : World) (r : Ref) :
    (w.awaitedBy r).withIdle k = (w.withIdle k).awaitedBy r := by
  have hrunning : (w.withIdle k).running = w.running.map (pastIdle k) := rfl
  unfold awaitedBy
  rw [hrunning]
  cases w.running with
  | none => rfl
  | some l => exact withIdle_updateTask (f := fun t => { t with waiter := some w.current }) (fun _ => rfl) w r

theorem withIdle_yields (k : Ref) (w : World) : w.yields.withIdle k = (w.withIdle k).yields := by
  have hrunning : (w.withIdle k).running = w.running.map (pastIdle k) := rfl
  unfold yields
  rw [hrunning]
  cases w.running with
  | none => rfl
  | some l =>
    dsimp only [Option.map_some]
    rw [withIdle_setLoop, loop_withIdle]
    rfl

theorem withIdle_sleeps (k : Ref) (w : World) (t : Nat) :
    (w.sleeps t).withIdle k = (w.withIdle k).sleeps t := by
  have hrunning : (w.withIdle k).running = w.running.map (pastIdle k) := rfl
  unfold sleeps
  rw [hrunning]
  cases w.running with
  | none => rfl
  | some l =>
    dsimp only [Option.map_some]
    rw [withIdle_setLoop, loop_withIdle]
    rfl

end World

/-! ## Loops at rest -/

section

variable {t : Turn} {w : World} {g : Ledger} {l : Ref}

/-- Whoever a history knows exists. -/
theorem History.knows (h : History ⟨t, w, g⟩) {who : Waker} (hwho : g.Knows who) : w.Knows who := by
  cases who with
  | root => trivial
  | task r => exact h.tells.world.lt_size hwho.choose_spec

theorem withIdle_fireTimers (k : Ref) (h : History ⟨.loop l, w, g⟩) :
    (fireTimers l w).withIdle k = fireTimers (pastIdle k l) (w.withIdle k) := by
  have hknows := (h.tells.world.loops l h.tells.turn.2).timers
  unfold fireTimers
  dsimp only
  rw [World.loop_withIdle, ← World.withIdle_setLoop]
  refine World.withIdle_wakeAll k l Prod.snd fun p hp => ?_
  exact h.knows (hknows p (List.takeWhile_sublist _ |>.subset hp))

theorem withIdle_wakeYielded (k : Ref) (h : History ⟨.loop l, w, g⟩) :
    (wakeYielded l w).withIdle k = wakeYielded (pastIdle k l) (w.withIdle k) := by
  have hknows := (h.tells.world.loops l h.tells.turn.2).yielded
  unfold wakeYielded
  dsimp only
  rw [World.loop_withIdle, ← World.withIdle_setLoop]
  exact World.withIdle_wakeAll k l id fun who hwho => h.knows (hknows who hwho)

/-- **A loop rests** in the same way beside the idle one. -/
theorem withIdle_rest (k : Ref) (h : History ⟨.loop l, w, g⟩) :
    rest (pastIdle k l) (w.withIdle k) = (rest l w).map (World.withIdle k) := by
  unfold rest
  rw [World.loop_withIdle]
  split
  · have hfired : History ⟨.loop l, fireTimers l w, g⟩ := h.tail .fireTimers
    rw [← withIdle_fireTimers k h, ← withIdle_wakeYielded k hfired]
    rfl
  · split
    · rfl
    · rename_i time _ _ _
      have hnow : History ⟨.loop l, { w with now := max w.now time }, g⟩ :=
        h.tail (.other rfl rfl rfl rfl)
      exact congrArg Except.ok (withIdle_fireTimers k hnow).symm

end

/-! ## Opening -/

/-- **An event loop that has just been opened** is an idle one after all others. -/
theorem newLoop_eq_withIdle {w : World} {g : Ledger} (h : History ⟨.program none, w, g⟩) :
    w.newLoop.2 = w.withIdle w.loops.size := by
  have htasks : w.tasks.map (Task.pastIdle w.loops.size) = w.tasks := by
    refine Array.ext Array.size_map fun r _ hr => ?_
    have hplaced : (w.task r).loop < w.loops.size :=
      h.tells.world.placed _ _ (h.tells.world.tasks r hr).created
    have htask : w.task r = w.tasks[r] := by simp [World.task, hr]
    rw [Array.getElem_map, ← htask, Task.pastIdle, pastIdle_of_lt hplaced]
  have hloops : (w.loops.toList.insertIdx w.loops.size default).toArray = w.loops.push default := by
    rw [← Array.length_toList, List.insertIdx_length_self, ← Array.toList_push, Array.toArray_toList]
  have hrunning : w.running = none := h.tells.turn
  unfold World.withIdle World.newLoop
  rw [htasks, hloops, hrunning]
  rfl

end Transcript.Lang
