import Mathlib.Data.List.Forall2
import Transcript.Proofs.Lang.Idle
import Transcript.Proofs.Lang.Law
import Transcript.Proofs.Lang.Outcome
import Transcript.Proofs.Lang.Program

/-!
# Beside an idle event loop

A computation does beside an idle event loop what it does without: it comes to the same result, or waits for
the same, in the same world but for the idle loop. This is so from any moment of a history that has opened
the loops before the idle one, since a history tells that whoever can be woken exists.

An event loop that is driven does so too if its root and its coroutines do: the same tasks have their turns,
and in the end the result is the same. So to ignore idle loops is a law, which programs obey.

Results:
* `Step.Beside.bind`: one after the other.
* `createTask_beside`, `cancel_beside`, `awaitTask_beside`, `sleep_beside`: what programs do to tasks.
* `together_beside`: computations side by side.
* `runTask_beside`, `drive_beside`: what a loop does that is driven.
* `closeLoop_beside`, `runOnNewLoop_beside`: closing a loop, and a loop of its own.
* `Law.ignoring`: the law that programs ignore an idle event loop.
* `closeLoop_idle`: closing the idle loop changes nothing.
-/

namespace Transcript.Lang

/-- **A moment of a history** at which an idle event loop may be put at a place. -/
structure Moment.Since (k : Ref) (m : Moment) : Prop where
  /-- It is one of a history. -/
  history : History m
  /-- The loops before the place have been opened. -/
  size_le : k ≤ m.world.loops.size

theorem Moment.Since.after {k : Ref} {m m' : Moment} (h : m.Since k) (hl : Leads m m') : m'.Since k :=
  ⟨h.history.trans hl, Nat.le_trans h.size_le (Leads.size_le hl)⟩

section Computations

variable {α β : Type} {k : Ref} {t : Turn} {place : Option (Ref × Waker)}

/-! ## Steps -/

/-- **Steps beside each other:** the second one is the first one in a world with an idle event loop. -/
inductive Step.Beside (k : Ref) (t : Turn) : Step α → Step α → Prop
  /-- They have the same result. -/
  | done {a : α} {w : World} : Beside k t (.done a w) (.done a (w.withIdle k))
  /-- They wait for the same, and go on beside each other when the wait is over. -/
  | wait {what : Wait} {w : World} {resume resume' : World → Step α}
      (h : ∀ w' g', Moment.Since k ⟨t, w', g'⟩ → what.isOver w' = true →
        Beside k t (resume w') (resume' (w'.withIdle k))) :
      Beside k t (.wait what w resume) (.wait what (w.withIdle k) resume')
  /-- They go no further. -/
  | halt {why : Halt} : Beside k t (.halt why) (.halt why)

theorem Step.Beside.bind {s s' : Step α} {f f' : α → World → Step β} {m : Moment} (h : s.Beside k t s')
    (hacts : s.Acts t m) (hm : m.Since k)
    (hf : ∀ a w g, Moment.Since k ⟨t, w, g⟩ → (f a w).Beside k t (f' a (w.withIdle k))) :
    (s.bind f).Beside k t (s'.bind f') := by
  induction h generalizing m with
  | done =>
    cases hacts with
    | done hl => exact hf _ _ _ (hm.after hl)
  | wait _ ih =>
    cases hacts with
    | wait hl hresume =>
      exact .wait fun w' g' hw' hover => ih w' g' hw' hover (hresume w' g' hw'.history hover) hw'
  | halt => exact .halt

/-- **Computations beside each other,** from any moment on. -/
def Run.Beside (k : Ref) (t : Turn) (x x' : Run α) : Prop :=
  ∀ w g, Moment.Since k ⟨t, w, g⟩ → (x w).Beside k t (x' (w.withIdle k))

theorem Run.Beside.bind {x x' : Run α} {f f' : α → Run β} (h : Run.Beside k t x x') (hacts : x.Acts t)
    (hf : ∀ a, Run.Beside k t (f a) (f' a)) : Run.Beside k t (x >>= f) (x' >>= f') :=
  fun w g hw => (h w g hw).bind (hacts w g hw.history) hw fun a => hf a

/-! ## Operations -/

/-- **An operation that does beside an idle event loop what it does without.** -/
def Op.Ignores (k : Ref) (t : Turn) (x : Op α) : Prop :=
  ∀ w g, Moment.Since k ⟨t, w, g⟩ → x (w.withIdle k) = (x w).map fun r => (r.1, r.2.withIdle k)

theorem Op.Ignores.onMemory {x : Op α} (h : x.OnMemory) : x.Ignores k t := by
  intro w g _
  rw [h (w.withIdle k), h w, World.view_withIdle]
  cases x w.view with
  | error p => rfl
  | ok r => rfl

theorem Op.Ignores.onData {x : Op α} (h : x.OnData) : x.Ignores k t := onMemory (.of_onData h)

theorem Op.Ignores.bind {x : Op α} {f : α → Op β} (hx : x.Ignores k t) (hacts : x.Acts t)
    (hf : ∀ a, (f a).Ignores k t) : (x >>= f).Ignores k t := by
  intro w g h
  change (x (w.withIdle k) >>= fun r => f r.1 r.2) = (x w >>= fun r => f r.1 r.2).map _
  rw [hx w g h]
  cases hr : x w with
  | error p => rfl
  | ok r =>
    obtain ⟨g', hl⟩ := hacts w g h.history r.1 r.2 hr
    exact hf r.1 r.2 g' (h.after hl)

/-- Operations on data come first. -/
theorem Op.Ignores.after {x : Op α} {f : α → Op β} (hx : x.OnData) (hf : ∀ a, (f a).Ignores k t) :
    (x >>= f).Ignores k t :=
  bind (onData hx) (.onData hx) hf

theorem Run.Beside.ofOp {x : Op α} (h : x.Ignores k t) :
    Run.Beside k t (Eval.ofOp x).run (Eval.ofOp x).run := by
  intro w g hw
  unfold Eval.ofOp
  dsimp only [ExceptT.run, ExceptT.mk]
  rw [h w g hw]
  cases x w with
  | error p =>
    cases p with
    | endless => exact .halt
    | _ => exact .done
  | ok r => exact .done

theorem Run.Beside.fail (p : Problem) :
    Run.Beside k t (Eval.fail p : Eval α).run (Eval.fail p : Eval α).run :=
  .ofOp (.onData (.fail p))

/-! ## What programs do to tasks -/

/-- A program creates a task on the loop that runs it, wherever that has moved. -/
theorem createTask_beside (a : Arguments) : (createTask a).Ignores k t := by
  unfold createTask
  refine .after (a.check_onData _ _ _) fun _ => .after (coroutineOf_onData _) fun coroutine => ?_
  refine .after (.mapM_option readText_onData _) fun name w g _ => ?_
  simp only [bind, StateT.bind, get, getThe, MonadStateOf.get, StateT.get, Except.bind, pure, Except.pure]
  have hrunning : (w.withIdle k).running = w.running.map (pastIdle k) := rfl
  rw [hrunning]
  cases w.running with
  | none => rfl
  | some l =>
    refine congrArg₂ (fun r w' => Except.ok (Value.task r, w')) (w.size_tasks_withIdle k) ?_
    exact (World.withIdle_spawn k w l coroutine _).symm

theorem cancel_beside (r : Ref) (args : List Value) (named : List (String × Value)) :
    (callMethod (.task r) .cancel args named).Ignores k t := by
  refine .after (.ofExcept _) fun _ => .after (.ofExcept _) fun _ w g _ => ?_
  simp only [bind, StateT.bind, get, getThe, MonadStateOf.get, StateT.get, Except.bind, pure, Except.pure]
  rw [World.eq_of_task_withIdle (fun t => t.hasHandle && t.outcome.isNone) (fun _ => rfl)]
  split
  · rename_i hfree
    have hr : r < w.tasks.size := World.lt_size_of_hasHandle (Bool.and_eq_true_iff.mp hfree).1
    exact congrArg (fun w' => Except.ok (Except.ok (Value.bool true), w'))
      (World.withIdle_cancelTask k hr).symm
  · rfl

/-- The outcome of a task that has ended is received. -/
theorem receiveOutcome_beside {r : Ref} {w : World} (ho : (w.task r).outcome.isSome = true) :
    ((receiveOutcome r).run w).Beside k t ((receiveOutcome r).run (w.withIdle k)) := by
  obtain ⟨o, ho⟩ := Option.isSome_iff_exists.mp ho
  have ho' : ((w.withIdle k).task r).outcome = some o :=
    (World.eq_of_task_withIdle Task.outcome (fun _ => rfl) k w r).trans ho
  have hset : (w.setTask r { w.task r with result := some o }).withIdle k =
      (w.withIdle k).setTask r { (w.withIdle k).task r with result := some o } :=
    World.withIdle_updateTask (f := fun t => { t with result := some o }) (fun _ => rfl) w r
  rw [receiveOutcome_run ho, receiveOutcome_run ho', ← hset]
  exact .done

theorem awaitTask_beside (r : Ref) : Run.Beside k t (awaitTask r).run (awaitTask r).run := by
  intro w g hw
  have hset : (w.setTask r { w.task r with hasHandle := false }).withIdle k =
      (w.withIdle k).setTask r { (w.withIdle k).task r with hasHandle := false } :=
    World.withIdle_updateTask (f := fun t => { t with hasHandle := false }) (fun _ => rfl) w r
  rw [awaitTask_run, awaitTask_run, ← hset]
  dsimp only
  rw [World.eq_of_task_withIdle Task.result (fun _ => rfl),
    World.eq_of_task_withIdle Task.hasHandle (fun _ => rfl),
    World.eq_of_task_withIdle Task.outcome (fun _ => rfl), ← World.withIdle_awaitedBy]
  cases (w.task r).result with
  | some o => exact .done
  | none =>
    dsimp only
    split
    · rename_i hhandle
      split
      · exact .wait fun w' g' _ hover => receiveOutcome_beside hover
      · rename_i houtcome
        refine receiveOutcome_beside ?_
        rw [World.task_setTask_self (World.lt_size_of_hasHandle hhandle)]
        rwa [Option.isNone_iff_eq_none, ← ne_eq, ← Option.isSome_iff_ne_none] at houtcome
    · exact Run.Beside.fail _ w g hw

/-- **A sleep** told by what the world shows when it begins. -/
theorem sleep_run (delay : Float) (result : Value) (w : World) :
    (sleep delay result).run w =
      if w.running.isNone then (Eval.fail .noRunningLoop : Eval Value).run w
      else if delay.isNaN then (Eval.fail .notANumber : Eval Value).run w
      else if 0.0 < delay then
        .wait (.time (w.now + nanoseconds delay)) (w.sleeps (w.now + nanoseconds delay)) fun w =>
          .done (.ok result) w
      else .wait .turn w.yields fun w => .done (.ok result) w := by
  have hread : (sleep delay result).run w = (if w.running.isNone then Eval.fail .noRunningLoop
      else if delay.isNaN then Eval.fail .notANumber
      else if 0.0 < delay then do
        Eval.modify (·.sleeps (w.now + nanoseconds delay))
        Eval.ofRun (Run.wait (.time (w.now + nanoseconds delay)))
        return result
      else do
        Eval.modify World.yields
        Eval.ofRun (Run.wait .turn)
        return result : Eval Value).run w := rfl
  rw [hread]
  split
  · rfl
  · split
    · rfl
    · split <;> rfl

theorem sleep_beside (delay : Float) (result : Value) :
    Run.Beside k t (sleep delay result).run (sleep delay result).run := by
  intro w g hw
  have hrunning : (w.withIdle k).running.isNone = w.running.isNone := Option.isNone_map
  have hnow : (w.withIdle k).now = w.now := rfl
  rw [sleep_run, sleep_run, hrunning, hnow]
  split
  · exact Run.Beside.fail _ w g hw
  · split
    · exact Run.Beside.fail _ w g hw
    · split
      · rw [← World.withIdle_sleeps]
        exact .wait fun _ _ _ _ => .done
      · rw [← World.withIdle_yields]
        exact .wait fun _ _ _ _ => .done

/-! ## Side by side -/

/-- Computations that wait for the same, and go on beside each other when the wait is over. -/
structure Suspended.Beside (k : Ref) (t : Turn) (s s' : Suspended α) : Prop where
  /-- They wait for the same. -/
  what : s'.what = s.what
  /-- The first one goes on by acts. -/
  acts : s.Acts t
  /-- They go on beside each other. -/
  resume : ∀ w g, Moment.Since k ⟨t, w, g⟩ → s.what.isOver w = true →
    (s.resume w).Beside k t (s'.resume (w.withIdle k))

namespace Suspended.Beside

variable {s s' : Suspended α}

theorem of_resume {what : Wait} {resume resume' : Run α} (hacts : Suspended.Acts t ⟨what, resume⟩)
    (h : ∀ w g, Moment.Since k ⟨t, w, g⟩ → what.isOver w = true →
      (resume w).Beside k t (resume' (w.withIdle k))) :
    Suspended.Beside k t ⟨what, resume⟩ ⟨what, resume'⟩ :=
  ⟨rfl, hacts, h⟩

theorem ofRun {x x' : Run α} (h : Run.Beside k t x x') (hacts : x.Acts t) :
    (Suspended.ofRun x).Beside k t (.ofRun x') :=
  ⟨rfl, .ofRun hacts, fun w g hw _ => h w g hw⟩

theorem poll (h : s.Beside k t s') {w : World} {g : Ledger} (hw : Moment.Since k ⟨t, w, g⟩) :
    (s.poll w).Beside k t (s'.poll (w.withIdle k)) := by
  unfold Suspended.poll
  rw [h.what, World.isOver_withIdle]
  split
  · rename_i hover
    exact h.resume w g hw hover
  · exact .wait h.resume

end Suspended.Beside

/-- Members that are finished in the same way, or go on beside each other. -/
inductive Member.Beside (k : Ref) (t : Turn) : Member → Member → Prop
  | finished (o : Ending) : Beside k t (.finished o) (.finished o)
  | waiting {s s' : Suspended Ending} (h : s.Beside k t s') : Beside k t (.waiting s) (.waiting s')

theorem Member.Beside.outcome? {m m' : Member} (h : m.Beside k t m') : m'.outcome? = m.outcome? := by
  cases h with
  | finished o => rfl
  | waiting h => rfl

/-- What has become of members, beside each other at moments of a history. -/
def Polled (k : Ref) (t : Turn) (x y : List Member × World) : Prop :=
  List.Forall₂ (Member.Beside k t) x.1 y.1 ∧ y.2 = x.2.withIdle k ∧ ∃ g, Moment.Since k ⟨t, x.2, g⟩

theorem pollAll_beside {ms ms' : List Member} (h : List.Forall₂ (Member.Beside k t) ms ms') {w : World}
    {g : Ledger} (hw : Moment.Since k ⟨t, w, g⟩) :
    Except.Agree (Polled k t) (Member.pollAll ms w) (Member.pollAll ms' (w.withIdle k)) := by
  induction h generalizing w g with
  | nil => exact .ok ⟨.nil, rfl, g, hw⟩
  | @cons m m' ms ms' hm _ ih =>
    have hrest {m m' : Member} (hm : m.Beside k t m') {w : World} {g : Ledger}
        (hw : Moment.Since k ⟨t, w, g⟩) :
        Except.Agree (Polled k t) (do let r ← Member.pollAll ms w; return (m :: r.1, r.2))
          (do let r ← Member.pollAll ms' (w.withIdle k); return (m' :: r.1, r.2)) :=
      .bind (ih hw) fun _ _ _ hr => .ok ⟨.cons hm hr.1, hr.2⟩
    cases hm with
    | finished o => exact hrest (.finished o) hw
    | @waiting s s' hs =>
      have hpoll := hs.poll hw
      have hacts := hs.acts.poll hw.history
      unfold Member.pollAll
      dsimp only
      generalize s.poll w = step at hpoll hacts ⊢
      generalize s'.poll (w.withIdle k) = step' at hpoll ⊢
      cases hpoll with
      | done =>
        cases hacts with
        | done hl => exact hrest (.finished _) (hw.after hl)
      | wait h =>
        cases hacts with
        | wait hl hresume =>
          exact hrest (.waiting (.of_resume hresume h)) (hw.after hl)
      | halt => exact .error _

/-- **Computations side by side** do beside an idle event loop what they do without, if each does. -/
theorem together_beside (turns : Nat) {ms ms' : List Member}
    (h : List.Forall₂ (Member.Beside k t) ms ms') :
    Run.Beside k t (Member.together turns ms) (Member.together turns ms') := by
  induction turns generalizing ms ms' with
  | zero => exact fun _ _ _ => .halt
  | succ turns ih =>
    intro w g hw
    have hpoll := pollAll_beside h hw
    unfold Member.together
    generalize Member.pollAll ms w = r at hpoll ⊢
    generalize Member.pollAll ms' (w.withIdle k) = r' at hpoll ⊢
    cases hpoll with
    | error why => exact .halt
    | @ok r r' hr =>
      obtain ⟨ms, w₁⟩ := r
      obtain ⟨ms', w₁'⟩ := r'
      obtain ⟨hms, hw₁, -⟩ := hr
      dsimp only at hms hw₁ ⊢
      subst hw₁
      rw [mapM_outcome?_congr (fun _ _ hm => hm.outcome?) hms]
      split
      · exact .done
      · exact .wait fun w g hw _ => ih hms w g hw

end Computations

section Loops

variable {k : Ref}

/-! ## What closing a loop begins with -/

namespace World

theorem held_withIdle (k : Ref) (w : World) (l : Ref) :
    (w.withIdle k).held (pastIdle k l) = w.held l := by
  unfold held
  rw [loop_withIdle]
  exact List.filter_congr fun r _ => eq_of_task_withIdle Task.hasHandle (fun _ => rfl) k w r

theorem unfinished_withIdle (k : Ref) (w : World) (l : Ref) :
    (w.withIdle k).unfinished (pastIdle k l) = w.unfinished l := by
  unfold unfinished
  rw [held_withIdle]
  exact List.filter_congr fun r _ => eq_of_task_withIdle (·.outcome.isNone) (fun _ => rfl) k w r

/-- Something is done to several tasks, one after the other. -/
theorem withIdle_foldl {f : World → Ref → World}
    (hf : ∀ w r, r < w.tasks.size → (f w r).withIdle k = f (w.withIdle k) r)
    (hsize : ∀ w r, (f w r).tasks.size = w.tasks.size) {w : World} {rs : List Ref}
    (hrs : ∀ r ∈ rs, r < w.tasks.size) : (rs.foldl f w).withIdle k = rs.foldl f (w.withIdle k) := by
  induction rs generalizing w with
  | nil => rfl
  | cons r rs ih =>
    rw [List.forall_mem_cons] at hrs
    rw [List.foldl_cons, List.foldl_cons, ← hf w r hrs.1]
    exact ih fun s hs => (hsize w r).symm ▸ hrs.2 s hs

theorem withIdle_released (k : Ref) (w : World) (l : Ref) :
    (w.released l).withIdle k = (w.withIdle k).released (pastIdle k l) := by
  unfold released
  rw [held_withIdle]
  refine withIdle_foldl (fun w r _ => ?_) (fun _ _ => size_tasks_setTask _ _ _) fun _ =>
    lt_size_of_mem_held
  exact withIdle_updateTask (f := fun t => { t with hasHandle := false }) (fun _ => rfl) w r

theorem withIdle_closing (k : Ref) (w : World) (l : Ref) :
    (w.closing l).withIdle k = (w.withIdle k).closing (pastIdle k l) := by
  unfold closing
  rw [unfinished_withIdle, ← withIdle_released]
  exact withIdle_foldl (fun _ _ hr => withIdle_cancelTask k hr) size_tasks_cancelTask fun _ =>
    lt_size_of_mem_unfinished

end World

/-! ## Tasks -/

/-- Tasks that wait for the same, and go on beside each other, each in its own turn. -/
abbrev Threads.Beside (k l : Ref) : Threads → Threads → Prop :=
  Threads.Rel fun r => Suspended.Beside k (.program (some (l, .task r)))

theorem Threads.Beside.acts {l : Ref} {threads threads' : Threads}
    (h : Threads.Beside k l threads threads') : Threads.Acts l threads := by
  induction h with
  | nil => exact .nil
  | cons hp _ ih => exact ih.cons hp.2.acts

/-- Computations that wait on a loop, and their worlds, beside each other. -/
def Left (k l : Ref) (x y : Threads × World) : Prop :=
  Threads.Beside k l x.1 y.1 ∧ y.2 = x.2.withIdle k

theorem withIdle_finishTask_of_turn {l r : Ref} {w : World} {g : Ledger}
    (h : History ⟨.program (some (l, .task r)), w, g⟩) (o : Ending) :
    (w.finishTask r o).withIdle k = (w.withIdle k).finishTask r o := by
  obtain ⟨-, -, -, ⟨l', hcreated⟩, -⟩ := h.tells.turn
  have hr : r < w.tasks.size := h.tells.world.lt_size hcreated
  exact World.withIdle_finishTask k hr o fun who hwho =>
    h.knows ((h.tells.world.tasks r hr).waiter who hwho)

section

variable {start start' : Ref → Run Ending}
  (hacts : ∀ (place : Option (Ref × Waker)) (r : Ref), (start r).Acts (.program place))
  (hstart : ∀ (place : Option (Ref × Waker)) (r : Ref),
    Run.Beside k (.program place) (start r) (start' r))
  {l : Ref} {threads threads' : Threads} {w : World} {g : Ledger}

include hstart

theorem turn_beside {r : Ref} (ht : Threads.Beside k l threads threads')
    (h : Moment.Since k ⟨.program (some (l, .task r)), w, g⟩) :
    (turn start r threads w).Beside k (.program (some (l, .task r)))
      (turn start' r threads' (w.withIdle k)) := by
  have hlookup := ht.lookup r
  unfold turn
  rw [World.eq_of_task_withIdle Task.coroutine fun _ => rfl]
  generalize threads.lookup r = o at hlookup ⊢
  generalize threads'.lookup r = o' at hlookup ⊢
  cases hlookup with
  | some hs => exact hs.poll h
  | none => exact hstart _ _ w g h

include hacts

/-- **The turn of a task.** -/
theorem runTask_beside {r : Ref} (ht : Threads.Beside k l threads threads')
    (h : Moment.Since k ⟨.program (some (l, .task r)), { w with current := .task r }, g⟩) :
    Except.Agree (Left k l) (runTask start r threads w) (runTask start' r threads' (w.withIdle k)) := by
  have hcurrent : ({ w.withIdle k with current := .task r } : World) =
      World.withIdle k { w with current := .task r } := rfl
  rw [runTask_eq, runTask_eq, hcurrent, World.eq_of_task_withIdle Task.cancelled fun _ => rfl]
  split
  · exact .ok ⟨ht.filter r, (withIdle_finishTask_of_turn h.history _).symm⟩
  · have hturn := turn_beside hstart ht h
    have hled := turn_acts hacts ht.acts h.history
    generalize turn start r threads _ = step at hturn hled ⊢
    generalize turn start' r threads' _ = step' at hturn ⊢
    cases hturn with
    | done =>
      cases hled with
      | done hl => exact .ok ⟨ht.filter r, (withIdle_finishTask_of_turn (h.after hl).history _).symm⟩
    | wait hbeside =>
      cases hled with
      | wait hl hresume =>
        unfold afterTurn
        dsimp only
        rw [World.eq_of_task_withIdle Task.cancelled fun _ => rfl]
        split
        · exact .ok ⟨ht.filter r, (withIdle_finishTask_of_turn (h.after hl).history _).symm⟩
        · exact .ok ⟨.cons ⟨rfl, .of_resume hresume hbeside⟩ (ht.filter r), rfl⟩
    | halt => exact .error _

theorem runQueue_beside (n : Nat) (ht : Threads.Beside k l threads threads')
    (h : Moment.Since k ⟨.loop l, w, g⟩) :
    Except.Agree (Left k l) (runQueue start l n threads w)
      (runQueue start' (pastIdle k l) n threads' (w.withIdle k)) := by
  induction n generalizing threads threads' w g with
  | zero => exact .ok ⟨ht, rfl⟩
  | succ n ih =>
    unfold runQueue
    rw [World.loop_withIdle]
    split
    · exact .ok ⟨ht, rfl⟩
    · rename_i r queue hqueue
      have hturn : Leads ⟨.loop l, w, g⟩ ⟨.program (some (l, .task r)),
          { w.setLoop l { w.loop l with queue } with current := .task r }, g⟩ :=
        .single (.turnOfTask hqueue)
      rw [← World.withIdle_setLoop]
      refine .bind (runTask_beside hacts hstart ht (h.after hturn)) ?_
      rintro ⟨threads₁, w₁⟩ ⟨threads₁', w₁'⟩ hrun ⟨ht₁, hw₁⟩
      change w₁' = w₁.withIdle k at hw₁
      subst hw₁
      obtain ⟨-, g₁, hg₁⟩ := runTask_acts hacts ht.acts (h.after hturn).history hrun
      exact ih ht₁ ((h.after hturn).after hg₁)

/-! ## Driving -/

/-- **A loop is driven.** -/
theorem drive_beside {α : Type} (rounds : Nat) {root root' : Suspended α}
    (hroot : root.Beside k (.program (some (l, .root))) root')
    (ht : Threads.Beside k l threads threads') (h : Moment.Since k ⟨.loop l, w, g⟩) :
    Except.Agree (fun x y => y.1 = x.1 ∧ Left k l x.2 y.2) (drive start l rounds root threads w)
      (drive start' (pastIdle k l) rounds root' threads' (w.withIdle k)) := by
  induction rounds generalizing root root' threads threads' w g with
  | zero => exact .error _
  | succ rounds ih =>
    have hgoOn {root root' : Suspended α} (hroot : root.Beside k (.program (some (l, .root))) root')
        {threads threads' : Threads} {w : World} {g : Ledger} (ht : Threads.Beside k l threads threads')
        (h : Moment.Since k ⟨.loop l, w, g⟩) :
        Except.Agree (fun x y => y.1 = x.1 ∧ Left k l x.2 y.2)
          (do drive start l rounds root threads (← rest l w))
          (do drive start' (pastIdle k l) rounds root' threads' (← rest (pastIdle k l) (w.withIdle k))) := by
      rw [withIdle_rest k h.history]
      cases hrest : rest l w with
      | error why => exact .error why
      | ok w₁ => exact ih hroot ht (h.after (rest_acts hrest))
    unfold drive
    rw [World.loop_withIdle]
    split
    · have hturn : Leads ⟨.loop l, w, g⟩ ⟨.program (some (l, .root)),
          { w.setLoop l { w.loop l with rootWoken := false } with current := .root }, g⟩ :=
        .single .turnOfRoot
      have hcurrent : ({ (w.withIdle k).setLoop (pastIdle k l) { w.loop l with rootWoken := false } with
          current := .root } : World) =
          World.withIdle k { w.setLoop l { w.loop l with rootWoken := false } with current := .root } := by
        rw [← World.withIdle_setLoop]
        rfl
      have hpoll := hroot.poll (h.after hturn)
      have hled := hroot.acts.poll (h.after hturn).history
      dsimp only
      rw [hcurrent]
      generalize root.poll _ = step at hpoll hled ⊢
      generalize root'.poll _ = step' at hpoll ⊢
      cases hpoll with
      | done => exact .ok ⟨rfl, ht, rfl⟩
      | wait hbeside =>
        cases hled with
        | wait hl hresume =>
          have hwaits := (hturn.trans hl).tail .wait
          have hnext := Suspended.Beside.of_resume hresume hbeside
          refine .bind (runQueue_beside hacts hstart _ ht (h.after hwaits)) ?_
          rintro ⟨threads₁, w₁⟩ ⟨threads₁', w₁'⟩ hqueue ⟨ht₁, hw₁⟩
          change w₁' = w₁.withIdle k at hw₁
          subst hw₁
          obtain ⟨-, g₁, hg₁⟩ := runQueue_acts hacts _ ht.acts (h.after hwaits).history hqueue
          dsimp only
          rw [World.loop_withIdle]
          split
          · exact hgoOn hnext ht₁ ((h.after hwaits).after hg₁)
          · rw [← World.withIdle_wakeRoot]
            exact hgoOn hnext ht₁ ((h.after hwaits).after (hg₁.tail .wakeRoot))
      | halt => exact .error _
    · exact hgoOn hroot ht h

/-- **A loop is driven** by a program or the host, outside of any loop. -/
theorem driveOn_beside {α : Type} (rounds : Nat) {root root' : Run α}
    (hactsRoot : root.Acts (.program (some (l, .root))))
    (hroot : Run.Beside k (.program (some (l, .root))) root root')
    (ht : Threads.Beside k l threads threads') (h : Moment.Since k ⟨.program none, w, g⟩)
    (hl : l < w.loops.size) :
    Except.Agree (fun x y => y.1 = x.1 ∧ Left k l x.2 y.2) (driveOn start l rounds root threads w)
      (driveOn start' (pastIdle k l) rounds root' threads' (w.withIdle k)) := by
  have henter : Leads ⟨.program none, w, g⟩
      ⟨.loop l, { w with running := some l }.wakeRoot l, g⟩ := .tail (.single (.enter hl)) .wakeRoot
  have hbegin : ({ w.withIdle k with running := some (pastIdle k l) } : World).wakeRoot (pastIdle k l) =
      World.withIdle k ({ w with running := some l }.wakeRoot l) :=
    (World.withIdle_wakeRoot k { w with running := some l } l).symm
  unfold driveOn
  rw [hbegin]
  refine .bind (drive_beside hacts hstart rounds (.ofRun hroot hactsRoot) ht (h.after henter)) ?_
  rintro ⟨a, threads₁, w₁⟩ ⟨a', threads₁', w₁'⟩ - ⟨ha, ht₁, hw₁⟩
  change w₁' = w₁.withIdle k at hw₁
  subst hw₁
  exact .ok ⟨ha, ht₁, rfl⟩

/-! ## Closing -/

omit hacts hstart in
/-- What is done to settle the first of several tasks. -/
theorem settle_cons (r : Ref) (rs : List Ref) (w : World) :
    settle (r :: rs) w =
      if (w.task r).outcome.isNone then .wait (.task r) (w.awaitedBy r) (settle rs)
      else settle rs w := by
  have hread : settle (r :: rs) w = (if (w.task r).outcome.isNone then do
      Run.modify (·.awaitedBy r)
      Run.wait (.task r)
      settle rs
    else settle rs : Run Unit) w := rfl
  rw [hread]
  split <;> rfl

omit hacts hstart in
theorem settle_beside {place : Option (Ref × Waker)} (rs : List Ref) :
    Run.Beside k (.program place) (settle rs) (settle rs) := by
  induction rs with
  | nil => exact fun _ _ _ => .done
  | cons r rs ih =>
    intro w g h
    rw [settle_cons, settle_cons, World.eq_of_task_withIdle (·.outcome.isNone) fun _ => rfl,
      ← World.withIdle_awaitedBy]
    split
    · exact .wait fun w' g' hw' _ => ih w' g' hw'
    · exact ih w g h

/-- **A loop is closed.** -/
theorem closeLoop_beside (rounds : Nat) (ht : Threads.Beside k l threads threads')
    (h : Moment.Since k ⟨.program none, w, g⟩) (hl : l < w.loops.size) :
    Except.Agree (fun w w' => w' = w.withIdle k) (closeLoop start l rounds threads w)
      (closeLoop start' (pastIdle k l) rounds threads' (w.withIdle k)) := by
  obtain ⟨g₁, g₂, hreleased, hclosing⟩ := closing_acts w g l
  have hled := hreleased.trans hclosing
  rw [closeLoop_eq, closeLoop_eq, World.unfinished_withIdle]
  split
  · exact .ok (World.withIdle_released k w l).symm
  · rw [← World.withIdle_closing]
    refine .bind (driveOn_beside hacts hstart rounds (settle_acts _) (settle_beside _) ht (h.after hled)
      (Nat.lt_of_lt_of_le hl (Leads.size_le hled))) ?_
    rintro ⟨a, threads₁, w₁⟩ ⟨a', threads₁', w₁'⟩ - ⟨-, -, hw₁⟩
    exact .ok hw₁

omit hacts hstart in
theorem Step.Beside.ofEnd {α : Type} {t : Turn} {x y : Except Halt (α × World)}
    (h : Except.Agree (fun x y => y = (x.1, x.2.withIdle k)) x y) :
    (Step.ofEnd x).Beside k t (Step.ofEnd y) := by
  cases h with
  | ok h =>
    subst h
    exact .done
  | error e => exact .halt

/-- **A loop of its own** is opened after the idle one, wherever that is. -/
theorem runOnNewLoop_beside (rounds : Nat) (coroutine : Ref) :
    Run.Beside k (.program none) (runOnNewLoop start rounds coroutine)
      (runOnNewLoop start' rounds coroutine) := by
  intro w g h
  have hnew : Leads ⟨.program none, w, g⟩ ⟨.program none, w.newLoop.2, g⟩ := .single .newLoop
  have hl : w.newLoop.1 < w.newLoop.2.loops.size :=
    World.size_loops_newLoop w ▸ Nat.lt_succ_self w.loops.size
  rw [runOnNewLoop_eq, runOnNewLoop_eq, World.withIdle_newLoop h.size_le]
  refine .ofEnd (.bind (driveOn_beside hacts hstart rounds (hacts _ coroutine) (hstart _ coroutine) .nil
    (h.after hnew) hl) ?_)
  rintro ⟨a, threads₁, w₁⟩ ⟨a', threads₁', w₁'⟩ hdrive ⟨ha, ht₁, hw₁⟩
  change a' = a at ha
  change w₁' = w₁.withIdle k at hw₁
  subst ha hw₁
  obtain ⟨-, g₁, hg₁⟩ := driveOn_acts hacts rounds (hacts _ coroutine) .nil (h.after hnew).history hl
    hdrive
  refine .bind (closeLoop_beside hacts hstart rounds ht₁ ((h.after hnew).after hg₁)
    (Nat.lt_of_lt_of_le hl (Leads.size_le hg₁))) ?_
  rintro w₂ w₂' - rfl
  exact .ok rfl

end

/-! ## Programs -/

/-- A loop of its own is driven unless one is driven already. -/
theorem runAlone_run (start : Ref → Run Ending) (rounds : Nat) (coroutine : Ref) (w : World) :
    (runAlone start rounds coroutine).run w =
      if w.running.isSome then (Eval.fail .loopIsRunning : Eval Value).run w
      else runOnNewLoop start rounds coroutine w := by
  have hread : (runAlone start rounds coroutine).run w =
      (if w.running.isSome then Eval.fail .loopIsRunning
      else ExceptT.mk (runOnNewLoop start rounds coroutine) : Eval Value).run w := rfl
  rw [hread]
  split <;> rfl

/-- **The law of idle loops:** wherever a program has the turn, a computation does beside an idle event loop
what it does without. -/
def Law.ignoring (k : Ref) : Law where
  Holds x := ∀ place : Option (Ref × Waker),
    x.Acts (.program place) ∧ Run.Beside k (.program place) x x
  pure a place := ⟨Law.acts.pure a place, fun _ _ _ => .done⟩
  bind hx hf place :=
    ⟨(hx place).1.bind fun a => (hf a place).1, (hx place).2.bind (hx place).1 fun a => (hf a place).2⟩
  endless place := ⟨Law.acts.endless place, fun _ _ _ => .halt⟩
  onMemory h place := ⟨Law.acts.onMemory h place, .ofOp (.onMemory h)⟩
  createTask a place := ⟨Law.acts.createTask a place, .ofOp (createTask_beside a)⟩
  cancel r args named place := ⟨Law.acts.cancel r args named place, .ofOp (cancel_beside r args named)⟩
  awaitTask r place := ⟨Law.acts.awaitTask r place, awaitTask_beside r⟩
  sleep delay result place := ⟨Law.acts.sleep delay result place, sleep_beside delay result⟩
  together turns _ _ l hx place := by
    refine ⟨Law.acts.together turns l (fun a place => (hx a place).1) place, together_beside turns ?_⟩
    rw [List.forall₂_map_left_iff, List.forall₂_map_right_iff, List.forall₂_same]
    exact fun a _ => .waiting (.ofRun (hx a place).2 (hx a place).1)
  runAlone {start} rounds coroutine hstart place := by
    refine ⟨Law.acts.runAlone rounds coroutine (fun r place => (hstart r place).1) place,
      fun w g h => ?_⟩
    have hrunning : (w.withIdle k).running.isSome = w.running.isSome := Option.isSome_map
    rw [runAlone_run, runAlone_run, hrunning]
    split
    · exact Run.Beside.fail _ w g h
    · rename_i hnone
      rw [Option.not_isSome_iff_eq_none] at hnone
      cases h.history.place_of_not_running hnone
      exact runOnNewLoop_beside (fun place r => (hstart r place).1) (fun place r => (hstart r place).2)
        rounds coroutine w g h

/-! ## The idle loop -/

/-- **To close the idle loop** changes nothing, since it has no tasks. -/
theorem closeLoop_idle (start : Ref → Run Ending) (rounds : Nat) (w : World) :
    closeLoop start k rounds [] (w.withIdle k) = .ok (w.withIdle k) := by
  have hheld : (w.withIdle k).held k = [] := by
    unfold World.held
    rw [World.loop_withIdle_self]
    rfl
  rw [closeLoop_eq]
  unfold World.unfinished World.released
  rw [hheld]
  rfl

end Loops

end Transcript.Lang
