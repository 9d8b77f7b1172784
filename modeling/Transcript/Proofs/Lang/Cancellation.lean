import Transcript.Proofs.Lang.TaskState

/-!
# Cancelled tasks

A task that is cancelled stays so, and ends at its next turn without going on. So it makes no difference
what computation stands for it: nothing of that is done any more. Being cancelled is asked for by `cancel`
and by closing a loop, and both do it to the same tasks: those that have not ended and that nobody has
taken the right to await. A task that is awaited is left as it is, and goes on when its turn comes.

Results:
* `Leads.keepsCancelled`: a cancelled task stays cancelled.
* `answer_cancel`: when `cancel` cancels a task.
* `drive_sameBut`: while a loop is driven, nothing is done for cancelled tasks.
* `cancelled_closing`, `closeLoop_sameBut`: the same for closing a loop.
-/

namespace Transcript.Lang

/-! ## Cancelled tasks stay cancelled -/

theorem World.task_of_tasks {w w' : World} (h : w'.tasks = w.tasks) (r : Ref) :
    w'.task r = w.task r := by
  unfold World.task
  rw [h]

/-- Every task that was cancelled still is. -/
def World.KeepsCancelled (w w' : World) : Prop :=
  ∀ r, (w.task r).cancelled = true → (w'.task r).cancelled = true

namespace World.KeepsCancelled

variable {w w' w'' : World} {r : Ref}

theorem trans (h : w.KeepsCancelled w') (h' : w'.KeepsCancelled w'') : w.KeepsCancelled w'' :=
  fun r hr => h' r (h r hr)

theorem of_tasks (h : w'.tasks = w.tasks) : w.KeepsCancelled w' := by
  intro r hr
  rwa [task_of_tasks h]

theorem setTask {t : Task} (ht : (w.task r).cancelled = true → t.cancelled = true) :
    w.KeepsCancelled (w.setTask r t) := by
  intro s hs
  by_cases hrs : r = s
  · subst hrs
    by_cases hr : r < w.tasks.size
    · rw [task_setTask_self hr]
      exact ht hs
    · rwa [setTask_of_size_le (Nat.not_lt.mp hr)]
  · rwa [task_setTask_of_ne hrs]

theorem spawn (w : World) (l coroutine : Ref) (name : String) :
    w.KeepsCancelled (w.spawn l coroutine name).2 := by
  intro r hr
  have hlt : r < w.tasks.size := by
    refine Nat.lt_of_not_le fun hle => ?_
    rw [task_of_size_le hle] at hr
    cases hr
  refine of_tasks (tasks_wakeTask _ _) r ?_
  rw [task_setLoop, task_push hlt]
  exact hr

theorem cancelTask (w : World) (r : Ref) : w.KeepsCancelled (w.cancelTask r) := by
  have hset : w.KeepsCancelled (w.setTask r { w.task r with cancelled := true }) :=
    setTask fun _ => rfl
  unfold World.cancelTask
  dsimp only
  split
  · exact hset
  · exact hset.trans (of_tasks (tasks_wakeTask _ _))

theorem finishTask (w : World) (r : Ref) (o : Ending) : w.KeepsCancelled (w.finishTask r o) := by
  have hset : w.KeepsCancelled (w.setTask r { w.task r with outcome := some o, waiter := none }) :=
    setTask id
  unfold World.finishTask
  dsimp only
  split
  · exact hset.trans (of_tasks (tasks_wake _ _ _))
  · exact hset

theorem awaitedBy (w : World) (r : Ref) : w.KeepsCancelled (w.awaitedBy r) := by
  unfold World.awaitedBy
  split
  · exact setTask id
  · exact of_tasks rfl

theorem yields (w : World) : w.KeepsCancelled w.yields := by
  unfold World.yields
  split
  · exact of_tasks rfl
  · exact of_tasks rfl

theorem sleeps (w : World) (t : Nat) : w.KeepsCancelled (w.sleeps t) := by
  unfold World.sleeps
  split
  · exact of_tasks rfl
  · exact of_tasks rfl

end World.KeepsCancelled

theorem Act.keepsCancelled {m m' : Moment} (ha : Act m m') : m.world.KeepsCancelled m'.world := by
  cases ha with
  | other htasks => exact .of_tasks htasks
  | create => exact .spawn _ _ _ _
  | cancel => exact .cancelTask _ _
  | claim => exact .setTask id
  | awaitedBy => exact .awaitedBy _ _
  | receive => exact .setTask id
  | yields => exact .yields _
  | sleeps => exact .sleeps _ _
  | fireTimers => exact .of_tasks (World.tasks_wakeAll _ _ _ _)
  | wakeYielded => exact .of_tasks (World.tasks_wakeAll _ _ _ _)
  | finish => exact .finishTask _ _ _
  | newLoop | enter | leave | wakeRoot | turnOfRoot | turnOfTask | wait => exact .of_tasks rfl

/-- **A cancelled task stays cancelled.** -/
theorem Leads.keepsCancelled {m m' : Moment} (h : Leads m m') : m.world.KeepsCancelled m'.world := by
  induction h with
  | refl => exact .of_tasks rfl
  | tail _ ha ih => exact ih.trans ha.keepsCancelled

/-! ## What cancelling asks for -/

/-- A task that has not ended and that nobody has taken the right to await. -/
def Ledger.IsFree (g : Ledger) (r : Ref) : Prop := (∀ o, (r, o) ∉ g.ended) ∧ r ∉ g.claimed

theorem History.isFree_iff {m : Moment} (h : History m) {r l : Ref} (hr : (r, l) ∈ m.ledger.created) :
    m.ledger.IsFree r ↔
      (m.world.task r).hasHandle = true ∧ (m.world.task r).outcome.isNone = true := by
  have ht := h.tells.world.tasks r (h.tells.world.lt_size hr)
  rw [← Bool.not_eq_false, ht.claimed, Option.isNone_iff_eq_none, Option.eq_none_iff_forall_ne_some,
    Ledger.IsFree, and_comm]
  exact and_congr_right fun _ => forall_congr' fun o => not_congr (ht.ended o).symm

theorem callMethod_cancel (w : World) (r : Ref) :
    callMethod (.task r) .cancel [] [] w =
      if (w.task r).hasHandle && (w.task r).outcome.isNone then
        .ok (.ok (.bool true), w.cancelTask r)
      else .ok (.ok (.bool false), w) := by
  have hcheck : Arguments.check ⟨Method.cancel.name, [], []⟩ 0 0 [] = pure () := rfl
  have hcall : callMethod (.task r) .cancel [] [] w =
      (callTask r .cancel ⟨Method.cancel.name, [], []⟩).run w := rfl
  rw [hcall, callTask, hcheck, pure_bind, StateT.run_bind, StateT.run_get, pure_bind]
  dsimp only
  by_cases hfree : ((w.task r).hasHandle && (w.task r).outcome.isNone) = true
  · rw [if_pos hfree, if_pos hfree]
    rfl
  · rw [if_neg hfree, if_neg hfree]
    rfl

theorem World.cancelled_cancelTask {w : World} {r : Ref} (hr : r < w.tasks.size) (s : Ref) :
    ((w.cancelTask r).task s).cancelled = true ↔ s = r ∨ (w.task s).cancelled = true := by
  have htasks : (w.cancelTask r).tasks = (w.setTask r { w.task r with cancelled := true }).tasks := by
    unfold World.cancelTask
    dsimp only
    split
    · rfl
    · exact World.tasks_wakeTask _ _
  rw [World.task_of_tasks htasks]
  by_cases hrs : r = s
  · subst hrs
    rw [World.task_setTask_self hr]
    exact iff_of_true rfl (.inl rfl)
  · rw [World.task_setTask_of_ne hrs]
    exact (or_iff_right (Ne.symm hrs)).symm

/-- **A task is cancelled** exactly if it has not ended and nobody has taken the right to await it.
Otherwise nothing happens. -/
theorem answer_cancel {m : Moment} (h : History m) {r l : Ref} (hr : (r, l) ∈ m.ledger.created) :
    (m.ledger.IsFree r → ∃ w, callMethod (.task r) .cancel [] [] m.world = .ok (.ok (.bool true), w) ∧
      ∀ s, (w.task s).cancelled = true ↔ s = r ∨ (m.world.task s).cancelled = true) ∧
    (¬m.ledger.IsFree r →
      callMethod (.task r) .cancel [] [] m.world = .ok (.ok (.bool false), m.world)) := by
  rw [h.isFree_iff hr, callMethod_cancel, ← Bool.and_eq_true_iff]
  refine ⟨fun hfree => ?_, fun hfree => if_neg hfree⟩
  rw [if_pos hfree]
  exact ⟨_, rfl, World.cancelled_cancelTask (h.tells.world.lt_size hr)⟩

/-! ## What stands for cancelled tasks -/

/-- Computations that wait and are the same but for those that stand for some tasks. -/
def Threads.SameBut (dead : Ref → Prop) (threads threads' : Threads) : Prop :=
  ∀ r, ¬dead r → threads'.lookup r = threads.lookup r

theorem Threads.lookup_filter (threads : Threads) (r s : Ref) :
    (threads.filter (·.1 != r)).lookup s = if s = r then none else threads.lookup s := by
  induction threads with
  | nil => rw [List.filter_nil, List.lookup_nil, ite_self]
  | cons p threads ih =>
    obtain ⟨k, x⟩ := p
    rw [List.filter_cons]
    split
    · rename_i hk
      rw [List.lookup_cons, List.lookup_cons, ih]
      cases hs : s == k with
      | true =>
        have hne : s ≠ r := eq_of_beq hs ▸ bne_iff_ne.mp hk
        rw [if_neg hne, if_neg hne]
      | false => rfl
    · rename_i hk
      rw [ih, List.lookup_cons]
      have hkr : k = r := by rwa [bne_iff_ne, not_not] at hk
      subst hkr
      cases hs : s == k with
      | true => rw [if_pos (eq_of_beq hs), if_pos (eq_of_beq hs)]
      | false => rfl

namespace Threads.SameBut

variable {dead dead' : Ref → Prop} {threads threads' : Threads}

theorem mono (h : SameBut dead threads threads') (hdead : ∀ r, dead r → dead' r) :
    SameBut dead' threads threads' :=
  fun r hr => h r fun hd => hr (hdead r hd)

theorem filter (h : SameBut dead threads threads') (r : Ref) :
    SameBut dead (threads.filter (·.1 != r)) (threads'.filter (·.1 != r)) := by
  intro s hs
  rw [lookup_filter, lookup_filter, h s hs]

theorem cons (h : SameBut dead threads threads') (p : Ref × Suspended Ending) :
    SameBut dead (p :: threads) (p :: threads') := by
  intro s hs
  obtain ⟨r, x⟩ := p
  rw [List.lookup_cons, List.lookup_cons, h s hs]

end Threads.SameBut

/-! ## Driving a loop -/

/-- A task that is cancelled. -/
def World.IsCancelled (w : World) (r : Ref) : Prop := (w.task r).cancelled = true

/-- The same world, with computations that wait there and are the same but for those of cancelled
tasks. -/
def SameLeft (x y : Threads × World) : Prop := y.2 = x.2 ∧ x.1.SameBut x.2.IsCancelled y.1

section

variable {start : Ref → Run Ending}
  (hstart : ∀ (place : Option (Ref × Waker)) (r : Ref), (start r).Acts (.program place))
  {l : Ref} {threads threads' : Threads} {w : World} {g : Ledger}

include hstart

/-- **The turn of a task** is the same whatever stands for cancelled tasks, be it one itself. -/
theorem runTask_sameBut {r : Ref} (ht : Threads.Acts l threads)
    (h : History ⟨.program (some (l, .task r)), { w with current := .task r }, g⟩)
    (hs : threads.SameBut w.IsCancelled threads') :
    Except.Agree SameLeft (runTask start r threads w) (runTask start r threads' w) := by
  have hothers {w₁ : World} (hw₁ : ({ w with current := .task r } : World).KeepsCancelled w₁) :
      Threads.SameBut w₁.IsCancelled (threads.filter (·.1 != r)) (threads'.filter (·.1 != r)) :=
    (hs.filter r).mono fun s hs => hw₁ s hs
  rw [runTask_eq, runTask_eq]
  by_cases hcancelled : (w.task r).cancelled = true
  · rw [if_pos hcancelled, if_pos hcancelled]
    exact .ok ⟨rfl, hothers (.finishTask _ _ _)⟩
  · rw [if_neg hcancelled, if_neg hcancelled]
    have hturn := turn_acts hstart ht h
    have hsame : turn start r threads' { w with current := .task r } =
        turn start r threads { w with current := .task r } := by
      unfold turn
      rw [hs r hcancelled]
    rw [hsame]
    generalize turn start r threads _ = step at hturn ⊢
    cases hturn with
    | done hl => exact .ok ⟨rfl, hothers (hl.keepsCancelled.trans (.finishTask _ _ _))⟩
    | wait hl _ =>
      unfold afterTurn
      dsimp only
      split
      · exact .ok ⟨rfl, hothers (hl.keepsCancelled.trans (.finishTask _ _ _))⟩
      · exact .ok ⟨rfl, (hothers hl.keepsCancelled).cons _⟩
    | halt => exact .error _

theorem runQueue_sameBut (n : Nat) (ht : Threads.Acts l threads) (h : History ⟨.loop l, w, g⟩)
    (hs : threads.SameBut w.IsCancelled threads') :
    Except.Agree SameLeft (runQueue start l n threads w) (runQueue start l n threads' w) := by
  induction n generalizing threads threads' w g with
  | zero => exact .ok ⟨rfl, hs⟩
  | succ n ih =>
    unfold runQueue
    split
    · exact .ok ⟨rfl, hs⟩
    · rename_i r queue hqueue
      have hturn : History ⟨.program (some (l, .task r)),
          { w.setLoop l { w.loop l with queue } with current := .task r }, g⟩ :=
        h.tail (.turnOfTask hqueue)
      refine .bind (runTask_sameBut hstart ht hturn hs) ?_
      rintro ⟨threads₁, w₁⟩ ⟨threads₁', w₁'⟩ hrun ⟨hw₁, hs₁⟩
      change w₁' = w₁ at hw₁
      subst hw₁
      obtain ⟨ht₁, g₁, hg₁⟩ := runTask_acts hstart ht hturn hrun
      exact ih ht₁ (hturn.trans hg₁) hs₁

/-- **A loop that is driven** does nothing for cancelled tasks: whatever computations stand for them,
the result is the same, and so is the world. -/
theorem drive_sameBut {α : Type} (rounds : Nat) {root : Suspended α}
    (hroot : root.Acts (.program (some (l, .root)))) (ht : Threads.Acts l threads)
    (h : History ⟨.loop l, w, g⟩) (hs : threads.SameBut w.IsCancelled threads') :
    Except.Agree (fun x y => y.1 = x.1 ∧ SameLeft x.2 y.2) (drive start l rounds root threads w)
      (drive start l rounds root threads' w) := by
  induction rounds generalizing root threads threads' w g with
  | zero => exact .error _
  | succ rounds ih =>
    have hgoOn (root : Suspended α) (hroot : root.Acts (.program (some (l, .root))))
        {threads threads' : Threads} {w : World} {g : Ledger} (ht : Threads.Acts l threads)
        (h : History ⟨.loop l, w, g⟩) (hs : threads.SameBut w.IsCancelled threads') :
        Except.Agree (fun x y => y.1 = x.1 ∧ SameLeft x.2 y.2)
          (do drive start l rounds root threads (← rest l w))
          (do drive start l rounds root threads' (← rest l w)) := by
      cases hrest : rest l w with
      | error why => exact .error why
      | ok w₁ =>
        have hl : Leads ⟨.loop l, w, g⟩ ⟨.loop l, w₁, g⟩ := rest_acts hrest
        exact ih hroot ht (h.trans hl) (hs.mono hl.keepsCancelled)
    unfold drive
    split
    · have hturn : Leads ⟨.loop l, w, g⟩ _ := .single .turnOfRoot
      have hpoll := hroot.poll (h.trans hturn)
      dsimp only
      generalize root.poll _ = step at hpoll ⊢
      cases hpoll with
      | done hl => exact .ok ⟨rfl, rfl, hs.mono (Leads.keepsCancelled (hturn.trans hl))⟩
      | wait hl hresume =>
        have hwait := (hturn.trans hl).tail .wait
        refine .bind (runQueue_sameBut hstart _ ht (h.trans hwait)
          (hs.mono (Leads.keepsCancelled hwait))) ?_
        rintro ⟨threads₁, w₁⟩ ⟨threads₁', w₁'⟩ hqueue ⟨hw₁, hs₁⟩
        change w₁' = w₁ at hw₁
        subst hw₁
        obtain ⟨ht₁, g₁, hg₁⟩ := runQueue_acts hstart _ ht (h.trans hwait) hqueue
        have h₁ := h.trans (hwait.trans hg₁)
        dsimp only
        split
        · exact hgoOn ⟨_, _⟩ hresume ht₁ h₁ hs₁
        · exact hgoOn ⟨_, _⟩ hresume ht₁ (h₁.tail .wakeRoot) hs₁
      | halt => exact .error _
    · exact hgoOn root hroot ht h hs

theorem driveOn_sameBut {α : Type} (rounds : Nat) {root : Run α}
    (hroot : root.Acts (.program (some (l, .root)))) (ht : Threads.Acts l threads)
    (h : History ⟨.program none, w, g⟩) (hl : l < w.loops.size)
    (hs : threads.SameBut w.IsCancelled threads') :
    Except.Agree (fun x y => y.1 = x.1 ∧ SameLeft x.2 y.2) (driveOn start l rounds root threads w)
      (driveOn start l rounds root threads' w) := by
  have henter : Leads ⟨.program none, w, g⟩ _ := .tail (.single (.enter hl)) .wakeRoot
  refine .bind (drive_sameBut hstart rounds (.ofRun hroot) ht (h.trans henter) hs) ?_
  rintro ⟨a, threads₁, w₁⟩ ⟨a', threads₁', w₁'⟩ - ⟨ha, hw₁, hs₁⟩
  change w₁' = w₁ at hw₁
  subst hw₁
  exact .ok ⟨ha, rfl, hs₁⟩

end

/-! ## Closing a loop -/

theorem History.mem_unfinished {m : Moment} (h : History m) {l : Ref} (hl : l < m.world.loops.size)
    (r : Ref) : r ∈ m.world.unfinished l ↔ (r, l) ∈ m.ledger.created ∧ m.ledger.IsFree r := by
  rw [World.unfinished, World.held, List.mem_filter, List.mem_filter, (h.tells.world.loops l hl).tasks,
    Ledger.mem_onLoop, and_assoc]
  exact and_congr_right fun hr => (h.isFree_iff hr).symm

theorem World.cancelled_foldl_cancelTask {w : World} {rs : List Ref} (hrs : ∀ r ∈ rs, r < w.tasks.size)
    (s : Ref) : (rs.foldl World.cancelTask w).IsCancelled s ↔ s ∈ rs ∨ w.IsCancelled s := by
  induction rs generalizing w with
  | nil => exact (or_iff_right List.not_mem_nil).symm
  | cons r rs ih =>
    rw [List.forall_mem_cons] at hrs
    rw [List.foldl_cons, ih fun t ht => (w.size_tasks_cancelTask r).symm ▸ hrs.2 t ht,
      List.mem_cons, or_assoc, or_left_comm]
    exact or_congr_right (World.cancelled_cancelTask hrs.1 s)

theorem World.cancelled_released (w : World) (l s : Ref) :
    (w.released l).IsCancelled s ↔ w.IsCancelled s := by
  unfold World.released
  induction w.held l generalizing w with
  | nil => rfl
  | cons r rs ih =>
    rw [List.foldl_cons, ih]
    unfold World.IsCancelled
    by_cases hrs : r = s
    · subst hrs
      by_cases hr : r < w.tasks.size
      · rw [World.task_setTask_self hr]
      · rw [World.setTask_of_size_le (Nat.not_lt.mp hr)]
    · rw [World.task_setTask_of_ne hrs]

/-- **Closing a loop cancels** its tasks that have not ended and that nobody has taken the right to
await, and no others. -/
theorem cancelled_closing {m : Moment} (h : History m) {l : Ref} (hl : l < m.world.loops.size)
    (s : Ref) : (m.world.closing l).IsCancelled s ↔
      ((s, l) ∈ m.ledger.created ∧ m.ledger.IsFree s) ∨ m.world.IsCancelled s := by
  rw [World.closing, World.cancelled_foldl_cancelTask fun _ => World.lt_size_of_mem_unfinished,
    h.mem_unfinished hl, World.cancelled_released]

/-- **A loop that is closed** does nothing more for the tasks that are cancelled by this, or were before:
whatever computations stand for them, the world that it leaves is the same. -/
theorem closeLoop_sameBut {start : Ref → Run Ending}
    (hstart : ∀ (place : Option (Ref × Waker)) (r : Ref), (start r).Acts (.program place))
    {l : Ref} {threads threads' : Threads} {w : World} {g : Ledger} (rounds : Nat)
    (ht : Threads.Acts l threads) (h : History ⟨.program none, w, g⟩) (hl : l < w.loops.size)
    (hs : threads.SameBut (fun r => ((r, l) ∈ g.created ∧ g.IsFree r) ∨ w.IsCancelled r) threads') :
    closeLoop start l rounds threads' w = closeLoop start l rounds threads w := by
  obtain ⟨g₁, g₂, hreleased, hclosing⟩ := closing_acts w g l
  have hled := hreleased.trans hclosing
  rw [closeLoop_eq, closeLoop_eq]
  split
  · rfl
  · have hsame := driveOn_sameBut hstart rounds (settle_acts (w.unfinished l)) ht (h.trans hled)
      (Nat.lt_of_lt_of_le hl (Leads.size_le hled))
      (hs.mono fun r hr => (cancelled_closing h hl r).mpr hr)
    generalize driveOn start l rounds _ threads _ = x at hsame ⊢
    generalize driveOn start l rounds _ threads' _ = y at hsame ⊢
    cases hsame with
    | ok hxy => exact congrArg Except.ok hxy.2.1
    | error why => rfl

/-! ## Cancellation is final -/

/-- **Cancellation is final** for tasks that nobody awaits. A task that has not ended and that nobody has
taken the right to await is cancelled by `cancel`, which says so, and by closing its loop; no other task
is. Whatever happens, a cancelled task stays so, and its turn ends it without running anything. While a
loop is driven, nothing is done for tasks that are cancelled, and while it is closed, nothing for those
that closing cancels: whatever computations stand for them, results and worlds are the same. Every state
that a host brings about has a history, and a coroutine that has the turn goes on by acts. -/
theorem cancellation_final {m : Moment} (h : History m) {r l : Ref} (hr : (r, l) ∈ m.ledger.created)
    (fuel : Nat) :
    (m.ledger.IsFree r → ∃ w, callMethod (.task r) .cancel [] [] m.world = .ok (.ok (.bool true), w) ∧
      ∀ s, w.IsCancelled s ↔ s = r ∨ m.world.IsCancelled s) ∧
    (¬m.ledger.IsFree r →
      callMethod (.task r) .cancel [] [] m.world = .ok (.ok (.bool false), m.world)) ∧
    (m.world.IsCancelled r → ∀ m', Leads m m' → m'.world.IsCancelled r ∧
      ∀ start threads, runTask start r threads m'.world =
        .ok (threads.filter (·.1 != r),
          { m'.world with current := .task r }.finishTask r cancelledEnding)) ∧
    (∀ w g threads threads', History ⟨.loop l, w, g⟩ → Threads.Acts l threads →
      threads.SameBut w.IsCancelled threads' →
      ∀ (α : Type) rounds (root : Suspended α), root.Acts (.program (some (l, .root))) →
        Except.Agree (fun x y => y.1 = x.1 ∧ SameLeft x.2 y.2)
          (drive (runCoroutine plainly fuel) l rounds root threads w)
          (drive (runCoroutine plainly fuel) l rounds root threads' w)) ∧
    (∀ w g threads threads', History ⟨.program none, w, g⟩ → l < w.loops.size →
      Threads.Acts l threads →
      (∀ s, (w.closing l).IsCancelled s ↔ ((s, l) ∈ g.created ∧ g.IsFree s) ∨ w.IsCancelled s) ∧
      (threads.SameBut (w.closing l).IsCancelled threads' →
        ∀ rounds, closeLoop (runCoroutine plainly fuel) l rounds threads' w =
          closeLoop (runCoroutine plainly fuel) l rounds threads w)) ∧
    (∀ w loops, Hosted w loops →
      ∃ g, History ⟨.program none, w, g⟩ ∧ ∀ k ∈ loops, k.Acts w) ∧
    ∀ place s, (runCoroutine plainly fuel s).Acts (.program place) := by
  have hstart := (acting fuel).runCoroutine
  obtain ⟨hfree, htaken⟩ := answer_cancel h hr
  refine ⟨hfree, htaken, fun hcancelled m' hm' => ?_, ?_, ?_, fun w loops hw => hw.history, hstart⟩
  · have hstays := Leads.keepsCancelled hm' r hcancelled
    exact ⟨hstays, fun start threads => runTask_of_cancelled start r threads m'.world hstays⟩
  · exact fun w g threads threads' hw ht hs α rounds root hroot =>
      drive_sameBut hstart rounds hroot ht hw hs
  · intro w g threads threads' hw hl ht
    have hclosing := cancelled_closing hw hl
    exact ⟨hclosing, fun hs rounds =>
      closeLoop_sameBut hstart rounds ht hw hl (hs.mono fun s => (hclosing s).mp)⟩

/-- A task is created: it can be cancelled until its root takes the right to await it. -/
theorem cancellation_final_unless_awaited : ∃ w g w' g',
    History ⟨.program (some (0, .root)), w, g⟩ ∧
    Leads ⟨.program (some (0, .root)), w, g⟩ ⟨.program (some (0, .root)), w', g'⟩ ∧
    (∃ w₁, callMethod (.task 0) .cancel [] [] w = .ok (.ok (.bool true), w₁) ∧ w₁.IsCancelled 0) ∧
    callMethod (.task 0) .cancel [] [] w' = .ok (.ok (.bool false), w') := by
  obtain ⟨w, g, w', g', h, hl, rfl, rfl⟩ := exists_created
  obtain ⟨w₁, hanswer, hcancelled⟩ := (cancellation_final h (r := 0) (l := 0) List.mem_cons_self 0).1
    ⟨fun _ => List.not_mem_nil, List.not_mem_nil⟩
  have htaken := (cancellation_final (h.trans hl) (r := 0) (l := 0) List.mem_cons_self 0).2.1
    fun hfree => hfree.2 List.mem_cons_self
  exact ⟨w, _, w', _, h, hl, ⟨w₁, hanswer, (hcancelled 0).mpr (.inl rfl)⟩, htaken⟩

/-- A task that is awaited is not cancelled, and goes on while its loop is closed: the coroutine of the task
writes `0` after the one that is driven has written `1` and ended. -/
theorem awaited_task_goes_on :
    ¬(∀ m r l, History m → (r, l) ∈ m.ledger.created → (∀ o, (r, o) ∉ m.ledger.ended) →
      ∃ w, callMethod (.task r) .cancel [] [] m.world = .ok (.ok (.bool true), w)) ∧
    ((compile ("import asyncio\nasync def s():\n await asyncio.sleep(0)\n print(0)\n".toList ++
        "async def o(t): await t\nasync def m():\n t = asyncio.create_task(s())\n".toList ++
        " asyncio.create_task(o(t))\n await asyncio.sleep(0)\n print(1)\n".toList ++
        "asyncio.run(m())\n".toList) "<test>" .exec false).toOption.bind fun code =>
      (evaluate code 0 (World.empty.newSpace .empty).2).map fun r => r.2.output) =
        some "1\n0\n".toList := by
  refine ⟨fun hall => ?_, by
    repeat rw [String.toList_ofList]
    decide +kernel⟩
  obtain ⟨w, g, w', g', h, hl, rfl, rfl⟩ := exists_created
  have h' : History ⟨.program (some (0, .root)), w', _⟩ := h.trans hl
  obtain ⟨w₁, hanswer⟩ := hall _ 0 0 h' List.mem_cons_self fun _ => List.not_mem_nil
  have htaken := (answer_cancel h' (l := 0) List.mem_cons_self).2 fun hfree => hfree.2 List.mem_cons_self
  rw [hanswer] at htaken
  cases htaken

end Transcript.Lang
