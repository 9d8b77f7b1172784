import Transcript.Proofs.Lang.Loop

/-!
# Computations that keep what is true of programs

A property of worlds that only their functions and coroutines decide is kept by everything that makes
and changes none: operations on data, what event loops do with their tasks, and waiting, if whoever has
the turn meanwhile keeps it too. Computations that keep it can be put together, in a frame or without
one. A loop keeps it if the computation that it drives does, if the tasks that wait do when they go on, and
if the coroutines do that it starts.

Results:
* `withoutLoops_finishTask`, `withoutLoops_fireTimers`: event loops leave everything else alone.
* `Op.SparesPrograms.callMethod`: most of what comes with the language leaves programs alone.
* `Eval.Keeps.bind`, `Exec.Keeps.bind`: one after the other, computations keep it if each does.
* `together_keeps`: computations side by side.
* `drive_keeps`, `closeLoop_keeps`, `runOnNewLoop_keeps`: driving and closing a loop.
-/

namespace Transcript.Lang

/-! ## What event loops leave alone -/

namespace World

variable (w : World)

/-- **A world without its event loops,** their tasks and their clock. -/
def withoutLoops : World :=
  { w with tasks := #[], loops := #[], running := none, current := .root, created := 0, now := 0 }

@[simp] theorem withoutLoops_setLoop (l : Ref) (e : EventLoop) :
    (w.setLoop l e).withoutLoops = w.withoutLoops := rfl

@[simp] theorem withoutLoops_setTask (r : Ref) (t : Task) :
    (w.setTask r t).withoutLoops = w.withoutLoops := rfl

@[simp] theorem withoutLoops_wakeTask (r : Ref) : (w.wakeTask r).withoutLoops = w.withoutLoops := by
  unfold wakeTask
  dsimp only
  split <;> rfl

@[simp] theorem withoutLoops_wake (l : Ref) (who : Waker) :
    (w.wake l who).withoutLoops = w.withoutLoops := by
  cases who with
  | root => rfl
  | task r => exact w.withoutLoops_wakeTask r

theorem withoutLoops_spawn (l coroutine : Ref) (name : String) :
    (w.spawn l coroutine name).2.withoutLoops = w.withoutLoops :=
  withoutLoops_wakeTask _ _

@[simp] theorem withoutLoops_cancelTask (r : Ref) : (w.cancelTask r).withoutLoops = w.withoutLoops := by
  unfold cancelTask
  dsimp only
  split
  · rfl
  · exact withoutLoops_wakeTask _ _

theorem withoutLoops_finishTask (r : Ref) (o : Ending) :
    (w.finishTask r o).withoutLoops = w.withoutLoops := by
  unfold finishTask
  dsimp only
  split
  · exact withoutLoops_wake _ _ _
  · rfl

theorem withoutLoops_awaitedBy (r : Ref) : (w.awaitedBy r).withoutLoops = w.withoutLoops := by
  unfold awaitedBy
  split <;> rfl

theorem withoutLoops_yields : w.yields.withoutLoops = w.withoutLoops := by
  unfold yields
  split <;> rfl

theorem withoutLoops_sleeps (t : Nat) : (w.sleeps t).withoutLoops = w.withoutLoops := by
  unfold sleeps
  split <;> rfl

variable {w}

theorem withoutLoops_foldl {α : Type} {f : World → α → World}
    (hf : ∀ w a, (f w a).withoutLoops = w.withoutLoops) (l : List α) :
    (l.foldl f w).withoutLoops = w.withoutLoops := by
  induction l generalizing w with
  | nil => rfl
  | cons a as ih => exact ih.trans (hf w a)

theorem withoutLoops_fireTimers (l : Ref) : (Lang.fireTimers l w).withoutLoops = w.withoutLoops :=
  withoutLoops_foldl (fun w _ => w.withoutLoops_wake l _) _

theorem withoutLoops_wakeYielded (l : Ref) : (Lang.wakeYielded l w).withoutLoops = w.withoutLoops :=
  withoutLoops_foldl (fun w _ => w.withoutLoops_wake l _) _

theorem withoutLoops_rest {l : Ref} {w' : World} (h : rest l w = .ok w') :
    w'.withoutLoops = w.withoutLoops := by
  unfold rest at h
  split at h
  · cases h
    exact (withoutLoops_wakeYielded l).trans (withoutLoops_fireTimers l)
  · split at h
    · cases h
    · cases h
      exact withoutLoops_fireTimers l

/-- **The programs of a world:** its functions and its coroutines. -/
def programs (w : World) : Array Function × Array Coroutine := (w.functions, w.coroutines)

/-- Event loops have no programs of their own. -/
theorem programs_of_withoutLoops {w w' : World} (h : w'.withoutLoops = w.withoutLoops) :
    w'.programs = w.programs :=
  (congrArg programs h :)

end World

/-! ## Coroutines -/

/-- What is taken out of a coroutine was in it, and is no longer. -/
theorem takePending_eq_ok {r : Ref} {w w' : World} {p : Pending} (h : takePending r w = .ok (p, w')) :
    ∃ c, w.coroutines[r]? = some c ∧ c.pending = some p ∧
      w' = { w with coroutines := w.coroutines.setIfInBounds r { c with pending := none } } := by
  simp only [takePending, bind, StateT.bind, get, getThe, MonadStateOf.get, StateT.get, Except.bind,
    pure, Except.pure] at h
  cases hc : w.coroutines[r]? with
  | none =>
    rw [hc] at h
    cases h
  | some c =>
    rw [hc, Option.getD_some] at h
    cases hp : c.pending with
    | none =>
      rw [hp] at h
      cases h
    | some q =>
      rw [hp] at h
      cases h
      exact ⟨c, rfl, hp, rfl⟩

/-- The computation of a coroutine that has not begun. -/
def World.pending? (w : World) (r : Ref) : Option Pending := ((w.coroutines[r]?).getD default).pending

/-- The world in which a coroutine has begun. -/
def World.begin (w : World) (r : Ref) : World :=
  let c := (w.coroutines[r]?).getD default
  { w with coroutines := w.coroutines.setIfInBounds r { c with pending := none } }

theorem takePending_of_some {r : Ref} {w : World} {p : Pending} (hp : w.pending? r = some p) :
    takePending r w = .ok (p, w.begin r) := by
  unfold takePending
  simp only [bind, StateT.bind, Except.bind, get, getThe, MonadStateOf.get, StateT.get, pure, Except.pure]
  rw [show ((w.coroutines[r]?).getD default).pending = some p from hp]
  rfl

theorem takePending_of_none {r : Ref} {w : World} (hp : w.pending? r = none) :
    takePending r w = .error .reusedCoroutine := by
  unfold takePending
  simp only [bind, StateT.bind, Except.bind, get, getThe, MonadStateOf.get, StateT.get, pure, Except.pure]
  rw [show ((w.coroutines[r]?).getD default).pending = none from hp]
  rfl

/-- Puts together what awaiting gathered values has given. -/
def gathered (os : List Ending) : Eval Value := do
  Eval.ofOp (Op.newList (← Eval.ofEnding (os.mapM id)))

/-- Runs the computation of a coroutine. -/
def runPending (fuel : Nat) : Pending → Eval Value
  | .call g locals => runFunction plainly fuel g locals
  | .sleep delay result => sleep delay result
  | .gather items => do
    let members := items.map fun v => Member.waiting (.ofRun (awaitValue plainly fuel v))
    gathered (← Eval.ofRun (Member.together fuel members))
  | .source code globals => runModule plainly fuel code globals

theorem runCoroutine_eq (fuel : Nat) (r : Ref) :
    runCoroutine plainly (fuel + 1) r = Eval.ofOp (takePending r) >>= runPending fuel := rfl

section

variable {fuel : Nat} {w : World} {r : Ref}

/-- A coroutine that has not begun does what it has been made for. -/
theorem runCoroutine_run {p : Pending} (hp : w.pending? r = some p) :
    (runCoroutine plainly (fuel + 1) r).run w = (runPending fuel p).run (w.begin r) := by
  rw [runCoroutine_eq, Eval.bind_of_ok (Eval.ofOp_ok (takePending_of_some hp))]

/-- A coroutine begins only once. -/
theorem runCoroutine_of_begun (hp : w.pending? r = none) :
    (runCoroutine plainly (fuel + 1) r).run w =
      (Eval.fail .reusedCoroutine : Eval Value).run w := by
  rw [runCoroutine_eq,
    Eval.bind_of_error (Eval.ofOp_error (takePending_of_none hp) Problem.noConfusion)]
  rfl

end

/-! ## Operations that leave programs alone -/

/-- An operation that leaves the programs of a world alone. -/
def Op.SparesAt {α : Type} (w : World) (x : Op α) : Prop :=
  ∀ a w', x w = .ok (a, w') → w'.programs = w.programs

/-- **An operation that leaves programs alone.** -/
def Op.SparesPrograms {α : Type} (x : Op α) : Prop := ∀ w, x.SparesAt w

namespace Op.SparesPrograms

variable {α β : Type}

theorem of_onData {x : Op α} (h : x.OnData) : SparesPrograms x := by
  intro w a w' hx
  rw [h.dataDiffers hx]
  rfl

theorem bind {x : Op α} {f : α → Op β} (hx : SparesPrograms x) (hf : ∀ a, SparesPrograms (f a)) :
    SparesPrograms (x >>= f) := by
  intro w b w'' h
  obtain ⟨⟨a, w'⟩, hxa, hfa⟩ := Except.bind_eq_ok.mp h
  exact (hf a w' b w'' hfa).trans (hx w a w' hxa)

theorem pure (a : α) : SparesPrograms (Pure.pure a : Op α) := of_onData (.pure a)

theorem reading {f : World → Op α} (hf : ∀ w, (f w).SparesAt w) : SparesPrograms (get >>= f) := hf

theorem modifying {f : World → World} (hf : ∀ w, (f w).programs = w.programs) :
    SparesPrograms (modify f : Op Unit) := by
  intro w a w' h
  cases h
  exact hf w

theorem createTask (a : Arguments) : SparesPrograms (Lang.createTask a) := by
  refine bind (of_onData (a.check_onData _ _ _)) fun _ => bind (of_onData (coroutineOf_onData _)) fun _ => ?_
  refine bind (of_onData (.mapM_option readText_onData _)) fun _ => reading fun w => ?_
  split
  · exact of_onData (.fail _) w
  · intro a w' h
    cases h
    exact World.programs_of_withoutLoops (World.withoutLoops_spawn _ _ _ _)

theorem callTask (r : Ref) (m : Method) (a : Arguments) : SparesPrograms (Lang.callTask r m a) := by
  by_cases hm : m = .cancel
  · subst hm
    refine bind (of_onData (.ofExcept _)) fun _ => reading fun w => ?_
    dsimp only
    split
    · have hcancel (w : World) := World.programs_of_withoutLoops (w.withoutLoops_cancelTask r)
      exact bind (modifying hcancel) (fun _ => pure _) w
    · exact pure _ w
  · exact of_onData (callTask_onData r a hm)

theorem callMethod (receiver : Value) (m : Method) (args : List Value)
    (named : List (String × Value)) : SparesPrograms (Lang.callMethod receiver m args named) := by
  cases receiver
  case task r => exact bind (of_onData (.ofExcept _)) fun _ => callTask r m _
  all_goals exact of_onData (callMethod_onData (by rintro _ ⟨⟩) m args named)

end Op.SparesPrograms

/-! ## Computations -/

/-- **What is true of the programs of a world:** a property that only functions and coroutines decide. -/
structure OfPrograms where
  /-- Worlds that it holds of. -/
  Holds : World → Prop
  /-- It is about programs only. -/
  of_eq : ∀ {w w' : World}, Holds w → w'.programs = w.programs → Holds w'

/-- Event loops do not decide it. -/
theorem OfPrograms.of_withoutLoops (I : OfPrograms) {w w' : World} (hw : I.Holds w)
    (h : w'.withoutLoops = w.withoutLoops) : I.Holds w' :=
  I.of_eq hw (World.programs_of_withoutLoops h)

variable {α β : Type} {I : OfPrograms}

/-- **Operations that keep what is true of programs.** -/
def Op.Keeps (I : OfPrograms) (x : Op α) : Prop :=
  ∀ w a w', I.Holds w → x w = .ok (a, w') → I.Holds w'

theorem Op.Keeps.spares {x : Op α} (h : x.SparesPrograms) : x.Keeps I :=
  fun w a w' hw hx => I.of_eq hw (h w a w' hx)

/-- An operation that keeps the property after one that leaves programs alone. -/
theorem Op.Keeps.after {x : Op α} {f : α → Op β} (hx : x.SparesPrograms) (hf : ∀ a, (f a).Keeps I) :
    (x >>= f).Keeps I := by
  intro w b w'' hw h
  obtain ⟨⟨a, w'⟩, hxa, hfa⟩ := Except.bind_eq_ok.mp h
  exact hf a w' b w'' (I.of_eq hw (hx w a w' hxa)) hfa

/-- **Steps that keep what is true of programs:** it holds when they have a result and when they wait,
and if it does when they go on, they keep it then. -/
inductive Step.Keeps (I : OfPrograms) : Step α → Prop
  | done {a : α} {w : World} (hw : I.Holds w) : Keeps I (.done a w)
  | wait {what : Wait} {w : World} {resume : World → Step α} (hw : I.Holds w)
      (h : ∀ w', I.Holds w' → Keeps I (resume w')) : Keeps I (.wait what w resume)
  | halt {why : Halt} : Keeps I (.halt why)

theorem Step.Keeps.bind {s : Step α} {f : α → World → Step β} (h : s.Keeps I)
    (hf : ∀ a w, I.Holds w → (f a w).Keeps I) : (s.bind f).Keeps I := by
  induction h with
  | done hw => exact hf _ _ hw
  | wait hw _ ih => exact .wait hw ih
  | halt => exact .halt

theorem Step.Keeps.holds {a : α} {w : World} (h : Keeps I (.done a w)) : I.Holds w := by
  cases h
  assumption

theorem Step.Keeps.holds_of_wait {what : Wait} {w : World} {resume : World → Step α}
    (h : Keeps I (.wait what w resume)) : I.Holds w := by
  cases h
  assumption

/-- Computations that keep what is true of programs. -/
def Run.Keeps (I : OfPrograms) (x : Run α) : Prop := ∀ w, I.Holds w → (x w).Keeps I

theorem Step.Keeps.resume {what : Wait} {w : World} {resume : World → Step α}
    (h : Keeps I (.wait what w resume)) : Run.Keeps I resume := by
  cases h
  assumption

namespace Run.Keeps

theorem pure (a : α) : Keeps I (Pure.pure a : Run α) := fun _ hw => .done hw

theorem bind {x : Run α} {f : α → Run β} (h : Keeps I x) (hf : ∀ a, Keeps I (f a)) : Keeps I (x >>= f) :=
  fun w hw => (h w hw).bind fun a w' hw' => hf a w' hw'

theorem map {x : Run α} (f : α → β) (h : Keeps I x) : Keeps I (f <$> x) := h.bind fun _ => pure _

theorem halt (why : Halt) : Keeps I (Run.halt why : Run α) := fun _ _ => .halt

theorem world : Keeps I Run.world := fun _ hw => .done hw

theorem modify {f : World → World} (hf : ∀ w, (f w).withoutLoops = w.withoutLoops) :
    Keeps I (Run.modify f) :=
  fun w hw => .done (I.of_withoutLoops hw (hf w))

theorem wait (what : Wait) : Keeps I (Run.wait what) := fun _ hw => .wait hw fun _ hw' => .done hw'

end Run.Keeps

/-- Evaluations that keep what is true of programs. -/
def Eval.Keeps (I : OfPrograms) (x : Eval α) : Prop := Run.Keeps I x.run

namespace Eval.Keeps

variable {x : Eval α}

theorem pure (a : α) : Keeps I (Pure.pure a : Eval α) := Run.Keeps.pure _

theorem throw (e : Raised) : Keeps I (throw e : Eval α) := Run.Keeps.pure _

theorem bind {f : α → Eval β} (h : Keeps I x) (hf : ∀ a, Keeps I (f a)) : Keeps I (x >>= f) := by
  refine Run.Keeps.bind h fun r => ?_
  cases r with
  | ok a => exact hf a
  | error e => exact Run.Keeps.pure _

theorem sequential : Sequential Eval fun _ x => Keeps I x := ⟨pure, bind⟩

theorem endless : Keeps I (Eval.endless : Eval α) := Run.Keeps.halt _

theorem ofRun {x : Run α} (h : Run.Keeps I x) : Keeps I (Eval.ofRun x) := h.map _

theorem world : Keeps I Eval.world := ofRun .world

theorem modify {f : World → World} (hf : ∀ w, (f w).withoutLoops = w.withoutLoops) :
    Keeps I (Eval.modify f) :=
  ofRun (.modify hf)

theorem wait (what : Wait) : Keeps I (Eval.ofRun (Run.wait what)) := ofRun (.wait what)

theorem ofEnding (e : Except Raised α) : Keeps I (Eval.ofEnding e) := Run.Keeps.pure _

/-- An operation that keeps the property, with what is known of its result. -/
theorem bindOp {x : Op α} {f : α → Eval β}
    (h : ∀ w a w', I.Holds w → x w = .ok (a, w') → I.Holds w' ∧ Keeps I (f a)) :
    Keeps I (Eval.ofOp x >>= f) := by
  intro w hw
  change Step.Keeps I (Step.bind (Eval.ofOp x w) _)
  unfold Eval.ofOp
  dsimp only [ExceptT.mk]
  split
  · rename_i a w' hx
    obtain ⟨hw', hf⟩ := h w a w' hw hx
    exact hf w' hw'
  · exact .halt
  · exact .done (I.of_eq hw rfl)

theorem ofOp {x : Op α} (h : x.Keeps I) : Keeps I (Eval.ofOp x) := by
  have hx : Keeps I (Eval.ofOp x >>= Pure.pure) :=
    bindOp fun w a w' hw ha => ⟨h w a w' hw ha, pure a⟩
  rwa [bind_pure] at hx

theorem spares {x : Op α} (h : x.SparesPrograms) : Keeps I (Eval.ofOp x) := ofOp (.spares h)

theorem onData {x : Op α} (h : x.OnData) : Keeps I (Eval.ofOp x) := spares (.of_onData h)

theorem fail (p : Problem) : Keeps I (Eval.fail p : Eval α) := onData (.fail p)

theorem mapM {f : α → Eval β} (h : ∀ a, Keeps I (f a)) (l : List α) : Keeps I (l.mapM f) :=
  sequential.mapM h l

theorem mapM_option {f : α → Eval β} (h : ∀ a, Keeps I (f a)) (o : Option α) : Keeps I (o.mapM f) :=
  sequential.mapM_option h o

theorem foldlM {f : β → α → Eval β} (h : ∀ b a, Keeps I (f b a)) (b : β) (l : List α) :
    Keeps I (l.foldlM f b) :=
  sequential.foldlM h b l

/-- Awaiting a task changes tasks only. -/
theorem awaitTask (r : Ref) : Keeps I (Lang.awaitTask r) := by
  refine bind world fun w => ?_
  dsimp only
  split
  · exact ofEnding _
  · split
    · exact fail _
    · have hreceive : Keeps I (do
          let t := (← Eval.world).task r
          let o := t.outcome.getD cancelledEnding
          Eval.modify fun w => w.setTask r { t with result := some o }
          Eval.ofEnding o) :=
        bind world fun _ => bind (modify fun w => w.withoutLoops_setTask r _) fun _ => ofEnding _
      refine bind (modify fun w => w.withoutLoops_setTask r _) fun _ => ?_
      split
      · refine bind (modify fun w => w.withoutLoops_awaitedBy r) fun _ => ?_
        exact bind (wait _) fun _ => hreceive
      · exact hreceive

/-- Sleeping changes event loops only. -/
theorem sleep (delay : Float) (result : Value) : Keeps I (Lang.sleep delay result) := by
  refine bind world fun w => ?_
  dsimp only
  split
  · exact fail _
  · split
    · exact fail _
    · split
      · exact bind (modify fun w => w.withoutLoops_sleeps _) fun _ => bind (wait _) fun _ => pure _
      · exact bind (modify fun w => w.withoutLoops_yields) fun _ => bind (wait _) fun _ => pure _

end Eval.Keeps

/-- Executions that keep what is true of programs, in every frame. -/
def Exec.Keeps (I : OfPrograms) (x : Exec α) : Prop := ∀ f : Frame, Run.Keeps I (x.run.run f)

namespace Exec.Keeps

variable {x : Exec α}

theorem pure (a : α) : Keeps I (Pure.pure a : Exec α) := fun _ => .pure _

theorem throw (s : Signal) : Keeps I (throw s : Exec α) := fun _ => .pure _

theorem bind {f : α → Exec β} (h : Keeps I x) (hf : ∀ a, Keeps I (f a)) : Keeps I (x >>= f) := by
  refine fun frame => (h frame).bind fun r => ?_
  obtain ⟨r, frame'⟩ := r
  cases r with
  | ok a => exact hf a frame'
  | error s => exact .pure _

theorem sequential : Sequential Exec fun _ x => Keeps I x := ⟨pure, bind⟩

theorem ofEval {x : Frame → Eval α} (h : ∀ f, (x f).Keeps I) : Keeps I (Exec.ofEval x) :=
  fun f => Run.Keeps.map _ (h f)

/-- How executions in a frame end, whatever becomes of the frame. -/
theorem run' (h : Keeps I x) (f : Frame) : Run.Keeps I (StateT.run' x f) := (h f).map _

theorem onData {x : Op α} (h : x.OnData) : Keeps I (Exec.ofOp x) := ofEval fun _ => .onData h

theorem ofOp {x : Op α} (h : x.Keeps I) : Keeps I (Exec.ofOp x) := ofEval fun _ => .ofOp h

theorem spares {x : Op α} (h : x.SparesPrograms) : Keeps I (Exec.ofOp x) := ofOp (.spares h)

theorem raise (e : Raised) : Keeps I (Exec.raise e : Exec α) := throw _

theorem fail (p : Problem) : Keeps I (Exec.fail p : Exec α) := onData (.fail p)

theorem endless : Keeps I (Exec.endless : Exec α) := ofEval fun _ => .endless

theorem attempt (h : Keeps I x) : Keeps I (Exec.attempt x) := fun f => (h f).map _

theorem conclude (r : Except Signal Unit) : Keeps I (Exec.conclude r) := by
  cases r with
  | ok u => exact pure u
  | error s => exact throw s

theorem frame : Keeps I (getThe Frame : Exec Frame) := fun _ => .pure _

theorem modifyFrame (g : Frame → Frame) : Keeps I (modifyThe Frame g : Exec PUnit) := fun _ => .pure _

theorem setFrame (f : Frame) : Keeps I (set f : Exec PUnit) := fun _ => .pure _

theorem reading : Keeps I (Exec.ofOp (get : Op World)) := spares (.reading fun w => Op.SparesPrograms.pure w w)

theorem mapM {f : α → Exec β} (h : ∀ a, Keeps I (f a)) (l : List α) : Keeps I (l.mapM f) :=
  sequential.mapM h l

theorem mapM_option {f : α → Exec β} (h : ∀ a, Keeps I (f a)) (o : Option α) : Keeps I (o.mapM f) :=
  sequential.mapM_option h o

theorem forM {f : α → Exec Unit} (h : ∀ a, Keeps I (f a)) (l : List α) : Keeps I (l.forM f) :=
  sequential.forM h l

theorem forM_option {f : α → Exec Unit} (h : ∀ a, Keeps I (f a)) (o : Option α) : Keeps I (o.forM f) :=
  sequential.forM_option h o

theorem bindName (name : String) (v : Value) : Keeps I (Lang.bindName name v) := by
  refine bind frame fun f => ?_
  split
  · exact setFrame _
  · exact spares (.modifying fun _ => rfl)

theorem unbindName (name : String) : Keeps I (Lang.unbindName name) := by
  refine bind frame fun f => ?_
  split
  · split
    · exact setFrame _
    · exact fail _
  · refine spares (.reading fun w => ?_)
    dsimp only
    split
    · intro u w' h
      cases h
      rfl
    · exact Op.SparesPrograms.of_onData (.fail _) w

end Exec.Keeps

/-! ## Side by side -/

/-- A computation that waits and keeps what is true of programs when it goes on. -/
def Suspended.Keeps (I : OfPrograms) (s : Suspended α) : Prop := Run.Keeps I s.resume

theorem Suspended.Keeps.poll {s : Suspended α} (h : s.Keeps I) : Run.Keeps I s.poll := by
  intro w hw
  unfold Suspended.poll
  split
  · exact h w hw
  · exact .wait hw h

/-- A member that keeps what is true of programs when it goes on. -/
def Member.Keeps (I : OfPrograms) : Member → Prop
  | .finished _ => True
  | .waiting s => s.Keeps I

theorem Member.Polls.keeps {m m' : Member} {w w' : World} (h : m.Keeps I) (hw : I.Holds w)
    (hm : m.Polls w m' w') : m'.Keeps I ∧ I.Holds w' := by
  cases hm with
  | finished o => exact ⟨h, hw⟩
  | waiting hm =>
    have hs := Suspended.Keeps.poll h w hw
    rw [hm] at hs
    cases m' with
    | finished o =>
      cases hs with
      | done hw' => exact ⟨trivial, hw'⟩
    | waiting s =>
      cases hs with
      | wait hw' h => exact ⟨h, hw'⟩

/-- **Computations side by side** keep what is true of programs if each does. -/
theorem together_keeps (turns : Nat) {ms : List Member} (h : ∀ m ∈ ms, m.Keeps I) :
    (Member.together turns ms).Keeps I := by
  induction turns generalizing ms with
  | zero => exact .halt _
  | succ turns ih =>
    intro w hw
    unfold Member.together
    split
    · exact .halt
    · rename_i ms' w' hpoll
      obtain ⟨hms', hw'⟩ := pollAll_induct (fun _ _ _ _ => Member.Polls.keeps) h hw hpoll
      split
      · exact .done hw'
      · exact .wait hw' (ih hms')

/-! ## Event loops -/

/-- Tasks that wait and keep what is true of programs when they go on. -/
def Threads.Keep (I : OfPrograms) (threads : Threads) : Prop := ∀ p ∈ threads, p.2.Keeps I

theorem Threads.Keep.filter {threads : Threads} (h : threads.Keep I) (r : Ref) :
    Threads.Keep I (threads.filter (·.1 != r)) :=
  fun p hp => h p (List.mem_of_mem_filter hp)

theorem Threads.Keep.lookup {threads : Threads} (h : threads.Keep I) {r : Ref} {s : Suspended Ending}
    (hs : threads.lookup r = some s) : s.Keeps I := by
  obtain ⟨before, after, rfl, -⟩ := List.lookup_eq_some_iff.mp hs
  exact h (r, s) (List.mem_append_right before List.mem_cons_self)

theorem Threads.Keep.nil : Threads.Keep I [] := List.forall_mem_nil _

section

variable {start : Ref → Run Ending} (hstart : ∀ r, (start r).Keeps I) (l : Ref)

include hstart

theorem runTask_keeps (r : Ref) {threads threads' : Threads} (ht : threads.Keep I) {w w' : World}
    (hw : I.Holds w) (h : runTask start r threads w = .ok (threads', w')) :
    threads'.Keep I ∧ I.Holds w' := by
  have hcurrent : I.Holds { w with current := .task r } := I.of_eq hw rfl
  rw [runTask_eq] at h
  split at h
  · cases h
    exact ⟨ht.filter r, I.of_withoutLoops hcurrent (World.withoutLoops_finishTask _ r _)⟩
  · have hturn : (turn start r threads { w with current := .task r }).Keeps I := by
      unfold turn
      split
      · rename_i s hs
        exact (ht.lookup hs).poll _ hcurrent
      · exact hstart _ _ hcurrent
    generalize turn start r threads _ = t at hturn h
    cases hturn with
    | done hw' =>
      cases h
      exact ⟨ht.filter r, I.of_withoutLoops hw' (World.withoutLoops_finishTask _ r _)⟩
    | wait hw' hresume =>
      dsimp only [afterTurn] at h
      split at h
      · cases h
        exact ⟨ht.filter r, I.of_withoutLoops hw' (World.withoutLoops_finishTask _ r _)⟩
      · cases h
        exact ⟨List.forall_mem_cons.mpr ⟨hresume, ht.filter r⟩, hw'⟩
    | halt => cases h

theorem runQueue_keeps (n : Nat) {threads threads' : Threads} (ht : threads.Keep I) {w w' : World}
    (hw : I.Holds w) (h : runQueue start l n threads w = .ok (threads', w')) :
    threads'.Keep I ∧ I.Holds w' := by
  induction n generalizing threads w with
  | zero =>
    cases h
    exact ⟨ht, hw⟩
  | succ n ih =>
    unfold runQueue at h
    split at h
    · cases h
      exact ⟨ht, hw⟩
    · rename_i r queue _
      have hqueue : I.Holds (w.setLoop l { w.loop l with queue }) := I.of_eq hw rfl
      obtain ⟨⟨threads₁, w₁⟩, hrun, hrest⟩ := Except.bind_eq_ok.mp h
      obtain ⟨ht₁, hw₁⟩ := runTask_keeps hstart r ht hqueue hrun
      exact ih ht₁ hw₁ hrest

/-- **Driving a loop** keeps what is true of programs if its root and its tasks do. -/
theorem drive_keeps (rounds : Nat) {root : Suspended α} (hroot : root.Keeps I)
    {threads threads' : Threads} (ht : threads.Keep I) {w w' : World} (hw : I.Holds w) {a : α}
    (h : drive start l rounds root threads w = .ok (a, threads', w')) :
    threads'.Keep I ∧ I.Holds w' := by
  induction rounds generalizing root threads w with
  | zero => cases h
  | succ rounds ih =>
    have hgoOn {root : Suspended α} (hroot : root.Keeps I) {threads : Threads} (ht : threads.Keep I)
        {w : World} (hw : I.Holds w)
        (h : (do drive start l rounds root threads (← rest l w)) = .ok (a, threads', w')) :
        threads'.Keep I ∧ I.Holds w' := by
      obtain ⟨w₁, hrest, hdrive⟩ := Except.bind_eq_ok.mp h
      exact ih hroot ht (I.of_withoutLoops hw (World.withoutLoops_rest hrest)) hdrive
    unfold drive at h
    split at h
    · have hpoll := hroot.poll { w.setLoop l { w.loop l with rootWoken := false } with current := .root }
        (I.of_eq hw rfl)
      dsimp only at h
      generalize root.poll _ = t at hpoll h
      cases hpoll with
      | done hw' =>
        cases h
        exact ⟨ht, hw'⟩
      | @wait what _ resume hw' hresume =>
        have hroot : Suspended.Keeps I ⟨what, resume⟩ := hresume
        obtain ⟨⟨threads₁, w₁⟩, hqueue, hrest⟩ := Except.bind_eq_ok.mp h
        obtain ⟨ht₁, hw₁⟩ := runQueue_keeps hstart l _ ht hw' hqueue
        dsimp only at hrest
        split at hrest
        · exact hgoOn hroot ht₁ hw₁ hrest
        · have hwoken : I.Holds (w₁.wakeRoot l) := I.of_eq hw₁ rfl
          exact hgoOn hroot ht₁ hwoken hrest
      | halt => cases h
    · exact hgoOn hroot ht hw h

theorem driveOn_keeps (rounds : Nat) {root : Run α} (hroot : root.Keeps I) {threads threads' : Threads}
    (ht : threads.Keep I) {w w' : World} (hw : I.Holds w) {a : α}
    (h : driveOn start l rounds root threads w = .ok (a, threads', w')) :
    threads'.Keep I ∧ I.Holds w' := by
  obtain ⟨⟨b, threads₁, w₁⟩, hdrive, hreturn⟩ := Except.bind_eq_ok.mp h
  have hsuspended : (Suspended.ofRun root).Keeps I := hroot
  have hrunning : I.Holds ({ w with running := some l }.wakeRoot l) := I.of_eq hw rfl
  obtain ⟨ht₁, hw₁⟩ := drive_keeps hstart l rounds hsuspended ht hrunning hdrive
  cases hreturn
  exact ⟨ht₁, I.of_eq hw₁ rfl⟩

omit hstart in
theorem settle_keeps (rs : List Ref) : (settle rs).Keeps I := by
  induction rs with
  | nil => exact .pure ()
  | cons r rs ih =>
    refine .bind .world fun w => ?_
    dsimp only
    split
    · refine .bind (.modify fun w => w.withoutLoops_awaitedBy r) fun _ => ?_
      exact .bind (.wait _) fun _ => ih
    · exact ih

/-- **Closing a loop** keeps what is true of programs. -/
theorem closeLoop_keeps (rounds : Nat) {threads : Threads} (ht : threads.Keep I) {w w' : World}
    (hw : I.Holds w) (h : closeLoop start l rounds threads w = .ok w') : I.Holds w' := by
  have hheld (held : List Ref) :
      I.Holds (held.foldl (fun w r => w.setTask r { w.task r with hasHandle := false }) w) :=
    I.of_withoutLoops hw (World.withoutLoops_foldl (fun w r => w.withoutLoops_setTask r _) held)
  unfold closeLoop at h
  dsimp only at h
  split at h
  · cases h
    exact hheld _
  · obtain ⟨⟨u, threads₁, w₁⟩, hdrive, hreturn⟩ := Except.bind_eq_ok.mp h
    cases hreturn
    refine (driveOn_keeps hstart l rounds (settle_keeps _) ht ?_ hdrive).2
    exact I.of_withoutLoops (hheld _) (World.withoutLoops_foldl (fun w r => w.withoutLoops_cancelTask r) _)

/-- **A loop of its own** keeps what is true of programs. -/
theorem runOnNewLoop_keeps (rounds : Nat) (coroutine : Ref) :
    (runOnNewLoop start rounds coroutine).Keeps I := by
  intro w hw
  unfold runOnNewLoop
  dsimp only
  split
  · rename_i o w' h
    obtain ⟨⟨b, threads₁, w₁⟩, hdrive, hclose⟩ := Except.bind_eq_ok.mp h
    obtain ⟨w₂, hclose, hreturn⟩ := Except.bind_eq_ok.mp hclose
    cases hreturn
    have hnew : I.Holds w.newLoop.2 := I.of_eq hw rfl
    obtain ⟨ht₁, hw₁⟩ := driveOn_keeps hstart _ rounds (hstart coroutine) .nil hnew hdrive
    exact .done (closeLoop_keeps hstart _ rounds ht₁ hw₁ hclose)
  · exact .halt

end

end Transcript.Lang
