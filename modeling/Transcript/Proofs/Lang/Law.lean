import Transcript.Proofs.Lang.Data

/-!
# Laws of computations

A law is a property of computations that sequencing keeps and that everything has which programs can do
to a world: operations on memory, creating, cancelling and awaiting tasks, sleeping, computations side by
side, and driving an event loop of their own. What obeys a law is built from that, in a frame or without
one.

Results:
* `Eval.Obeys.bind`, `Exec.Obeys.bind`: one after the other, computations obey a law if each does.
* `callBuiltin_obeys`, `callMethod_obeys`: what comes with the language obeys every law.
-/

namespace Transcript.Lang

/-- Drives a coroutine on an event loop of its own, unless one is driven already. -/
def runAlone (start : Ref → Run Ending) (rounds : Nat) (coroutine : Ref) : Eval Value := do
  if (← Eval.world).running.isSome then Eval.fail .loopIsRunning
  else ExceptT.mk (runOnNewLoop start rounds coroutine)

/-- **A law of computations.** -/
structure Law where
  /-- Computations that it holds of. -/
  Holds : ∀ {α : Type}, Run α → Prop
  /-- Results. -/
  pure : ∀ {α : Type} (a : α), Holds (Pure.pure a : Run α)
  /-- One computation after the other. -/
  bind : ∀ {α β : Type} {x : Run α} {f : α → Run β}, Holds x → (∀ a, Holds (f a)) → Holds (x >>= f)
  /-- A computation that has no end. -/
  endless : ∀ {α : Type}, Holds (Run.halt .endless : Run α)
  /-- Operations on memory. -/
  onMemory : ∀ {α : Type} {x : Op α}, x.OnMemory → Holds (Eval.ofOp x).run
  /-- A task is created. -/
  createTask : ∀ a, Holds (Eval.ofOp (Lang.createTask a)).run
  /-- A task is cancelled. -/
  cancel : ∀ r args named, Holds (Eval.ofOp (callMethod (.task r) .cancel args named)).run
  /-- A task is awaited. -/
  awaitTask : ∀ r, Holds (Lang.awaitTask r).run
  /-- A computation sleeps. -/
  sleep : ∀ delay result, Holds (Lang.sleep delay result).run
  /-- Computations run side by side. -/
  together : ∀ (turns : Nat) {α : Type} {x : α → Run Ending} (l : List α), (∀ a, Holds (x a)) →
    Holds (Member.together turns (l.map fun a => .waiting (.ofRun (x a))))
  /-- A coroutine is driven on an event loop of its own. -/
  runAlone : ∀ {start : Ref → Run Ending} (rounds : Nat) (coroutine : Ref), (∀ r, Holds (start r)) →
    Holds (Lang.runAlone start rounds coroutine).run

variable {α β : Type} {L : Law}

/-! ## Evaluations -/

/-- An evaluation of which a law holds. -/
def Eval.Obeys (L : Law) (x : Eval α) : Prop := L.Holds x.run

namespace Eval.Obeys

variable {x : Eval α}

theorem pure (a : α) : Obeys L (Pure.pure a : Eval α) := L.pure _

theorem throw (e : Raised) : Obeys L (throw e : Eval α) := L.pure _

theorem bind {f : α → Eval β} (h : Obeys L x) (hf : ∀ a, Obeys L (f a)) : Obeys L (x >>= f) := by
  refine L.bind h fun r => ?_
  cases r with
  | ok a => exact hf a
  | error e => exact L.pure _

theorem endless : Obeys L (Eval.endless : Eval α) := L.endless

theorem ofRun {x : Run α} (h : L.Holds x) : Obeys L (Eval.ofRun x) := L.bind h fun _ => L.pure _

theorem onMemory {x : Op α} (h : x.OnMemory) : Obeys L (Eval.ofOp x) := L.onMemory h

theorem onData {x : Op α} (h : x.OnData) : Obeys L (Eval.ofOp x) := onMemory (.of_onData h)

theorem fail (p : Problem) : Obeys L (Eval.fail p : Eval α) := onData (.fail p)

theorem ofEnding (e : Except Raised α) : Obeys L (Eval.ofEnding e) := L.pure e

/-- The world is read as far as it is seen. -/
theorem reading {f : World → Eval β} (hf : ∀ w, Obeys L (f w)) (hsees : ∀ w : World, f w.view = f w) :
    Obeys L (Eval.world >>= f) := by
  have hview : (Eval.world >>= f) =
      (Eval.ofOp (fun w => .ok (w.view, w) : Op World) >>= f : Eval β) := by
    funext w
    change f w w = f w.view w
    rw [hsees]
  rw [hview]
  exact bind (onMemory .seeing) hf

theorem sequential : Sequential Eval fun _ x => Obeys L x := ⟨pure, bind⟩

theorem mapM {f : α → Eval β} (h : ∀ a, Obeys L (f a)) (l : List α) : Obeys L (l.mapM f) :=
  sequential.mapM h l

theorem mapM_option {f : α → Eval β} (h : ∀ a, Obeys L (f a)) (o : Option α) : Obeys L (o.mapM f) :=
  sequential.mapM_option h o

theorem foldlM {f : β → α → Eval β} (h : ∀ b a, Obeys L (f b a)) (b : β) (l : List α) :
    Obeys L (l.foldlM f b) :=
  sequential.foldlM h b l

end Eval.Obeys

/-! ## Executions -/

/-- Executions of which a law holds, in every frame. -/
def Exec.Obeys (L : Law) (x : Exec α) : Prop := ∀ f : Frame, L.Holds (x.run.run f)

namespace Exec.Obeys

variable {x : Exec α}

theorem pure (a : α) : Obeys L (Pure.pure a : Exec α) := fun _ => L.pure _

theorem throw (s : Signal) : Obeys L (throw s : Exec α) := fun _ => L.pure _

theorem bind {f : α → Exec β} (h : Obeys L x) (hf : ∀ a, Obeys L (f a)) : Obeys L (x >>= f) := by
  refine fun frame => L.bind (h frame) fun r => ?_
  obtain ⟨r, frame'⟩ := r
  cases r with
  | ok a => exact hf a frame'
  | error s => exact L.pure _

theorem map (f : Except Signal α × Frame → β) (h : Obeys L x) (frame : Frame) :
    L.Holds (f <$> x.run.run frame) :=
  L.bind (h frame) fun _ => L.pure _

theorem ofEval {x : Frame → Eval α} (h : ∀ f, Eval.Obeys L (x f)) : Obeys L (Exec.ofEval x) :=
  fun f => L.bind (h f) fun _ => L.pure _

/-- How executions in a frame end, whatever becomes of the frame. -/
theorem run' (h : Obeys L x) (f : Frame) : L.Holds (StateT.run' x f) := map _ h f

theorem onMemory {x : Op α} (h : x.OnMemory) : Obeys L (Exec.ofOp x) := ofEval fun _ => .onMemory h

theorem onData {x : Op α} (h : x.OnData) : Obeys L (Exec.ofOp x) := onMemory (.of_onData h)

theorem raise (e : Raised) : Obeys L (Exec.raise e : Exec α) := throw _

theorem fail (p : Problem) : Obeys L (Exec.fail p : Exec α) := onData (.fail p)

theorem endless : Obeys L (Exec.endless : Exec α) := ofEval fun _ => .endless

theorem attempt (h : Obeys L x) : Obeys L (Exec.attempt x) := map _ h

theorem conclude (r : Except Signal Unit) : Obeys L (Exec.conclude r) := by
  cases r with
  | ok u => exact pure u
  | error s => exact throw s

theorem frame : Obeys L (getThe Frame : Exec Frame) := fun _ => L.pure _

theorem setFrame (f : Frame) : Obeys L (set f : Exec PUnit) := fun _ => L.pure _

theorem modifyFrame (h : Frame → Frame) : Obeys L (modifyThe Frame h : Exec PUnit) :=
  fun _ => L.pure _

/-- The world is read as far as it is seen. -/
theorem reading {f : World → Exec β} (hf : ∀ w, Obeys L (f w)) (hsees : ∀ w : World, f w.view = f w) :
    Obeys L (Exec.ofOp get >>= f) := by
  have hview : (Exec.ofOp get >>= f) =
      (Exec.ofOp (fun w => .ok (w.view, w) : Op World) >>= f : Exec β) := by
    funext frame w
    change f w frame w = f w.view frame w
    rw [hsees]
  rw [hview]
  exact bind (onMemory .seeing) hf

theorem sequential : Sequential Exec fun _ x => Obeys L x := ⟨pure, bind⟩

theorem forM {f : α → Exec Unit} (h : ∀ a, Obeys L (f a)) (l : List α) : Obeys L (l.forM f) :=
  sequential.forM h l

theorem forM_option {f : α → Exec Unit} (h : ∀ a, Obeys L (f a)) (o : Option α) :
    Obeys L (o.forM f) :=
  sequential.forM_option h o

theorem mapM {f : α → Exec β} (h : ∀ a, Obeys L (f a)) (l : List α) : Obeys L (l.mapM f) :=
  sequential.mapM h l

theorem mapM_option {f : α → Exec β} (h : ∀ a, Obeys L (f a)) (o : Option α) : Obeys L (o.mapM f) :=
  sequential.mapM_option h o

theorem bindName (name : String) (v : Value) : Obeys L (Lang.bindName name v) := by
  refine bind frame fun f => ?_
  split
  · exact setFrame _
  · exact onMemory (.setSpace _ fun _ => rfl)

theorem unbindName (name : String) : Obeys L (Lang.unbindName name) := by
  refine bind frame fun f => ?_
  split
  · split
    · exact setFrame _
    · exact fail _
  · refine onMemory (.reading (fun w => ?_) fun _ => rfl)
    dsimp only
    split
    · exact .setSpace _ fun _ => rfl
    · exact .of_onData (.fail _)

end Exec.Obeys

/-! ## What comes with the language -/

/-- **Functions** that come with the language obey every law. -/
theorem callBuiltin_obeys (b : Builtin) (a : Arguments) : (Eval.ofOp (callBuiltin b a)).Obeys L := by
  cases b
  case sleep =>
    refine .onMemory (.after (.ofExcept _) fun _ => ?_)
    split
    · exact .newCoroutine _ _
    · exact .of_onData (.fail _)
  case gather => exact .onMemory (.after (.ofExcept _) fun _ => .newCoroutine _ _)
  case createTask => exact L.createTask a
  all_goals exact .onData (callBuiltin_onData a (by rintro ⟨⟩) (by rintro ⟨⟩) (by rintro ⟨⟩))

/-- **Methods** obey every law. -/
theorem callMethod_obeys (receiver : Value) (m : Method) (args : List Value)
    (named : List (String × Value)) : (Eval.ofOp (callMethod receiver m args named)).Obeys L := by
  cases receiver
  case task r =>
    by_cases hm : m = .cancel
    · subst hm
      exact L.cancel r args named
    · exact .onData (.bind (.ofExcept _) fun _ => callTask_onData r _ hm)
  all_goals exact .onData (callMethod_onData (by rintro _ ⟨⟩) m args named)

end Transcript.Lang
