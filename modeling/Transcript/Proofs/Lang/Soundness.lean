import Transcript.Proofs.Lang.Evaluation
import Transcript.Lang.Interpreter

/-!
# Sources that do not wait

Compilation says of a source whether it awaits at its top level. If it does not, then evaluating it
never comes to an await outside of async functions, in whatever state the interpreter is, so it never
waits where nobody could wake it. The exception is defaults of parameters: compilation does not look
at them.

Results:
* `Reached.guarded`: what a host can do keeps the programs of an interpreter such that they await only
  where they may.
* `compile_sound`: a source that compiles to no coroutine does not wait, if no default awaits where it
  must not.
* `awaiting_default_unseen`: a source whose default does.
-/

namespace Transcript.Lang

/-- A hook that stops a program at an await in a frame that must not await. -/
def stopStray (f : Frame) : Eval Unit := if f.mayAwait then pure () else Eval.stop

/-- Whether a hook has stopped a run. -/
def Step.isStopped {α : Type} : Step α → Bool
  | .halt .stopped => true
  | _ => false

/-! ## States of an interpreter -/

/-- **The states that a host can bring an interpreter to,** with the tasks that wait on its open event
loop. In the sources that it compiles no default of a parameter awaits where it must not. -/
inductive Reached : World → Threads → Prop
  /-- The first state. -/
  | empty : Reached .empty []
  /-- A source has been compiled and evaluated. -/
  | evaluate {w w' : World} {threads : Threads} {source : List Char} {filename : String} {mode : Mode}
      {topLevelAwait : Bool} {code : Code} {o : Outcome} (globals : Ref) (h : Reached w threads)
      (hcode : compile source filename mode topLevelAwait = .ok code)
      (hdefaults : blockDefaultStrays code.isCoroutine code.body = false)
      (ho : evaluate code globals w = some (o, w')) : Reached w' threads
  /-- An event loop has been opened. -/
  | new {w w' : World} {threads : Threads} {l : OpenLoop} (h : Reached w threads)
      (hl : OpenLoop.new w = some (l, w')) : Reached w' l.threads
  /-- A value has been awaited on the loop. -/
  | complete {w w' : World} {l l' : OpenLoop} {v : Value} {o : Outcome} (h : Reached w l.threads)
      (ho : l.complete v w = some ((o, l'), w')) : Reached w' l'.threads
  /-- The loop has been closed. -/
  | close {w w' : World} {l : OpenLoop} {u : Unit} (h : Reached w l.threads)
      (hu : l.close w = some (u, w')) : Reached w' []
  /-- The host has changed something itself: anything but the functions and coroutines. -/
  | host {w w' : World} {threads : Threads} (h : Reached w threads)
      (hf : w'.functions = w.functions) (hc : w'.coroutines = w.coroutines) : Reached w' threads

theorem Host.guarded_of_ofEval {α : Type} {m : Bool} {post : α → Prop} {x : Eval α}
    (h : Eval.Agree m post x x) {w w' : World} {o : Except Exc α} (hw : w.Guarded)
    (ho : Host.ofEval x w = some (o, w')) : w'.Guarded := by
  have hx : Step.Agree m _ (x w) (x w) := h w hw
  unfold Host.ofEval at ho
  generalize x w = s at hx ho
  cases hx with
  | done hw' _ =>
    cases ho
    exact hw'
  | wait _ hw' _ =>
    cases ho
    exact hw'.of_eq rfl rfl
  | endless => cases ho

/-- With no hook to feel, every evaluation keeps the programs in order. -/
theorem unfelt_plainly (fuel : Nat) : Unfelt plainly fuel := unfelt (fun _ _ => rfl) fuel

theorem guarded_of_evaluate {code : Code} (hcode : blockStrays code.isCoroutine code.body = false)
    {globals : Ref} {w w' : World} {o : Outcome} (hw : w.Guarded)
    (ho : evaluate code globals w = some (o, w')) : w'.Guarded := by
  unfold evaluate at ho
  split at ho
  · have hpending : (Pending.source code globals).Guarded := hcode
    exact Host.guarded_of_ofEval (.ofOp (m := false) (newCoroutine_guards _ hpending)) hw ho
  · exact Host.guarded_of_ofEval ((unfelt_plainly horizon).runModule code globals hcode) hw ho

/-- **What a host can do** keeps the programs such that they await only where they may. -/
theorem Reached.guarded {w : World} {threads : Threads} (h : Reached w threads) :
    w.Guarded ∧ Threads.Agree threads threads := by
  have hstart (r : Ref) :
      Run.Awaits (runCoroutine plainly horizon r) (runCoroutine plainly horizon r) :=
    ((unfelt_plainly horizon).runCoroutine r).run
  induction h with
  | empty => exact ⟨World.guarded_empty, .nil⟩
  | evaluate _ _ hcode hdefaults ho ih =>
    exact ⟨guarded_of_evaluate ((compile_strays hcode).trans hdefaults) ih.1 ho, ih.2⟩
  | new _ hl ih =>
    cases hl
    exact ⟨ih.1.of_eq rfl rfl, .nil⟩
  | @complete w w' l l' v o _ ho ih =>
    have hroot : Run.Awaits (awaitValue plainly horizon v) (awaitValue plainly horizon v) :=
      ((unfelt_plainly horizon).awaitValue v).run
    have hdrive := driveOn_agree hstart l.ref horizon hroot ih.2 ih.1
    unfold OpenLoop.complete at ho
    generalize driveOn _ _ _ _ _ _ = r at hdrive ho
    cases hdrive with
    | ok h =>
      cases ho
      exact ⟨h.2.2.2, h.2.1⟩
    | endless => cases ho
  | @close w w' l u _ hu ih =>
    have hclose := closeLoop_agree hstart l.ref horizon ih.2 ih.1
    unfold OpenLoop.close at hu
    generalize closeLoop _ _ _ _ _ = r at hclose hu
    cases hclose with
    | ok h =>
      cases hu
      exact ⟨h.2, .nil⟩
    | endless => cases hu
  | host _ hf hc ih => exact ⟨ih.1.of_eq hf hc, ih.2⟩

/-! ## Sources -/

/-- Code that is no coroutine and awaits only where it may does not feel such a hook, and has a result
or no end. -/
theorem runModule_unfelt {code : Code} (hco : code.isCoroutine = false)
    (hcode : blockStrays false code.body = false) {onAwait : Frame → Eval Unit}
    (hook : ∀ f : Frame, f.mayAwait = true → onAwait f = pure ()) (globals : Ref) {w : World}
    (hw : w.Guarded) :
    (∃ r w', runModule onAwait horizon code globals w = .done r w' ∧
        runModule plainly horizon code globals w = .done r w') ∨
      (runModule onAwait horizon code globals w = .halt .endless ∧
        runModule plainly horizon code globals w = .halt .endless) := by
  have hagree := (unfelt hook horizon).runModule code globals (hco ▸ hcode)
  rw [hco] at hagree
  rcases (hagree w hw).of_false with ⟨r, w', honAwait, hplainly, -, -⟩ | h
  · exact .inl ⟨r, w', honAwait, hplainly⟩
  · exact .inr h

/-- **Compilation is sound but for defaults of parameters.** Without leave to await at the top level a
source compiles to no coroutine, and an await is out of place in it only in a default. If code is no
coroutine and no default awaits where it must not, then in every state that an interpreter can be in
the run of the code does not wait, and no hook is felt at awaits outside of async functions: the run
has the result of the evaluation, or both have no end. -/
theorem compile_sound {source : List Char} {filename : String} {mode : Mode} {topLevelAwait : Bool}
    {code : Code} (hcode : compile source filename mode topLevelAwait = .ok code) :
    (topLevelAwait = false →
      code.isCoroutine = false ∧ blockStrays false code.body = blockDefaultStrays false code.body) ∧
    (code.isCoroutine = false → blockDefaultStrays false code.body = false →
      ∀ onAwait : Frame → Eval Unit, (∀ f : Frame, f.mayAwait = true → onAwait f = pure ()) →
        ∀ (globals : Ref) (w : World) (threads : Threads), Reached w threads →
          (∃ r w', runModule onAwait horizon code globals w = .done r w' ∧
            evaluate code globals w = some (r.mapError Exc.ofRaised, w')) ∨
          (runModule onAwait horizon code globals w = .halt .endless ∧
            evaluate code globals w = none)) := by
  have hstrays := compile_strays hcode
  refine ⟨?_, ?_⟩
  · rintro rfl
    have hco := compile_noTopLevelAwait hcode
    rw [hco] at hstrays
    exact ⟨hco, hstrays⟩
  · intro hco hdefaults onAwait hook globals w threads hw
    rw [hco, hdefaults] at hstrays
    have hevaluate : evaluate code globals w =
        Host.ofEval (runModule plainly horizon code globals) w := by
      unfold evaluate
      rw [hco]
      rfl
    rw [hevaluate]
    unfold Host.ofEval
    rcases runModule_unfelt hco hstrays hook globals hw.guarded.1 with
      ⟨r, w', honAwait, hplainly⟩ | ⟨honAwait, hplainly⟩
    · exact .inl ⟨r, w', honAwait, by rw [hplainly]⟩
    · exact .inr ⟨honAwait, by rw [hplainly]⟩

/-- An async function is defined, and defined again in the state that this leads to. -/
theorem compile_sound_async : ∃ code w, Reached w [] ∧ w.functions.size = 1 ∧
    compile "async def f(x=1): await x\n".toList "<test>" .single false = .ok code ∧
    ((∃ r w', runModule stopStray horizon code 0 w = .done r w' ∧
        evaluate code 0 w = some (r.mapError Exc.ofRaised, w')) ∨
      (runModule stopStray horizon code 0 w = .halt .endless ∧ evaluate code 0 w = none)) := by
  have hfacts : (compile "async def f(x=1): await x\n".toList "<test>" .single false).toOption.any
      (fun code => !code.isCoroutine && !blockDefaultStrays false code.body &&
        (evaluate code 0 .empty).any fun r => r.2.functions.size == 1) = true := by decide +kernel
  cases hcode : compile "async def f(x=1): await x\n".toList "<test>" .single false with
  | error e =>
    rw [hcode] at hfacts
    cases hfacts
  | ok code =>
    rw [hcode, Except.toOption, Option.any_some, Bool.and_eq_true, Bool.and_eq_true,
      Bool.not_eq_true', Bool.not_eq_true'] at hfacts
    obtain ⟨⟨hco, hdefaults⟩, hfirst⟩ := hfacts
    cases ho : evaluate code 0 .empty with
    | none =>
      rw [ho] at hfirst
      cases hfirst
    | some r =>
      obtain ⟨o, w⟩ := r
      rw [ho] at hfirst
      have hw : Reached w [] := .evaluate 0 .empty hcode (hco.symm ▸ hdefaults) ho
      have hook (f : Frame) (hf : f.mayAwait = true) : stopStray f = pure () := if_pos hf
      exact ⟨code, w, hw, beq_iff_eq.mp hfirst, rfl,
        (compile_sound hcode).2 hco hdefaults stopStray hook 0 w [] hw⟩

/-- A default that awaits is not seen: the source compiles to no coroutine, but its run comes to an
await in the frame of the module. -/
theorem awaiting_default_unseen : ∃ code,
    compile "def f(x=await y): pass\n".toList "<test>" .single false = .ok code ∧
      code.isCoroutine = false ∧ blockStrays false code.body = true ∧
      (runModule stopStray horizon code 0 .empty).isStopped = true := by
  have hfacts : (compile "def f(x=await y): pass\n".toList "<test>" .single false).toOption.any
      (fun code => !code.isCoroutine && blockStrays false code.body &&
        (runModule stopStray horizon code 0 .empty).isStopped) = true := by decide +kernel
  cases hcode : compile "def f(x=await y): pass\n".toList "<test>" .single false with
  | error e =>
    rw [hcode] at hfacts
    cases hfacts
  | ok code =>
    rw [hcode, Except.toOption, Option.any_some, Bool.and_eq_true, Bool.and_eq_true,
      Bool.not_eq_true'] at hfacts
    exact ⟨code, rfl, hfacts.1.1, hfacts.1.2, hfacts.2⟩

end Transcript.Lang
