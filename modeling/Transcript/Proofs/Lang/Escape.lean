import Transcript.Proofs.Lang.Tidy

/-!
# Jumps do not escape

Compilation says of a source that no `return` stands outside of functions and no `break` or `continue`
outside of loops. So the body of a compiled source ends normally or by an exception, and the body of a
function that is called while it runs also by a `return`, but by no other jump. What a module or a
function does with an ending that it does not expect, it does with normal ones only.

Results:
* `jumps_stay`: how bodies of sources and of functions end.
-/

namespace Transcript.Lang

/-- **A body that ends normally or by an exception,** whatever the hook, the steps that may nest, the
frame, and the world when it begins and whenever it goes on. -/
def EndsAsModule (body : List Stmt) : Prop :=
  ∀ (onAwait : Frame → Eval Unit) (fuel : Nat) (f : Frame),
    Run.Ends (fun r => r = .ok () ∨ ∃ e, r = .error (.raised e))
      (StateT.run' (execBlock onAwait fuel body) f)

/-- **A body that ends normally, by an exception or by a** `return`, whatever the hook, the steps that may
nest, the frame, and the world when it begins and whenever it goes on. -/
def EndsAsFunction (body : List Stmt) : Prop :=
  ∀ (onAwait : Frame → Eval Unit) (fuel : Nat) (f : Frame),
    Run.Ends (fun r => r = .ok () ∨ (∃ e, r = .error (.raised e)) ∨ ∃ v, r = .error (.exit v))
      (StateT.run' (execBlock onAwait fuel body) f)

/-- **No jump escapes.** The body of a compiled source ends normally or by an exception. While it runs,
from whatever world that comes about, only such worlds come about; and a function that is found in one of
them, because it is called there or because a coroutine begins that was made by a call of it, ends
normally, by an exception or by a `return`. -/
theorem jumps_stay {source : List Char} {filename : String} {mode : Mode} {topLevelAwait : Bool}
    {code : Code} (hcode : compile source filename mode topLevelAwait = .ok code) :
    EndsAsModule code.body ∧
    ∀ w : World, w.ComesAbout →
      (∀ fuel globals, ComesAbout (runModule plainly fuel code globals w)) ∧
      (∀ r g w', functionAt r w = .ok (g, w') → EndsAsFunction g.definition.body) ∧
      ∀ r g locals w', takePending r w = .ok (.call g locals, w') → EndsAsFunction g.definition.body := by
  refine ⟨ends_of_module (compile_scope hcode), fun w hw => ⟨fun fuel globals => ?_, ?_, ?_⟩⟩
  · exact hw.source hcode fuel globals
  · intro r g w' hg
    cases hg
    exact ends_of_function (World.Tidy.function hw.tidy.holds r).scope
  · intro r g locals w' hp
    obtain ⟨c, hc, hp, -⟩ := takePending_eq_ok hp
    have hg : (Pending.call g locals).Tidy Checked := World.Tidy.pending hw.tidy.holds hc hp
    exact ends_of_function hg.scope

/-- A source defines a function with a loop that is left from a final block, and calls it. -/
theorem jumps_stay_final : ∃ code w g w',
    compile ("def f():\n while True:\n  try: return 1\n  finally: break\nf()\n".toList) "<test>" .exec
      false = .ok code ∧
    w.ComesAbout ∧ functionAt 0 w = .ok (g, w') ∧ g.definition.body.length = 1 ∧
    EndsAsModule code.body ∧ EndsAsFunction g.definition.body := by
  have hfacts : (compile ("def f():\n while True:\n  try: return 1\n  finally: break\nf()\n".toList)
      "<test>" .exec false).toOption.any (fun code => (evaluate code 0 .empty).any fun r =>
        (functionAt 0 r.2).toOption.any fun g => g.1.definition.body.length == 1) = true := by
    decide +kernel
  cases hcode : compile ("def f():\n while True:\n  try: return 1\n  finally: break\nf()\n".toList)
      "<test>" .exec false with
  | error e =>
    rw [hcode] at hfacts
    cases hfacts
  | ok code =>
    rw [hcode, Except.toOption, Option.any_some] at hfacts
    cases ho : evaluate code 0 .empty with
    | none =>
      rw [ho] at hfacts
      cases hfacts
    | some r =>
      obtain ⟨o, w⟩ := r
      rw [ho, Option.any_some] at hfacts
      have hw : w.ComesAbout := evaluate_comesAbout hcode .empty ho
      cases hg : functionAt 0 w with
      | error p =>
        rw [hg] at hfacts
        cases hfacts
      | ok x =>
        obtain ⟨g, w'⟩ := x
        rw [hg, Except.toOption, Option.any_some, beq_iff_eq] at hfacts
        exact ⟨code, w, g, w', rfl, hw, hg, hfacts, (jumps_stay hcode).1,
          ((jumps_stay hcode).2 w hw).2.1 0 g w' hg⟩

end Transcript.Lang
