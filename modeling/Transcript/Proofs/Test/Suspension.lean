import Transcript.Proofs.Lang.Beside
import Transcript.Proofs.Lang.TaskState
import Transcript.Proofs.Test.Handling

/-!
# Runs on an event loop that nobody needs

Where no source of a test case awaits at its top level, its statements compile to the same code with and
without leave to await, and none of them is driven on the event loop of the test case. This loop is idle
then, and all that the examples do they do beside it: so a run whose statements may wait is the same as
one in which they are run at once.

Results:
* `compile_of_awaitsNot`: leave to await changes nothing for a source that does not.
* `runExample_beside`, `runExamples_beside`: examples beside the idle loop.
* `suspension_transparent`: the same for whole runs of test cases.
-/

namespace Transcript

open Lang

/-! ## Hosts beside an idle event loop -/

namespace Lang.Host

variable {α β γ δ : Type} {k : Ref}

/-- **What has become of two host computations,** one of them beside an idle event loop: results that are
related, in the same world but for that loop. -/
structure Left (k : Ref) (R : α → β → Prop) (r : α × World) (s : β × World) : Prop where
  /-- The results are related. -/
  result : R r.1 s.1
  /-- The worlds are the same but for the idle loop. -/
  world : s.2 = r.2.withIdle k
  /-- It is still the turn of the host. -/
  since : ∃ g, Moment.Since k ⟨.program none, r.2, g⟩

/-- **Host computations of which the second does beside an idle event loop what the first one does
without,** whenever it is the turn of the host. -/
def Beside (k : Ref) (R : α → β → Prop) (x : Host α) (y : Host β) : Prop :=
  ∀ w g, Moment.Since k ⟨.program none, w, g⟩ → Option.Rel (Left k R) (x w) (y (w.withIdle k))

namespace Beside

variable {R : α → β → Prop} {S : γ → δ → Prop}

theorem pure {a : α} {b : β} (h : R a b) : Host.Beside k R (Pure.pure a) (Pure.pure b) :=
  fun _ g hw => .some ⟨h, rfl, g, hw⟩

theorem bind {x : Host α} {y : Host β} {f : α → Host γ} {f' : β → Host δ} (h : Host.Beside k R x y)
    (hf : ∀ a b, R a b → Host.Beside k S (f a) (f' b)) : Host.Beside k S (x >>= f) (y >>= f') := by
  intro w g hw
  have hleft := h w g hw
  change Option.Rel _ ((x w).bind fun p => f p.1 p.2) ((y (w.withIdle k)).bind fun p => f' p.1 p.2)
  generalize x w = r at hleft ⊢
  generalize y (w.withIdle k) = s at hleft ⊢
  cases hleft with
  | none => exact .none
  | @some r s h =>
    obtain ⟨hresult, hworld, g', hw'⟩ := h
    rw [Option.bind_some, Option.bind_some, hworld]
    exact hf r.1 s.1 hresult r.2 g' hw'

/-- One that has the same result both times comes first. -/
theorem first {x : Host α} {f : α → Host γ} {f' : α → Host δ} (h : Host.Beside k Eq x x)
    (hf : ∀ a, Host.Beside k S (f a) (f' a)) : Host.Beside k S (x >>= f) (x >>= f') :=
  h.bind fun a _ hab => hab ▸ hf a

/-- What neither sees nor changes tasks and event loops. -/
theorem onMemory {x : Host α} (h : ∀ w, x w = (x w.view).map fun r => (r.1, w.withMemory r.2)) :
    Host.Beside k Eq x x := by
  intro w g hw
  rw [h (w.withIdle k), h w, World.view_withIdle]
  cases x w.view with
  | none => exact .none
  | some r => exact .some ⟨rfl, rfl, g, hw.after (.single (.other rfl rfl rfl rfl))⟩

/-- A form that is read. -/
theorem reading {f : World → Option α} (hsees : ∀ w : World, f w.view = f w) :
    Host.Beside k Eq (ofOption f) (ofOption f) := by
  refine onMemory fun w => ?_
  unfold ofOption
  rw [hsees]
  cases f w with
  | none => rfl
  | some a => rfl

theorem takeOutput : Host.Beside k Eq takeOutput takeOutput := onMemory fun _ => rfl

theorem setSpace (r : Ref) (b : Bindings Value) :
    Host.Beside k Eq (setSpace r b) (setSpace r b) :=
  onMemory fun _ => rfl

/-- **An evaluation** that must not wait. -/
theorem ofEval {x : Eval α} (hacts : x.Acts (.program none))
    (hx : Run.Beside k (.program none) x.run x.run) : Host.Beside k Eq (ofEval x) (ofEval x) := by
  intro w g hw
  have hstep : (x w).Beside k (.program none) (x (w.withIdle k)) := hx w g hw
  have hled : (x w).Acts (.program none) ⟨.program none, w, g⟩ := hacts w g hw.history
  unfold Host.ofEval
  generalize x w = s at hstep hled ⊢
  generalize x (w.withIdle k) = s' at hstep ⊢
  cases hstep with
  | done =>
    cases hled with
    | done hl => exact .some ⟨rfl, rfl, _, hw.after hl⟩
  | wait _ =>
    cases hled with
    | wait hl _ => exact .some ⟨rfl, rfl, _, hw.after (hl.tail (.other rfl rfl rfl rfl))⟩
  | halt => exact .none

end Beside

/-- **Code that is not a coroutine** is evaluated. -/
theorem evaluate_beside {code : Code} (hco : code.isCoroutine = false) (space : Ref) :
    Host.Beside k Eq (evaluate code space) (evaluate code space) := by
  have hrun := (obedient (.ignoring k) horizon).runModule code space none
  unfold evaluate
  rw [hco]
  exact .ofEval hrun.1 hrun.2

theorem reportLines_beside (e : Exc) : Host.Beside k Eq e.reportLines e.reportLines :=
  .first (.reading fun w => w.message?_view e.toRaised) fun _ => .pure rfl

theorem traceback_beside (e : Exc) (filename : String) :
    Host.Beside k Eq (e.traceback filename) (e.traceback filename) :=
  .first (reportLines_beside e) fun _ => .pure rfl

end Lang.Host

namespace Test

/-! ## Sources -/

/-- A source that does not await at its top level, not even with leave to. -/
def AwaitsNot (source : List Char) (filename : String) : Prop :=
  ∀ code, compile source filename .single true = .ok code → code.isCoroutine = false

/-- **A test case of which no source awaits** at its top level. -/
def Case.AwaitsNowhere (case : Case) : Prop :=
  ∀ p ∈ case.region.examples.zipIdx, AwaitsNot p.1.source (statementName case.region.name p.2)

/-- **Leave to await** changes nothing for a source that does not. -/
theorem compile_of_awaitsNot {source : List Char} {filename : String} (h : AwaitsNot source filename) :
    compile source filename .single false = compile source filename .single true := by
  unfold AwaitsNot at h
  unfold compile at h ⊢
  cases hbody : statements source filename with
  | error e => rfl
  | ok body =>
    rw [hbody] at h
    simp only [Except.ok_bind] at h ⊢
    cases hsuits : suits .single body source filename with
    | error e => rfl
    | ok u =>
      rw [hsuits] at h
      simp only [Except.ok_bind] at h ⊢
      cases hscope : blockProblem? .module body with
      | some p => rfl
      | none =>
        rw [hscope] at h
        have hawaits : blockAwaits body = false := by
          refine h ⟨filename, .single, blockAwaits body, body⟩ (if_neg ?_)
          simp
        dsimp only
        rw [hawaits]
        rfl

/-! ## Examples -/

section

variable {k : Ref}

/-- The event loop of a test case, while nothing is driven on it. -/
def idleLoop (k : Ref) : OpenLoop := ⟨k, []⟩

/-- The same results, one of them with no event loop and the other one with an idle one. -/
def OnIdle {α : Type} (k : Ref) (a b : α × Executor) : Prop :=
  b = (a.1, some (idleLoop k)) ∧ a.2 = none

/-- Code that is no coroutine is evaluated, whatever runs it. -/
theorem runCode_of_plain {code : Code} (hco : code.isCoroutine = false) (x : Executor) (space : Ref) :
    x.runCode code space = (do let o ← evaluate code space; return (o, x)) := by
  unfold Executor.runCode
  rw [hco]
  refine bind_congr fun o => ?_
  cases o with
  | error e => rfl
  | ok v => rfl

theorem runCode_beside {code : Code} (hco : code.isCoroutine = false) (space : Ref) :
    Host.Beside k (OnIdle k) (Executor.runCode none code space)
      (Executor.runCode (some (idleLoop k)) code space) := by
  rw [runCode_of_plain hco, runCode_of_plain hco]
  exact .first (Host.evaluate_beside hco space) fun _ => .pure ⟨rfl, rfl⟩

/-- A source that does not await at its top level is compiled to code that is no coroutine. -/
theorem compileSource_beside {source : List Char} {filename : String} (h : AwaitsNot source filename) :
    Host.Beside k (fun r r' => r' = r ∧ ∀ code, r = .ok code → code.isCoroutine = false)
      (compileSource source filename .single false) (compileSource source filename .single true) := by
  intro w g hw
  unfold compileSource
  rw [compile_of_awaitsNot h]
  cases hcode : compile source filename .single true with
  | ok code =>
    refine .some ⟨⟨rfl, ?_⟩, rfl, g, hw⟩
    rintro _ ⟨⟩
    exact h code hcode
  | error e =>
    refine .some ⟨⟨rfl, ?_⟩, rfl, g, hw.after (.single (.other rfl rfl rfl rfl))⟩
    rintro _ ⟨⟩

/-- **A statement** that does not await at its top level. -/
theorem runStatement_beside {source : List Char} {filename : String} (h : AwaitsNot source filename)
    (space : Ref) :
    Host.Beside k (OnIdle k) (Executor.runStatement none source filename space)
      (Executor.runStatement (some (idleLoop k)) source filename space) := by
  refine .bind (compileSource_beside h) ?_
  rintro _ r ⟨rfl, hco⟩
  cases r with
  | ok code => exact runCode_beside (hco code rfl) space
  | error e => exact .pure ⟨rfl, rfl⟩

theorem tracebackUnless_beside (quiet : Bool) (exc : Exc) (filename : String) :
    Host.Beside k Eq (tracebackUnless quiet exc filename) (tracebackUnless quiet exc filename) := by
  unfold tracebackUnless
  split
  · exact .pure rfl
  · exact Host.traceback_beside exc filename

theorem judge_beside (location : Location) (e : Session.Example) (filename : String) (flags : FlagSet)
    (quiet : Bool) (a : Attempt) :
    Host.Beside k Eq (judge location e filename flags quiet a)
      (judge location e filename flags quiet a) := by
  unfold judge
  cases a.raised with
  | none =>
    dsimp only
    split
    · exact .pure rfl
    · exact .pure rfl
  | some exc =>
    dsimp only
    split
    · exact .pure rfl
    · refine .first (tracebackUnless_beside quiet exc filename) fun traceback => ?_
      cases e.message with
      | none => exact .pure rfl
      | some want =>
        refine .first (Host.reportLines_beside exc) fun lines => ?_
        split
        · exact .pure rfl
        · exact .pure rfl

/-- **An example** whose source does not await at its top level. -/
theorem runExample_beside {case : Case} {index : Nat} {e : Session.Example}
    (h : AwaitsNot e.source (statementName case.region.name index)) (flags : FlagSet) (quiet : Bool) :
    Host.Beside k (OnIdle k) (runExample case index e flags quiet none)
      (runExample case index e flags quiet (some (idleLoop k))) := by
  refine .bind (runStatement_beside h case.space) ?_
  rintro ⟨o, x⟩ _ ⟨rfl, hx⟩
  refine .first .takeOutput fun output => .first (judge_beside _ _ _ _ _ _) fun verdict => ?_
  exact .pure ⟨rfl, hx⟩

/-! ## Whole runs -/

/-- A way of running test cases, but for how statements are run. -/
def Config.executing (c : Config) (how : Execution) : Config := { c with execution := how }

/-- Examples are run in the same way, whatever runs the statements. -/
theorem runExamples_executing (c : Config) (how : Execution) (case : Case) (index : Nat)
    (es : List Session.Example) (x : Executor) (p : Progress) :
    runExamples (c.executing how) case index es x p = runExamples c case index es x p := by
  induction es generalizing index x p with
  | nil => rfl
  | cons e es ih =>
    unfold runExamples
    simp only [ih]
    rfl

/-- **The examples of a test case,** none of which awaits at the top level of its source. -/
theorem runExamples_beside (c : Config) {case : Case} {index : Nat} {es : List Session.Example}
    (hes : ∀ p ∈ es.zipIdx index, AwaitsNot p.1.source (statementName case.region.name p.2))
    (p : Progress) :
    Host.Beside k (fun a b => b = (a.1, a.2.1, some (idleLoop k)) ∧ a.2.2 = none)
      (runExamples c case index es none p) (runExamples c case index es (some (idleLoop k)) p) := by
  induction es generalizing index p with
  | nil => exact .pure ⟨rfl, rfl⟩
  | cons e es ih =>
    rw [List.zipIdx_cons, List.forall_mem_cons] at hes
    unfold runExamples
    dsimp only
    split
    · exact ih hes.2 _
    · refine .bind (runExample_beside hes.1 _ _) ?_
      rintro ⟨v, x⟩ _ ⟨rfl, rfl⟩
      dsimp only
      split
      · exact ih hes.2 _
      · exact .pure ⟨rfl, rfl⟩
      · exact .pure ⟨rfl, rfl⟩

/-- **To end a test case** whose event loop is idle, nothing is done. -/
theorem finish_beside :
    Host.Beside k Eq (Executor.finish none) (Executor.finish (some (idleLoop k))) := by
  intro w g hw
  have hclose : Executor.finish (some (idleLoop k)) (w.withIdle k) = some ((), w.withIdle k) := by
    unfold Executor.finish OpenLoop.close idleLoop
    dsimp only
    rw [closeLoop_idle]
    rfl
  rw [hclose]
  exact .some ⟨rfl, rfl, g, hw⟩

end

/-- A runner that runs statements in a given way. -/
def Runner.executing (r : Runner) (how : Execution) : Runner :=
  { r with config := r.config.executing how }

/-- **A run of a test case** with an event loop that is idle, beside one that has none. -/
theorem run_beside {case : Case} (hcase : case.AwaitsNowhere) (r : Runner) (clears : Bool) {w : World}
    {g : Lang.Ledger} (h : History ⟨.program none, w, g⟩) :
    Option.Rel (Host.Left w.loops.size fun a b => b = (a.1, a.2.executing .suspending))
      ((r.executing .immediate).run case clears w) ((r.executing .suspending).run case clears w) := by
  have himmediate : Executor.start .immediate w = some (none, w) := rfl
  have hsuspending : Executor.start .suspending w =
      some (some (idleLoop w.loops.size), w.withIdle w.loops.size) := by
    rw [← newLoop_eq_withIdle h]
    rfl
  have hexamples : Host.Beside w.loops.size
      (fun a b => b = (a.1, a.2.1, some (idleLoop w.loops.size)) ∧ a.2.2 = none)
      (runExamples (r.config.executing .immediate) case 0 case.region.examples none .zero)
      (runExamples (r.config.executing .suspending) case 0 case.region.examples
        (some (idleLoop w.loops.size)) .zero) := by
    rw [runExamples_executing, runExamples_executing]
    exact runExamples_beside r.config hcase .zero
  change Option.Rel _ ((Executor.start .immediate >>= _) w) ((Executor.start .suspending >>= _) w)
  rw [Host.bind_of_some himmediate, Host.bind_of_some hsuspending]
  refine Host.Beside.bind hexamples ?_ w g ⟨h, Nat.le_refl _⟩
  rintro ⟨failure, p, x⟩ _ ⟨rfl, rfl⟩
  refine .bind finish_beside fun _ _ _ => .first .takeOutput fun _ => ?_
  dsimp only
  split
  · refine .first (.setSpace case.space .empty) fun _ => ?_
    cases failure with
    | none => exact .pure rfl
    | some f => exact .pure rfl
  · cases failure with
    | none => exact .pure rfl
    | some f => exact .pure rfl

/-- **Runs of a test case that are the same,** but for an idle event loop in the world of the second one. -/
structure SameButLoop (k : Ref) (a b : (Conclusion × Runner) × World) : Prop where
  /-- They have the same result. -/
  result : b.1.1.result = a.1.1.result
  /-- They have the same report. -/
  report : b.1.1.report = a.1.1.report
  /-- The same failures are collected. -/
  failures : b.1.2.failures = a.1.2.failures
  /-- The same results are recorded. -/
  ledger : b.1.2.ledger = a.1.2.ledger
  /-- They leave the same namespaces. -/
  spaces : b.2.spaces = a.2.spaces
  /-- They leave the same world but for the idle loop. -/
  world : b.2 = a.2.withIdle k

/-- **Suspension is transparent.** Whatever the test case, as long as no source of it awaits at its top
level, whatever the runner with its flags and its way of handling failures, and in every state that a host
brings about: a run of the test case that runs statements at once and one whose statements may wait both
have no end, or they are the same. -/
theorem suspension_transparent {case : Case} (hcase : case.AwaitsNowhere) (r : Runner) (clears : Bool)
    {w : World} {loops : List OpenLoop} (hw : Hosted w loops) :
    Option.Rel (SameButLoop w.loops.size) ((r.executing .immediate).run case clears w)
      ((r.executing .suspending).run case clears w) := by
  obtain ⟨g, h, -⟩ := hw.history
  have hruns := run_beside hcase r clears h
  generalize (r.executing .immediate).run case clears w = x at hruns ⊢
  generalize (r.executing .suspending).run case clears w = y at hruns ⊢
  cases hruns with
  | none => exact .none
  | @some a b hleft =>
    obtain ⟨⟨conclusion, runner⟩, w'⟩ := a
    obtain ⟨made, w''⟩ := b
    obtain ⟨hmade, hworld, -⟩ := hleft
    dsimp only at hmade hworld
    subst hmade hworld
    exact .some ⟨rfl, rfl, rfl, rfl, rfl, rfl⟩

/-- Four examples, the third of which drives a coroutine on an event loop of its own. The last one raises,
since there is no loop to create a task on, not even where one is kept for the test case. -/
theorem suspension_transparent_raising : ∃ case w r a b, Case.AwaitsNowhere case ∧ Hosted w [] ∧
    (Runner.executing r .immediate).run case true w = some a ∧
    (r.executing .suspending).run case true w = some b ∧ SameButLoop w.loops.size a b ∧
    a.1.2.failures.length = 1 := by
  let text := ">>> import asyncio\n>>> async def f():\n...     return 8\n" ++
    ">>> asyncio.run(f())\n8\n>>> asyncio.create_task(f())\n"
  let r : Runner := .new ⟨.empty, false, .collect, .immediate⟩
  let w : World := (World.empty.newSpace .empty).2
  have hfacts : (Region.ofText text.toList "t" "t.rst" 1).toOption.any (fun region =>
      region.examples.zipIdx.all (fun p =>
        (compile p.1.source (statementName region.name p.2) .single true).toOption.all
          fun code => !code.isCoroutine) &&
      ((r.executing .immediate).run ⟨region, 0⟩ true w).any
        fun a => a.1.2.failures.length == 1) = true := by
    rw [String.toList_append, String.toList_ofList, String.toList_ofList]
    decide +kernel
  obtain ⟨region, -, hfacts⟩ := (Option.any_eq_true _ _).mp hfacts
  rw [Bool.and_eq_true] at hfacts
  obtain ⟨hawaits, hruns⟩ := hfacts
  obtain ⟨a, ha, hfailures⟩ := (Option.any_eq_true _ _).mp hruns
  have hcase : Case.AwaitsNowhere ⟨region, 0⟩ := by
    intro p hp code hcode
    have hplain := List.all_eq_true.mp hawaits p hp
    rw [hcode, Except.toOption, Option.all_some, Bool.not_eq_true'] at hplain
    exact hplain
  have hw : Hosted w [] := .host .empty rfl rfl rfl rfl
  have hsame := suspension_transparent hcase r true hw
  rw [ha] at hsame
  cases hb : (r.executing .suspending).run ⟨region, 0⟩ true w with
  | none =>
    rw [hb] at hsame
    cases hsame
  | some b =>
    rw [hb] at hsame
    cases hsame with
    | some hsame => exact ⟨⟨region, 0⟩, w, r, a, b, hcase, hw, ha, hb, hsame, eq_of_beq hfailures⟩

end Test

end Transcript
