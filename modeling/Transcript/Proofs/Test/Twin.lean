import Transcript.Proofs.Lang.TwinEval
import Transcript.Proofs.Test.Trial

/-!
# Test cases of twins

A host runs programs outside of event loops. What it does in worlds that are twins comes to results that are
twins, or to none on both sides: it compiles and evaluates sources, opens event loops, drives them and closes
them.

A test case that is run in two worlds that are twins, by runners with the same configuration, comes to the same
counts and the same report, or ends with failures that are twins, and collects failures that are twins. So both
runs look the same.

Results:
* `Host.Twins.bind`, `Host.Twins.ofEval`: host computations that are twins.
* `Host.Twins.evaluate`: evaluating compiled code.
* `Host.Twins.complete`, `Host.Twins.close`: event loops of hosts.
* `judge_twins`, `runExample_twins`: one example.
* `runExamples_twins`: examples, one after the other.
* `run_twins`: whole runs.
-/

namespace Transcript.Lang

variable {L : Link} {α β γ δ : Type} {R : α → β → Prop} {S : γ → δ → Prop}

/-- **Host computations that are twins.** -/
def Host.Twins (L : Link) (R : α → β → Prop) (x : Host α) (y : Host β) : Prop :=
  ∀ w w', w.TwinsAt L none w' → Option.Rel (fun p q => R p.1 q.1 ∧ p.2.TwinsAt L none q.2) (x w) (y w')

/-- Exceptions that are twins and reach a host. -/
structure Exc.Twins (L : Link) (e e' : Exc) : Prop where
  /-- Without their places they are twins. -/
  raised : e.toRaised.Twins L e'.toRaised
  /-- They have the same place in a source. -/
  place : e'.place = e.place

/-- Outcomes that are twins. -/
abbrev Link.Outcomes (L : Link) : Outcome → Outcome → Prop := Except.Both (Exc.Twins L) (Value.Twins L)

namespace Host.Twins

variable {x : Host α} {y : Host β}

theorem pure {a : α} {b : β} (h : R a b) : Twins L R (Pure.pure a) (Pure.pure b) := fun _ _ hw => .some ⟨h, hw⟩

theorem bind {f : α → Host γ} {g : β → Host δ} (h : Twins L R x y) (hf : ∀ a b, R a b → Twins L S (f a) (g b)) :
    Twins L S (x >>= f) (y >>= g) := by
  intro w w' hw
  have hxy := h w w' hw
  change Option.Rel _ ((x w).bind fun p => f p.1 p.2) ((y w').bind fun q => g q.1 q.2)
  generalize x w = o at hxy ⊢
  generalize y w' = o' at hxy ⊢
  cases hxy with
  | none => exact .none
  | some hpq => exact hf _ _ hpq.1 _ _ hpq.2

theorem modify {f g : World → World} (h : ∀ w w', w.TwinsAt L none w' → (f w).TwinsAt L none (g w')) :
    Twins L (fun _ _ => True) (modify f : Host PUnit) (modify g : Host PUnit) :=
  fun w w' hw => .some ⟨trivial, h w w' hw⟩

/-- What both worlds tell alike. -/
theorem ofOption {f g : World → Option α} (h : ∀ w w', w.TwinsAt L none w' → g w' = f w) :
    Twins L (· = ·) (Host.ofOption f) (Host.ofOption g) := by
  intro w w' hw
  unfold Host.ofOption
  rw [h w w' hw]
  cases f w with
  | none => exact .none
  | some a => exact .some ⟨rfl, hw⟩

theorem ofEval {x : Eval α} {y : Eval β} (h : x.Twins L none R y) :
    Twins L (Except.Both (Exc.Twins L) R) (Host.ofEval x) (Host.ofEval y) := by
  intro w w' hw
  have hxy := h w w' hw
  unfold Host.ofEval
  generalize hx : x w = s
  generalize hy : y w' = s'
  change (x w).Twins L none _ (y w') at hxy
  rw [hx, hy] at hxy
  cases hxy with
  | halt why => exact .none
  | done hr hw' =>
    cases hr with
    | ok hab => exact .some ⟨.ok hab, hw'⟩
    | error he => exact .some ⟨.error ⟨he, rfl⟩, hw'⟩
  | wait _ hw' _ =>
    have hproblem : Problem.Twins L .suspendedOutside .suspendedOutside := .same _ nofun
    refine .some ⟨.error ⟨hproblem.raised hw'.identities.pairs, rfl⟩, ?_⟩
    exact hw'.of_twins hw'.toTwins.fresh rfl rfl rfl rfl (Nat.le_refl _)

/-! ## Sources -/

theorem message {e e' : Exc} (he : e.Twins L e') : Twins L (· = ·) (Host.message e) (Host.message e') :=
  ofOption fun _ _ hw => hw.message he.raised

theorem takeOutput : Twins L (· = ·) Host.takeOutput Host.takeOutput := by
  intro w w' hw
  have houtput : w.output = w'.output := congrArg (fun l => (List.reverse l).flatten) hw.written.symm
  have hempty : World.Twins L { w with written := [] } { w' with written := [] } := { hw.toTwins with written := rfl }
  exact .some ⟨houtput, hw.of_twins hempty rfl rfl rfl rfl (Nat.le_refl _)⟩

theorem setSpace {r r' : Ref} (hr : L.Pairs .space r r') {b b' : Bindings Value} (hb : L.Bound b b') :
    Twins L (fun _ _ => True) (Host.setSpace r b) (Host.setSpace r' b') :=
  modify fun _ _ hw => hw.of_twins (hw.toTwins.setSpace hr hb) rfl rfl rfl rfl (Nat.le_refl _)

theorem compileSource (source : List Char) (filename : String) (mode : Mode) (topLevelAwait : Bool) :
    Twins L (Except.Both (Exc.Twins L) (· = ·)) (Lang.compileSource source filename mode topLevelAwait)
      (Lang.compileSource source filename mode topLevelAwait) := by
  intro w w' hw
  unfold Lang.compileSource
  cases compile source filename mode topLevelAwait with
  | ok code => exact .some ⟨.ok rfl, hw⟩
  | error e =>
    refine .some ⟨.error ⟨⟨rfl, .cons (.str hw.identities.pairs _) .nil⟩, rfl⟩, ?_⟩
    exact hw.of_twins hw.toTwins.fresh rfl rfl rfl rfl (Nat.le_refl _)

/-- **Compiled code** is evaluated alike. -/
theorem evaluate (code : Code) {r r' : Ref} (hr : L.Pairs .space r r') :
    Twins L L.Outcomes (Lang.evaluate code r) (Lang.evaluate code r') := by
  unfold Lang.evaluate
  split
  · exact ofEval (.ofOp (.newCoroutine _ (.source code hr)))
  · exact ofEval ((twinned L horizon).runModule code hr)

/-! ## Event loops -/

end Host.Twins

/-- Open event loops that are twins. -/
structure OpenLoop.Twins (L : Link) (l l' : OpenLoop) : Prop where
  /-- They were made by the runs. -/
  ref : L.Fresh .loop l.ref l'.ref
  /-- Their tasks that wait are twins. -/
  threads : Threads.Twins L (some (l.ref, l'.ref)) l.threads l'.threads

theorem except_toOption {ε ε' : Type} {E : ε → ε' → Prop} {p : Except ε α} {q : Except ε' β}
    (h : Except.Both E R p q) {f : α → γ} {g : β → δ} (hf : ∀ a b, R a b → S (f a) (g b)) :
    Option.Rel S (p.toOption.bind fun a => some (f a)) (q.toOption.bind fun b => some (g b)) := by
  cases h with
  | ok h => exact .some (hf _ _ h)
  | error _ => exact .none

namespace Host.Twins

theorem newLoop : Twins L (OpenLoop.Twins L) OpenLoop.new OpenLoop.new := by
  intro w w' hw
  refine .some ⟨⟨hw.toTwins.newLoop_fresh, .nil⟩, ?_⟩
  exact hw.of_twins hw.toTwins.newLoop rfl rfl rfl rfl (Nat.le_refl _)

/-- How the evaluator starts coroutines. -/
theorem start (place : Option (Ref × Ref)) (c c' : Ref) (hc : L.Pairs .coroutine c c') :
    Run.Twins L place L.Endings (runCoroutine plainly horizon c) (runCoroutine plainly horizon c') :=
  (twinned L horizon).runCoroutine hc

/-- **Values that can be awaited** are driven to their ends. -/
theorem complete {l l' : OpenLoop} (hl : l.Twins L l') {v v' : Value} (hv : v.Twins L v') :
    Twins L (fun p q => L.Outcomes p.1 q.1 ∧ p.2.Twins L q.2) (l.complete v) (l'.complete v') := by
  intro w w' hw
  refine except_toOption (driveOn_twins start hl.ref horizon ((twinned L horizon).awaitValue hv) hl.threads hw)
    fun x y hxy => ?_
  obtain ⟨ho, ht, hw'⟩ := hxy
  refine ⟨⟨?_, hl.ref, ht⟩, hw'⟩
  obtain ⟨o, threads, u⟩ := x
  obtain ⟨o', threads', u'⟩ := y
  cases ho with
  | ok hv => exact .ok hv
  | error he => exact .error ⟨he, rfl⟩

/-- **Event loops** are closed. -/
theorem close {l l' : OpenLoop} (hl : l.Twins L l') : Twins L (fun _ _ => True) l.close l'.close := by
  intro w w' hw
  exact except_toOption (closeLoop_twins start hl.ref horizon hl.threads hw) fun _ _ hw' => ⟨trivial, hw'⟩

end Host.Twins

end Transcript.Lang

namespace Transcript.Test

open Lang

variable {L : Link}

/-! ## Failures -/

/-- **Failures that are twins:** only exceptions have places. -/
inductive Failure.Twins (L : Link) : Failure → Failure → Prop
  | interrupted (test : String) : Twins L (.interrupted test) (.interrupted test)
  | mismatch (location : Location) (e : Session.Example) (got : List Char) (flags : FlagSet) :
      Twins L (.mismatch location e got flags) (.mismatch location e got flags)
  | unexpected (location : Location) (e : Session.Example) {exc exc' : Exc} (h : exc.Twins L exc')
      (traceback : List Char) : Twins L (.unexpected location e exc traceback) (.unexpected location e exc' traceback)

theorem Failure.Twins.report? {f f' : Failure} (h : f.Twins L f') : f'.report? = f.report? := by
  cases h <;> rfl

theorem Failure.Twins.isOfExample {f f' : Failure} (h : f.Twins L f') : f'.isOfExample = f.isOfExample := by
  cases h <;> rfl

/-- Verdicts that are twins. -/
inductive Verdict.Twins (L : Link) : Verdict → Verdict → Prop
  | success : Twins L .success .success
  | interrupt : Twins L .interrupt .interrupt
  | failure {f f' : Failure} (h : f.Twins L f') : Twins L (.failure f) (.failure f')

/-! ## Examples -/

/-- Executors that are twins. -/
abbrev Executor.Twins (L : Link) : Executor → Executor → Prop := Option.Rel (OpenLoop.Twins L)

namespace Executor.Twins

theorem start (execution : Execution) :
    Host.Twins L (Executor.Twins L) (Executor.start execution) (Executor.start execution) := by
  cases execution with
  | immediate => exact .pure .none
  | suspending => exact Host.Twins.newLoop.bind fun l l' hl => .pure (.some hl)

variable {x x' : Executor} (h : Executor.Twins L x x')

include h

theorem runCode (code : Code) {r r' : Ref} (hr : L.Pairs .space r r') :
    Host.Twins L (fun p q => L.Outcomes p.1 q.1 ∧ Executor.Twins L p.2 q.2) (x.runCode code r)
      (x'.runCode code r') := by
  refine (Host.Twins.evaluate code hr).bind fun o o' ho => ?_
  cases ho with
  | error he => exact .pure ⟨.error he, h⟩
  | ok hv =>
    cases h with
    | none => cases code.isCoroutine <;> exact .pure ⟨.ok hv, .none⟩
    | some hl =>
      cases code.isCoroutine with
      | false => exact .pure ⟨.ok hv, .some hl⟩
      | true => exact (Host.Twins.complete hl hv).bind fun p q hpq => .pure ⟨hpq.1, .some hpq.2⟩

theorem runStatement (source : List Char) (filename : String) {r r' : Ref} (hr : L.Pairs .space r r') :
    Host.Twins L (fun p q => L.Outcomes p.1 q.1 ∧ Executor.Twins L p.2 q.2) (x.runStatement source filename r)
      (x'.runStatement source filename r') := by
  unfold Executor.runStatement
  rw [both_isSome h]
  refine (Host.Twins.compileSource _ _ _ _).bind fun c c' hc => ?_
  cases hc with
  | ok hcode => exact hcode ▸ runCode h _ hr
  | error he => exact .pure ⟨.error he, h⟩

theorem finish : Host.Twins L (fun _ _ => True) x.finish x'.finish := by
  cases h with
  | none => exact .pure trivial
  | some hl => exact .close hl

end Executor.Twins

/-- Attempts that are twins. -/
structure Attempt.Twins (L : Link) (a a' : Attempt) : Prop where
  /-- They have written the same. -/
  output : a'.output = a.output
  /-- They have raised twins. -/
  raised : Option.Rel (Exc.Twins L) a.raised a'.raised

theorem reportLines_twins {exc exc' : Exc} (h : exc.Twins L exc') :
    Host.Twins L (· = ·) exc.reportLines exc'.reportLines := by
  refine (Host.Twins.message h).bind fun m m' hm => ?_
  rw [hm, h.place, h.raised.kind]
  exact .pure rfl

theorem traceback_twins {exc exc' : Exc} (h : exc.Twins L exc') (filename : String) :
    Host.Twins L (· = ·) (exc.traceback filename) (exc'.traceback filename) := by
  refine (reportLines_twins h).bind fun ls ls' hls => ?_
  rw [hls, h.place]
  exact .pure rfl

theorem tracebackUnless_twins (quiet : Bool) {exc exc' : Exc} (h : exc.Twins L exc') (filename : String) :
    Host.Twins L (· = ·) (tracebackUnless quiet exc filename) (tracebackUnless quiet exc' filename) := by
  unfold tracebackUnless
  split
  · exact .pure rfl
  · exact traceback_twins h filename

/-- **Attempts that are twins** get verdicts that are. -/
theorem judge_twins (location : Location) (e : Session.Example) (filename : String) (flags : FlagSet)
    (quiet : Bool) {a a' : Attempt} (h : a.Twins L a') :
    Host.Twins L (Verdict.Twins L) (judge location e filename flags quiet a)
      (judge location e filename flags quiet a') := by
  have hraised := h.raised
  unfold judge
  rw [h.output]
  generalize a.raised = o at hraised ⊢
  generalize a'.raised = o' at hraised ⊢
  cases hraised with
  | none =>
    dsimp only
    split
    · exact .pure .success
    · exact .pure (.failure (.mismatch _ _ _ _))
  | @some exc exc' hexc =>
    dsimp only
    rw [hexc.raised.kind]
    split
    · exact .pure .interrupt
    · refine (tracebackUnless_twins quiet hexc filename).bind fun t t' ht => ?_
      subst ht
      split
      · exact .pure (.failure (.unexpected _ _ hexc _))
      · refine (reportLines_twins hexc).bind fun ls ls' hls => ?_
        subst hls
        split
        · exact .pure .success
        · exact .pure (.failure (.mismatch _ _ _ _))

/-- **An example** is run alike. -/
theorem runExample_twins (region : Region) {r r' : Ref} (hr : L.Pairs .space r r') (index : Nat)
    (e : Session.Example) (flags : FlagSet) (quiet : Bool) {x x' : Executor} (hx : Executor.Twins L x x') :
    Host.Twins L (fun p q => p.1.Twins L q.1 ∧ Executor.Twins L p.2 q.2)
      (runExample ⟨region, r⟩ index e flags quiet x) (runExample ⟨region, r'⟩ index e flags quiet x') := by
  refine (Executor.Twins.runStatement hx _ _ hr).bind fun p q hpq => ?_
  obtain ⟨o, x⟩ := p
  obtain ⟨o', x'⟩ := q
  obtain ⟨ho, hx⟩ := hpq
  refine Host.Twins.takeOutput.bind fun t t' ht => ?_
  refine (judge_twins _ e _ flags quiet ⟨ht.symm, ?_⟩).bind fun v v' hv => .pure ⟨hv, hx⟩
  cases ho with
  | ok _ => exact .none
  | error he => exact .some he

/-! ## Progress -/

/-- Progress that is twins. -/
structure Progress.Twins (L : Link) (p p' : Progress) : Prop where
  /-- The counts are the same. -/
  counts : p'.counts = p.counts
  /-- The reports are the same. -/
  written : p'.written = p.written
  /-- The failures kept are twins. -/
  kept : List.Forall₂ (Failure.Twins L) p.kept p'.kept

namespace Progress.Twins

variable {p p' : Progress} (h : p.Twins L p')

include h

theorem write (text : List Char) : (p.write text).Twins L (p'.write text) :=
  { h with written := congrArg (text :: ·) h.written }

theorem writeIf (b : Bool) (text : List Char) : (p.writeIf b text).Twins L (p'.writeIf b text) := by
  unfold Progress.writeIf
  split
  · exact h.write text
  · exact h

theorem attempt : p.attempt.Twins L p'.attempt :=
  { h with counts := congrArg (fun t : Counts => { t with attempted := t.attempted + 1 }) h.counts }

theorem skip : p.skip.Twins L p'.skip :=
  { h with counts := congrArg (fun t : Counts => { t with skipped := t.skipped + 1 }) h.counts }

theorem fail : p.fail.Twins L p'.fail :=
  { h with counts := congrArg (fun t : Counts => { t with failed := t.failed + 1 }) h.counts }

theorem report : p'.report = p.report := congrArg (fun l => (List.reverse l).flatten) h.written

theorem handle (c : Config) {f f' : Failure} (hf : f.Twins L f') :
    Option.Rel (Progress.Twins L) (Test.handle c f p) (Test.handle c f' p') := by
  unfold Test.handle
  split
  · rw [hf.report?]
    exact .some (h.write _)
  · exact .none
  · exact .some { h with kept := .cons hf h.kept }

end Progress.Twins

/-- What comes after examples that are twins. -/
inductive Next.Twins (L : Link) : Next → Next → Prop
  | goOn {p p' : Progress} (h : p.Twins L p') : Twins L (.goOn p) (.goOn p')
  | stop {p p' : Progress} (h : p.Twins L p') : Twins L (.stop p) (.stop p')
  | abort {f f' : Failure} (hf : f.Twins L f') {p p' : Progress} (h : p.Twins L p') :
      Twins L (.abort f p) (.abort f' p')

theorem afterVerdict_twins (c : Config) (test : String) (flags : FlagSet) (quiet : Bool) {v v' : Verdict}
    (hv : v.Twins L v') {p p' : Progress} (h : p.Twins L p') :
    (afterVerdict c test flags quiet v p).Twins L (afterVerdict c test flags quiet v' p') := by
  have hproceed {p p' : Progress} (h : p.Twins L p') :
      Next.Twins L (if 0 < p.counts.failed && flags.has .failFast then .stop p else .goOn p)
        (if 0 < p'.counts.failed && flags.has .failFast then .stop p' else .goOn p') := by
    rw [h.counts]
    split
    · exact .stop h
    · exact .goOn h
  unfold afterVerdict
  cases hv with
  | success => exact hproceed (h.writeIf _ _)
  | interrupt => exact .abort (.interrupted test) h
  | @failure f f' hf =>
    dsimp only
    split
    · exact hproceed h.fail
    · have hhandle := h.handle c hf
      generalize Test.handle c f p = o at hhandle ⊢
      generalize Test.handle c f' p' = o' at hhandle ⊢
      cases hhandle with
      | none => exact .abort hf h
      | some h => exact hproceed h.fail

/-! ## Runs -/

/-- How examples that are twins have ended. -/
abbrev ExamplesEnded (L : Link) (x y : Option Failure × Progress × Executor) : Prop :=
  Option.Rel (Failure.Twins L) x.1 y.1 ∧ x.2.1.Twins L y.2.1 ∧ Executor.Twins L x.2.2 y.2.2

/-- **Examples** are run alike, one after the other. -/
theorem runExamples_twins (c : Config) (region : Region) {r r' : Ref} (hr : L.Pairs .space r r') (index : Nat)
    (es : List Session.Example) {x x' : Executor} (hx : Executor.Twins L x x') {p p' : Progress}
    (hp : p.Twins L p') :
    Host.Twins L (ExamplesEnded L) (runExamples c ⟨region, r⟩ index es x p)
      (runExamples c ⟨region, r'⟩ index es x' p') := by
  induction es generalizing index x x' p p' with
  | nil => exact .pure ⟨.none, hp, hx⟩
  | cons e es ih =>
    unfold runExamples
    dsimp only
    rw [hp.counts]
    split
    · exact ih _ hx ((hp.skip.writeIf _ _).writeIf _ _)
    · refine (runExample_twins region hr index e _ _ hx).bind fun a b hab => ?_
      have hnext := afterVerdict_twins c region.name (e.overrides.apply c.flags)
        ((e.overrides.apply c.flags).has .reportOnlyFirstFailure && decide (0 < p.counts.failed)) hab.1
        (hp.attempt.writeIf (c.isVerbose && !((e.overrides.apply c.flags).has .reportOnlyFirstFailure &&
          decide (0 < p.counts.failed))) (announcement e))
      generalize afterVerdict c region.name _ _ a.1 _ = n at hnext ⊢
      generalize afterVerdict c region.name _ _ b.1 _ = n' at hnext ⊢
      cases hnext with
      | goOn hp => exact ih _ hab.2 hp
      | stop hp => exact .pure ⟨.none, hp, hab.2⟩
      | abort hf hp => exact .pure ⟨.some hf, hp, hab.2⟩

/-- How runs that are twins have ended. -/
structure RunEnded (L : Link) (r r' : Runner) (x y : Conclusion × Runner) : Prop where
  /-- They have the same counts, or failures that are twins. -/
  result : Except.Both (Failure.Twins L) (· = ·) x.1.result y.1.result
  /-- They have the same report. -/
  report : y.1.report = x.1.report
  /-- The failures added are twins. -/
  failures : ∃ added added', List.Forall₂ (Failure.Twins L) added added' ∧ x.2.failures = r.failures ++ added ∧
    y.2.failures = r'.failures ++ added'

/-- **Test cases** are run alike by runners with the same configuration. -/
theorem run_twins {r r' : Runner} (hconfig : r'.config = r.config) (region : Region) {s s' : Ref}
    (hs : L.Pairs .space s s') (clears : Bool) :
    Host.Twins L (RunEnded L r r') (r.run ⟨region, s⟩ clears) (r'.run ⟨region, s'⟩ clears) := by
  obtain ⟨config, ledger, failures⟩ := r
  obtain ⟨config', ledger', failures'⟩ := r'
  change config' = config at hconfig
  subst hconfig
  unfold Runner.run
  refine (Executor.Twins.start _).bind fun x x' hx => ?_
  refine (runExamples_twins config' region hs 0 _ hx ⟨rfl, rfl, .nil⟩).bind fun a b hab => ?_
  obtain ⟨failure, p, x⟩ := a
  obtain ⟨failure', p', x'⟩ := b
  obtain ⟨hfailure, hp, hx⟩ := hab
  dsimp only at hfailure hp hx ⊢
  refine (Executor.Twins.finish hx).bind fun _ _ _ => Host.Twins.takeOutput.bind fun _ _ _ => ?_
  have hadded : List.Forall₂ (Failure.Twins L) p.kept.reverse p'.kept.reverse := List.rel_reverse hp.kept
  have hclears : failure'.any Failure.isOfExample = failure.any Failure.isOfExample := by
    cases hfailure with
    | none => rfl
    | some hf => exact hf.isOfExample
  rw [hclears]
  have hcleared {α β : Type} {R : α → β → Prop} {x : Host α} {y : Host β} (h : Host.Twins L R x y) :
      Host.Twins L R (Host.setSpace s .empty >>= fun _ => x) (Host.setSpace s' .empty >>= fun _ => y) :=
    (Host.Twins.setSpace hs .empty).bind fun _ _ _ => h
  cases hfailure with
  | none =>
    have hended : RunEnded L ⟨config', ledger, failures⟩ ⟨config', ledger', failures'⟩
        (⟨.ok p.counts.tally, p.report⟩,
          ⟨config', ledger.record region.name p.counts.tally, failures ++ p.kept.reverse⟩)
        (⟨.ok p'.counts.tally, p'.report⟩,
          ⟨config', ledger'.record region.name p'.counts.tally, failures' ++ p'.kept.reverse⟩) :=
      ⟨.ok (congrArg Counts.tally hp.counts.symm), hp.report, _, _, hadded, rfl, rfl⟩
    split
    · exact hcleared (.pure hended)
    · exact .pure hended
  | @some f f' hf =>
    have hended : RunEnded L ⟨config', ledger, failures⟩ ⟨config', ledger', failures'⟩
        (⟨.error f, p.report⟩, ⟨config', ledger, failures ++ p.kept.reverse⟩)
        (⟨.error f', p'.report⟩, ⟨config', ledger', failures' ++ p'.kept.reverse⟩) :=
      ⟨.error hf, hp.report, _, _, hadded, rfl, rfl⟩
    split
    · exact hcleared (.pure hended)
    · exact .pure hended

/-- **A run keeps a world its own twin,** if what its test case can get at is part of the link. -/
theorem run_self {r r' : Runner} {case : Case} (hs : L.Pairs .space case.space case.space) {clears : Bool}
    {done : Conclusion} {w w' : World} (hw : w.TwinsAt L none w)
    (h : r.run case clears w = some ((done, r'), w')) : w'.TwinsAt L none w' := by
  have hruns := run_twins (r := r) rfl case.region hs clears w w hw
  change Option.Rel _ (r.run case clears w) (r.run case clears w) at hruns
  rw [h] at hruns
  cases hruns with
  | some hended => exact hended.2

end Transcript.Test
