import Transcript.Proofs.Except
import Transcript.Proofs.Test.Trial
import Mathlib.Data.Option.Basic

/-!
# Runs that handle failures differently

What is done with failing examples decides what a run shows, keeps and how far it goes, but not what its
examples do: the statements, the worlds they leave and the counts are the same as long as both runs go
on. So a run that reports its failures and one that collects them are the same run told in two ways, and
one that ends with a failure is the beginning of both.

Results:
* `runExamples_reports`: reporting failures and collecting them, side by side.
* `runExamples_stops`: a run that ends with a failure is the beginning of one that collects them.
* `modes_agree`: the same for whole runs of test cases.
* `first_failure_not_returned`: where such a run has no end, though it has its failure.
-/

namespace Transcript

open Lang

/-! ## Host computations that agree -/

/-- **Host computations that do the same** to every world, with results that are related. -/
def Lang.Host.Agree {α β : Type} (R : α → β → Prop) (x : Host α) (y : Host β) : Prop :=
  ∀ w, Option.Rel (fun r s => R r.1 s.1 ∧ s.2 = r.2) (x w) (y w)

namespace Lang.Host.Agree

variable {α β γ δ : Type} {R : α → β → Prop} {S : γ → δ → Prop}

theorem pure {a : α} {b : β} (h : R a b) : Host.Agree R (Pure.pure a) (Pure.pure b) :=
  fun _ => .some ⟨h, rfl⟩

theorem bind {x : Host α} {y : Host β} {f : α → Host γ} {g : β → Host δ} (h : Host.Agree R x y)
    (hf : ∀ a b, R a b → Host.Agree S (f a) (g b)) : Host.Agree S (x >>= f) (y >>= g) := by
  intro w
  have hw := h w
  change Option.Rel _ ((x w).bind fun p => f p.1 p.2) ((y w).bind fun p => g p.1 p.2)
  generalize x w = r at hw ⊢
  generalize y w = s at hw ⊢
  cases hw with
  | none => exact .none
  | @some r s h =>
    obtain ⟨hr, hs⟩ := h
    rw [Option.bind_some, Option.bind_some, hs]
    exact hf r.1 s.1 hr r.2

theorem mono {R' : α → β → Prop} {x : Host α} {y : Host β} (h : Host.Agree R x y)
    (hR : ∀ a b, R a b → R' a b) : Host.Agree R' x y := by
  intro w
  have hw := h w
  generalize x w = r at hw ⊢
  generalize y w = s at hw ⊢
  cases hw with
  | none => exact .none
  | some h => exact .some ⟨hR _ _ h.1, h.2⟩

/-- Both begin with the same. -/
theorem after {x : Host α} {f : α → Host γ} {g : α → Host δ}
    (hf : ∀ a w w', x w = some (a, w') → Host.Agree S (f a) (g a)) :
    Host.Agree S (x >>= f) (x >>= g) := by
  intro w
  change Option.Rel _ ((x w).bind fun p => f p.1 p.2) ((x w).bind fun p => g p.1 p.2)
  cases hx : x w with
  | none => exact .none
  | some r => exact hf r.1 w r.2 hx r.2

end Lang.Host.Agree

namespace Test

/-- A way of running test cases, but for what is done with failing examples. -/
def Config.handled (c : Config) (h : Handling) : Config := { c with handling := h }

/-- The reports of failures, one after the other. -/
def reports (fs : List Failure) : List Char := fs.flatMap fun f => f.report?.getD []

/-! ## Reporting and collecting -/

/-- **A progress that reports what another one keeps,** with the same counts. What else is reported does
not count. -/
structure Progress.Reports (verbose : Bool) (p q : Progress) : Prop where
  /-- The counts are the same. -/
  counts : q.counts = p.counts
  /-- The report is that of the failures kept. -/
  report : verbose = false → p.report = reports q.kept.reverse
  /-- The failures kept have a report. -/
  shown : ∀ f ∈ q.kept, f.isOfExample = true

namespace Progress.Reports

variable {verbose : Bool} {p q : Progress}

theorem zero : Progress.zero.Reports verbose .zero := ⟨rfl, fun _ => rfl, List.forall_mem_nil _⟩

theorem attempt (h : p.Reports verbose q) : p.attempt.Reports verbose q.attempt :=
  ⟨congrArg (fun t => { t with attempted := t.attempted + 1 }) h.counts, h.report, h.shown⟩

theorem skip (h : p.Reports verbose q) : p.skip.Reports verbose q.skip :=
  ⟨congrArg (fun t => { t with skipped := t.skipped + 1 }) h.counts, h.report, h.shown⟩

theorem fail (h : p.Reports verbose q) : p.fail.Reports verbose q.fail :=
  ⟨congrArg (fun t => { t with failed := t.failed + 1 }) h.counts, h.report, h.shown⟩

/-- What is reported of examples that do not fail. -/
theorem writeIf (h : p.Reports verbose q) (quiet : Bool) (text : List Char) :
    (p.writeIf (verbose && !quiet) text).Reports verbose (q.writeIf (verbose && !quiet) text) where
  counts := by
    rw [counts_writeIf, counts_writeIf]
    exact h.counts
  report hverbose := by
    subst hverbose
    exact h.report rfl
  shown := by
    rw [kept_writeIf]
    exact h.shown

/-- A failure is reported by one and kept by the other. -/
theorem handle (h : p.Reports verbose q) {f : Failure} (hf : f.isOfExample = true) :
    (p.write (f.report?.getD [])).Reports verbose { q with kept := f :: q.kept } where
  counts := h.counts
  report hverbose := by
    have hwrite : (p.write (f.report?.getD [])).report = p.report ++ f.report?.getD [] := by
      simp [Progress.report, Progress.write]
    rw [hwrite, h.report hverbose]
    simp [reports]
  shown := List.forall_mem_cons.mpr ⟨hf, h.shown⟩

end Progress.Reports

/-- Next steps that are the same, with progress that is related. -/
inductive Next.Agree (R : Progress → Progress → Prop) : Next → Next → Prop
  | goOn {p q : Progress} (h : R p q) : Agree R (.goOn p) (.goOn q)
  | stop {p q : Progress} (h : R p q) : Agree R (.stop p) (.stop q)
  | abort {p q : Progress} (f : Failure) (h : R p q) : Agree R (.abort f p) (.abort f q)

/-- **After an example,** a run that reports failures and one that collects them go on in the same way. -/
theorem afterVerdict_reports (c : Config) (test : String) (flags : FlagSet) (quiet : Bool) {v : Verdict}
    (hv : ∀ f, v = .failure f → f.isOfExample = true) {p q : Progress}
    (h : p.Reports c.isVerbose q) :
    Next.Agree (Progress.Reports c.isVerbose)
      (afterVerdict (c.handled .report) test flags quiet v p)
      (afterVerdict (c.handled .collect) test flags quiet v q) := by
  have hproceed {p q : Progress} (h : p.Reports c.isVerbose q) :
      Next.Agree (Progress.Reports c.isVerbose)
        (if 0 < p.counts.failed && flags.has .failFast then .stop p else .goOn p)
        (if 0 < q.counts.failed && flags.has .failFast then .stop q else .goOn q) := by
    rw [h.counts]
    split
    · exact .stop h
    · exact .goOn h
  cases v with
  | success => exact hproceed (h.writeIf _ _)
  | interrupt => exact .abort _ h
  | failure f =>
    cases quiet with
    | true => exact hproceed h.fail
    | false => exact hproceed (h.handle (hv f rfl)).fail

/-- **The examples of two runs,** one of which reports failures while the other one collects them. -/
theorem runExamples_reports (c : Config) (case : Case) (index : Nat) (es : List Session.Example)
    (x : Executor) {p q : Progress} (h : p.Reports c.isVerbose q) :
    Host.Agree (fun a b => b.1 = a.1 ∧ a.2.1.Reports c.isVerbose b.2.1 ∧ b.2.2 = a.2.2)
      (runExamples (c.handled .report) case index es x p)
      (runExamples (c.handled .collect) case index es x q) := by
  induction es generalizing index x p q with
  | nil => exact .pure ⟨rfl, h, rfl⟩
  | cons e es ih =>
    unfold runExamples
    dsimp only [Config.handled]
    rw [h.counts]
    generalize ((e.overrides.apply c.flags).has .reportOnlyFirstFailure && 0 < p.counts.failed) = quiet
    split
    · exact ih _ _ ((h.skip.writeIf _ _).writeIf _ _)
    · refine .after fun ran w w' hran => ?_
      obtain ⟨v, x⟩ := ran
      have hv : ∀ f, v = .failure f → f.isOfExample = true := by
        rintro f rfl
        exact runExample_failure hran
      have hnext := afterVerdict_reports c case.region.name (e.overrides.apply c.flags) quiet hv
        (h.attempt.writeIf quiet (announcement e))
      dsimp only [Config.handled] at hnext ⊢
      generalize afterVerdict _ _ _ _ v (p.attempt.writeIf _ _) = n at hnext ⊢
      generalize afterVerdict _ _ _ _ v (q.attempt.writeIf _ _) = m at hnext ⊢
      cases hnext with
      | goOn h => exact ih _ _ h
      | stop h => exact .pure ⟨rfl, h, rfl⟩
      | abort f h => exact .pure ⟨rfl, h, rfl⟩

/-! ## Ending with a failure -/

/-- What comes after an example that was run. -/
def comeNext (c : Config) (case : Case) (index : Nat) (es : List Session.Example) (x : Executor) :
    Next → Host (Option Failure × Progress × Executor)
  | .goOn p => runExamples c case index es x p
  | .stop p => return (none, p, x)
  | .abort f p => return (some f, p, x)

/-- What has become of the examples of a run, if they have come to an end. -/
abbrev Ran := Option ((Option Failure × Progress × Executor) × World)

/-- **Examples that end with a failure,** beside those of which all failures are collected. -/
inductive Ran.Stops (kept : List Failure) : Ran → Ran → Prop
  /-- No failure is kept, and both are the same. -/
  | same {r : Ran} (h : ∀ a ∈ r, a.1.2.1.kept = kept) : Stops kept r r
  /-- The first failure that is kept has ended the others. -/
  | first {r : Ran} {f : Failure} {p : Progress} {x : Executor} {w : World}
      (hf : f.isOfExample = true)
      (h : ∀ a ∈ r, ∃ fs, a.1.2.1.kept.reverse = kept.reverse ++ f :: fs) :
      Stops kept (some ((some f, p, x), w)) r

section

variable {c : Config} {case : Case} {index : Nat} {es : List Session.Example} {x : Executor}
  {p : Progress} {w : World}

/-- A failure that is shown is the first one that is kept. -/
theorem comeNext_failure {test : String} {flags : FlagSet} {f : Failure}
    {a : (Option Failure × Progress × Executor) × World}
    (h : comeNext (c.handled .collect) case index es x
      (afterVerdict (c.handled .collect) test flags false (.failure f) p) w = some a) :
    ∃ fs, a.1.2.1.kept.reverse = p.kept.reverse ++ f :: fs := by
  let q : Progress := Progress.fail { p with kept := f :: p.kept }
  have hkept : q.kept.reverse = p.kept.reverse ++ [f] := List.reverse_cons
  have hnext : afterVerdict (c.handled .collect) test flags false (.failure f) p =
      if 0 < q.counts.failed && flags.has .failFast then .stop q else .goOn q := rfl
  rw [hnext] at h
  split at h
  · cases h
    exact ⟨[], hkept⟩
  · obtain ⟨ts, -, -, -, hlater⟩ := runExamples_trials rfl h
    rw [hkept, List.append_assoc] at hlater
    exact ⟨_, hlater⟩

/-- After an example, if the next ones are as they should be. -/
theorem comeNext_stops {test : String} {flags : FlagSet} {v : Verdict}
    (ih : ∀ {index : Nat} {x : Executor} {p : Progress} {w : World}, p.counts.failed = 0 →
      Ran.Stops p.kept (runExamples (c.handled .stop) case index es x p w)
        (runExamples (c.handled .collect) case index es x p w))
    (hp : p.counts.failed = 0) (hv : ∀ f, v = .failure f → f.isOfExample = true) :
    Ran.Stops p.kept
      (comeNext (c.handled .stop) case index es x
        (afterVerdict (c.handled .stop) test flags false v p) w)
      (comeNext (c.handled .collect) case index es x
        (afterVerdict (c.handled .collect) test flags false v p) w) := by
  cases v with
  | success =>
    let q := p.writeIf (c.isVerbose && !false) "ok\n".toList
    have hfailed : q.counts.failed = 0 := (congrArg Counts.failed (p.counts_writeIf _ _)).trans hp
    have hnext (h : Handling) : afterVerdict (c.handled h) test flags false .success p = .goOn q := by
      have hproceed : afterVerdict (c.handled h) test flags false .success p =
          if 0 < q.counts.failed && flags.has .failFast then .stop q else .goOn q := rfl
      rw [hproceed, hfailed]
      rfl
    rw [hnext, hnext, ← p.kept_writeIf (c.isVerbose && !false) "ok\n".toList]
    exact ih hfailed
  | interrupt => exact .same fun a ha => by cases ha; rfl
  | failure f => exact .first (hv f rfl) fun a ha => comeNext_failure ha

/-- **A run that ends with a failure** does the same as one that collects failures, up to the first one
that this one keeps. -/
theorem runExamples_stops (hp : p.counts.failed = 0) :
    Ran.Stops p.kept (runExamples (c.handled .stop) case index es x p w)
      (runExamples (c.handled .collect) case index es x p w) := by
  induction es generalizing index x p w with
  | nil => exact .same fun a ha => by cases ha; rfl
  | cons e es ih =>
    unfold runExamples
    dsimp only [Config.handled]
    -- No example has failed so far, so none is passed over in silence.
    have hquiet : ((e.overrides.apply c.flags).has .reportOnlyFirstFailure && 0 < p.counts.failed) =
        false := by
      rw [hp]
      exact Bool.and_false _
    rw [hquiet]
    split
    · generalize hskip : (p.skip.writeIf (c.isVerbose && !false) (announcement e)).writeIf
        (c.isVerbose && !false) "skipped\n".toList = q
      have hfailed : q.counts.failed = 0 := by
        rw [← hskip, Progress.counts_writeIf, Progress.counts_writeIf]
        exact hp
      have hkept : q.kept = p.kept := by
        rw [← hskip, Progress.kept_writeIf, Progress.kept_writeIf]
        rfl
      rw [← hkept]
      exact ih hfailed
    · generalize hattempt : p.attempt.writeIf (c.isVerbose && !false) (announcement e) = q
      have hfailed : q.counts.failed = 0 := by rw [← hattempt, Progress.counts_writeIf]; exact hp
      have hkept : q.kept = p.kept := by rw [← hattempt, Progress.kept_writeIf]; rfl
      rw [← hkept]
      cases hran : runExample case index e (e.overrides.apply c.flags) false x w with
      | none =>
        rw [Host.bind_of_none hran, Host.bind_of_none hran]
        exact .same fun a ha => by cases ha
      | some r =>
        obtain ⟨⟨v, x₁⟩, w₁⟩ := r
        rw [Host.bind_of_some hran, Host.bind_of_some hran]
        exact comeNext_stops ih hfailed (by rintro f rfl; exact runExample_failure hran)

end

/-! ## Whole runs -/

/-- What a fresh runner does with a test case. -/
def runFresh (c : Config) (case : Case) (clears : Bool) : Host (Conclusion × Runner) := do
  let r ← Runner.start c
  r.run case clears

/-- What it does with the examples. -/
def runAllExamples (c : Config) (case : Case) : Host (Option Failure × Progress × Executor) := do
  modify World.freshInterpreter
  let x ← Executor.start c.execution
  runExamples c case 0 case.region.examples x .zero

/-- Getting ready does not depend on what is done with failing examples. -/
theorem exists_start (c : Config) (case : Case) (w : World) : ∃ x w₁,
    (c.execution = .immediate → x = none) ∧
    ∀ h, runAllExamples (c.handled h) case w =
      runExamples (c.handled h) case 0 case.region.examples x .zero w₁ := by
  obtain ⟨flags, isVerbose, handling, execution⟩ := c
  cases execution with
  | immediate => exact ⟨none, _, fun _ => rfl, fun _ => rfl⟩
  | suspending => exact ⟨some ⟨w.loops.size, []⟩, _, (fun h => nomatch h), fun _ => rfl⟩

/-- What it makes of them: what came out, and what it keeps. -/
def madeOf (c : Config) (case : Case) (a : Option Failure × Progress × Executor) : Conclusion × Runner :=
  let (failure, p, _) := a
  match failure with
  | some f => (⟨.error f, p.report⟩, ⟨c, .empty, p.kept.reverse⟩)
  | none =>
    (⟨.ok p.counts.tally, p.report⟩, ⟨c, Ledger.record .empty case.region.name p.counts.tally, p.kept.reverse⟩)

/-- What it does after the examples. -/
def concludeRun (c : Config) (case : Case) (clears : Bool)
    (a : Option Failure × Progress × Executor) : Host (Conclusion × Runner) := do
  a.2.2.finish
  let _ ← Host.takeOutput
  if clears && !a.1.any Failure.isOfExample then Host.setSpace case.space .empty
  return madeOf c case a

theorem runFresh_eq (c : Config) (case : Case) (clears : Bool) :
    runFresh c case clears = runAllExamples c case >>= concludeRun c case clears := by
  unfold runFresh Runner.start Runner.run runAllExamples
  simp only [bind_assoc, pure_bind]
  refine bind_congr fun _ => bind_congr fun x => bind_congr fun a => ?_
  obtain ⟨failure, p, x⟩ := a
  cases failure with
  | none => rfl
  | some f => rfl

/-- Two runs conclude in the same way whose examples have ended so. -/
theorem concludeRun_agree {R : Conclusion × Runner → Conclusion × Runner → Prop} {c d : Config}
    {case : Case} {clears : Bool} {a b : Option Failure × Progress × Executor} (hfailure : b.1 = a.1)
    (hx : b.2.2 = a.2.2) (h : R (madeOf c case a) (madeOf d case b)) :
    Host.Agree R (concludeRun c case clears a) (concludeRun d case clears b) := by
  unfold concludeRun
  rw [hfailure, hx]
  refine .after fun _ _ _ _ => .after fun _ _ _ _ => ?_
  split
  · exact .after fun _ _ _ _ => .pure h
  · exact .pure h

theorem concludeRun_made {c : Config} {case : Case} {clears : Bool}
    {a : Option Failure × Progress × Executor} {b : Conclusion × Runner} {w w' : World}
    (h : concludeRun c case clears a w = some (b, w')) : b = madeOf c case a := by
  unfold concludeRun at h
  obtain ⟨⟨⟩, w₁, -, h⟩ := Host.bind_eq_some.mp h
  obtain ⟨output, w₂, -, h⟩ := Host.bind_eq_some.mp h
  obtain ⟨w₃, h⟩ := Host.exists_of_when h
  cases h
  rfl

/-- The namespace is not cleared where an example has ended the run. -/
theorem concludeRun_failure {c : Config} {case : Case} {clears : Bool} {f : Failure} {p : Progress}
    {x : Executor} {w : World} (hf : f.isOfExample = true) :
    (concludeRun c case clears (some f, p, x) w).map (·.1.1.result) =
      (x.finish w).map fun _ => .error f := by
  have hkeeps : (clears && !(some f).any Failure.isOfExample) = false := by
    rw [Option.any_some, hf]
    exact Bool.and_false _
  unfold concludeRun
  dsimp only
  rw [hkeeps]
  cases hfinish : x.finish w with
  | none =>
    rw [Host.bind_of_none hfinish]
    rfl
  | some r =>
    obtain ⟨⟨⟩, w₁⟩ := r
    rw [Host.bind_of_some hfinish]
    rfl

/-! ## Statements that are run at once -/

theorem runStatement_none {source : List Char} {filename : String} {space : Ref} {o : Outcome}
    {x : Executor} {w w' : World}
    (h : Executor.runStatement none source filename space w = some ((o, x), w')) : x = none := by
  obtain ⟨r, w₁, -, h⟩ := Host.bind_eq_some.mp h
  cases r with
  | error e =>
    cases h
    rfl
  | ok code =>
    obtain ⟨o, w₂, -, h⟩ := Host.bind_eq_some.mp h
    generalize code.isCoroutine = coroutine at h
    cases o with
    | error e =>
      cases h
      rfl
    | ok v =>
      cases coroutine with
      | false =>
        cases h
        rfl
      | true =>
        cases h
        rfl

/-- Where statements are run at once, there is never an event loop. -/
theorem runExamples_none {c : Config} {case : Case} {index : Nat} {es : List Session.Example}
    {p p' : Progress} {failure : Option Failure} {x : Executor} {w w' : World}
    (h : runExamples c case index es none p w = some ((failure, p', x), w')) : x = none := by
  induction es generalizing index p w with
  | nil =>
    cases h
    rfl
  | cons e es ih =>
    unfold runExamples at h
    dsimp only at h
    split at h
    · exact ih h
    · obtain ⟨⟨v, x₁⟩, w₁, hran, h⟩ := Host.bind_eq_some.mp h
      have hx₁ : x₁ = none := by
        obtain ⟨⟨o, x₂⟩, w₂, hstatement, hran⟩ := Host.bind_eq_some.mp hran
        obtain ⟨output, w₃, -, hran⟩ := Host.bind_eq_some.mp hran
        obtain ⟨verdict, w₄, -, hran⟩ := Host.bind_eq_some.mp hran
        cases hran
        exact runStatement_none hstatement
      subst hx₁
      dsimp only at h
      generalize afterVerdict _ _ _ _ _ _ = next at h
      cases next with
      | goOn p => exact ih h
      | stop p =>
        cases h
        rfl
      | abort f p =>
        cases h
        rfl

/-! ## The modes agree -/

/-- **What a run that reports failures and one that collects them have in common.** -/
structure Reported (c : Config) (a b : Conclusion × Runner) : Prop where
  /-- They have the same result: the same counts, or both are interrupted. -/
  result : b.1.result = a.1.result
  /-- They record the same. -/
  ledger : b.2.ledger = a.2.ledger
  /-- One reports what the other one keeps. -/
  report : c.isVerbose = false → a.1.report = reports b.2.failures
  /-- Every failure that is kept has a report. -/
  shown : ∀ f ∈ b.2.failures, f.report?.isSome = true

theorem runFresh_reports (c : Config) (case : Case) (clears : Bool) :
    Host.Agree (Reported c) (runFresh (c.handled .report) case clears)
      (runFresh (c.handled .collect) case clears) := by
  rw [runFresh_eq, runFresh_eq]
  refine Host.Agree.bind (R := fun a b => b.1 = a.1 ∧ a.2.1.Reports c.isVerbose b.2.1 ∧
    b.2.2 = a.2.2) ?_ ?_
  · unfold runAllExamples
    exact .after fun _ _ _ _ => .after fun x _ _ _ => runExamples_reports c case 0 _ x .zero
  · rintro ⟨failure, p, x⟩ ⟨failure', q, x'⟩ ⟨hfailure, hprogress, hx⟩
    refine concludeRun_agree hfailure hx ?_
    dsimp only at hfailure hprogress
    subst hfailure
    have hshown : ∀ f ∈ q.kept.reverse, f.report?.isSome = true := fun f hf =>
      f.report?_isSome.trans (hprogress.shown f (List.mem_reverse.mp hf))
    cases failure' with
    | some f => exact ⟨rfl, rfl, hprogress.report, hshown⟩
    | none =>
      refine ⟨congrArg (fun n : Counts => Except.ok n.tally) hprogress.counts, ?_, hprogress.report, hshown⟩
      exact congrArg (fun n : Counts => Ledger.record (.empty : Ledger) case.region.name n.tally) hprogress.counts

/-- **A run that ends with a failure, beside one that collects failures.** If that one collects none,
both are the same. Otherwise the first failure that it collects ends the examples, and is the result as
soon as the event loop of the test case, if it has one, is closed. -/
theorem runFresh_stops {c : Config} {case : Case} {clears : Bool} {b : Conclusion × Runner}
    {w w' : World} (h : runFresh (c.handled .collect) case clears w = some (b, w')) :
    (b.2.failures = [] ∧ ∃ r, runFresh (c.handled .stop) case clears w = some ((b.1, r), w') ∧
      r.failures = [] ∧ r.ledger = b.2.ledger) ∨
    ∃ f fs p x w₁, b.2.failures = f :: fs ∧
      runAllExamples (c.handled .stop) case w = some ((some f, p, x), w₁) ∧
      (runFresh (c.handled .stop) case clears w).map (·.1.1.result) =
        (x.finish w₁).map fun _ => .error f := by
  rw [runFresh_eq] at h
  obtain ⟨⟨failure, q, x⟩, w₁, hall, hconclude⟩ := Host.bind_eq_some.mp h
  have hb := concludeRun_made hconclude
  have hkept : b.2.failures = q.kept.reverse := by
    rw [hb]
    cases failure <;> rfl
  have hstops : Ran.Stops [] (runAllExamples (c.handled .stop) case w)
      (runAllExamples (c.handled .collect) case w) := by
    obtain ⟨x₀, w₀, -, hstart⟩ := exists_start c case w
    rw [hstart, hstart]
    exact runExamples_stops (p := .zero) rfl
  rw [hall] at hstops
  rw [runFresh_eq]
  generalize hstop : runAllExamples (c.handled .stop) case w = ran at hstops
  cases hstops with
  | same hnone =>
    have hnil : q.kept = [] := hnone _ rfl
    let R : Conclusion × Runner → Conclusion × Runner → Prop := fun a b =>
      b.1 = a.1 ∧ b.2.failures = a.2.failures ∧ b.2.ledger = a.2.ledger
    have hmade : R (madeOf (c.handled .collect) case (failure, q, x))
        (madeOf (c.handled .stop) case (failure, q, x)) := by
      cases failure <;> exact ⟨rfl, rfl, rfl⟩
    have hagree : Host.Agree R (concludeRun (c.handled .collect) case clears (failure, q, x))
        (concludeRun (c.handled .stop) case clears (failure, q, x)) := concludeRun_agree rfl rfl hmade
    replace hagree := hagree w₁
    rw [hconclude] at hagree
    rw [Host.bind_of_some hstop]
    rw [hnil] at hkept
    generalize concludeRun (c.handled .stop) case clears (failure, q, x) w₁ = r at hagree ⊢
    cases hagree with
    | @some _ r hr =>
      obtain ⟨⟨conclusion, runner⟩, w₂⟩ := r
      obtain ⟨⟨hconclusion, hfailures, hledger⟩, hworld⟩ := hr
      change conclusion = b.1 at hconclusion
      change w₂ = w' at hworld
      subst hconclusion hworld
      exact .inl ⟨hkept, runner, rfl, hfailures.trans hkept, hledger⟩
  | @first _ f p x₁ w₂ hf hfirst =>
    obtain ⟨fs, hfs⟩ := hfirst _ rfl
    refine .inr ⟨f, fs, p, x₁, w₂, hkept.trans hfs, rfl, ?_⟩
    rw [Host.bind_of_some hstop]
    exact concludeRun_failure hf

/-- **The modes agree.** Whatever the test case, the flags, the way statements are run and the world in
which a fresh runner finds the namespace: a run that reports failures and one that collects them both
have no end, or come to the same result in the same world, and without further reports the report of the
one is made of those of the failures that the other one keeps. Where none is kept, a run that ends with a
failure is the same run as well. Otherwise it ends its examples with the first failure that is kept, and
this is its result as soon as the event loop of the test case is closed; there is none where statements
are run at once. -/
theorem modes_agree (c : Config) (case : Case) (clears : Bool) (w : World) :
    Option.Rel (fun a b => Reported c a.1 b.1 ∧ b.2 = a.2)
      (runFresh (c.handled .report) case clears w) (runFresh (c.handled .collect) case clears w) ∧
    ∀ b w', runFresh (c.handled .collect) case clears w = some (b, w') →
      (b.2.failures = [] → ∃ r, runFresh (c.handled .stop) case clears w = some ((b.1, r), w') ∧
        r.failures = [] ∧ r.ledger = b.2.ledger) ∧
      ∀ f, b.2.failures.head? = some f →
        (∃ p x w₁, runAllExamples (c.handled .stop) case w = some ((some f, p, x), w₁) ∧
          (runFresh (c.handled .stop) case clears w).map (·.1.1.result) =
            (x.finish w₁).map fun _ => .error f) ∧
        (c.execution = .immediate →
          (runFresh (c.handled .stop) case clears w).map (·.1.1.result) = some (.error f)) := by
  refine ⟨runFresh_reports c case clears w, fun b w' h => ?_⟩
  rcases runFresh_stops h with ⟨hnil, hsame⟩ | ⟨f, fs, p, x, w₁, hcons, hall, hresult⟩
  · exact ⟨fun _ => hsame, fun f hf => by rw [hnil] at hf; cases hf⟩
  · refine ⟨fun hnil => ?_, fun g hg => ?_⟩
    · rw [hnil] at hcons
      cases hcons
    rw [hcons, List.head?_cons, Option.some_inj] at hg
    subst hg
    refine ⟨⟨p, x, w₁, hall, hresult⟩, fun himmediate => ?_⟩
    obtain ⟨x₀, w₀, hnone, hstart⟩ := exists_start c case w
    rw [hstart, hnone himmediate] at hall
    have hx : x = none := runExamples_none hall
    rw [hresult, hx]
    rfl

/-- Two of three examples fail: the first of the failures that are collected ends the run in another
mode. -/
theorem modes_agree_failing : ∃ case b w' f fs,
    runFresh ⟨.empty, false, .collect, .immediate⟩ case true World.empty = some (b, w') ∧
    b.2.failures = f :: fs ∧ fs.length = 1 ∧
    (runFresh ⟨.empty, false, .stop, .immediate⟩ case true World.empty).map (·.1.1.result) =
      some (.error f) := by
  have hfacts : (Region.ofText ">>> 1\n2\n>>> 3\n3\n>>> 5\n6\n".toList "t" "t.rst" 1).toOption.any
      (fun region => (runFresh ⟨.empty, false, .collect, .immediate⟩ ⟨region, 0⟩ true World.empty).any
        fun a => a.1.2.failures.length == 2) = true := by decide +kernel
  obtain ⟨region, -, hfacts⟩ := (Option.any_eq_true _ _).mp hfacts
  obtain ⟨⟨b, w'⟩, hrun, hlength⟩ := (Option.any_eq_true _ _).mp hfacts
  cases hfailures : b.2.failures with
  | nil =>
    rw [hfailures] at hlength
    cases hlength
  | cons f fs =>
    rw [hfailures] at hlength
    have hfirst := (modes_agree ⟨.empty, false, .report, .immediate⟩ ⟨region, 0⟩ true
      World.empty).2 b w' hrun
    have hhead : b.2.failures.head? = some f := by rw [hfailures, List.head?_cons]
    exact ⟨⟨region, 0⟩, b, w', f, fs, hrun, hfailures, Nat.succ.inj (eq_of_beq hlength),
      (hfirst.2 f hhead).2 rfl⟩

/-- A task that is awaited shows a list that lies in itself when it goes on, unless the last example has put
something into the list before. -/
def unendingTask : List Char :=
  ">>> import asyncio\n>>> told = []\n>>> async def show():\n...  await asyncio.sleep(0)\n".toList ++
  "...  if not told: repr(told.append(told) or told)\n>>> async def wait(t): await t\n".toList ++
  ">>> async def main():\n...  asyncio.create_task(wait(asyncio.create_task(show())))\n".toList ++
  "...  await asyncio.sleep(0)\n>>> await main()\n>>> 1\n2\n>>> told.append(1)\n".toList

/-- **The first failure is not always returned.** A run that collects failures comes to its end with one. Where
this failure ends the run, the task that is awaited goes on while the event loop is closed, and has no end. -/
theorem first_failure_not_returned :
    let c : Config := ⟨.empty, false, .report, .suspending⟩
    let w := (World.empty.newSpace .empty).2
    ∃ region b w' f, Region.ofText unendingTask "t" "t.rst" 1 = .ok region ∧
      runFresh (c.handled .collect) ⟨region, 0⟩ false w = some (b, w') ∧ b.2.failures = [f] ∧
      b.1.result.toOption = some ⟨1, 8, 0⟩ ∧ runFresh (c.handled .stop) ⟨region, 0⟩ false w = none ∧
      (runFresh (c.handled .stop) ⟨region, 0⟩ false w).map (·.1.1.result) ≠ some (.error f) := by
  intro c w
  have hfacts : (Region.ofText unendingTask "t" "t.rst" 1).toOption.any
      (fun region => (runFresh (c.handled .collect) ⟨region, 0⟩ false w).any (fun a =>
        a.1.2.failures.length == 1 && a.1.1.result.toOption == some ⟨1, 8, 0⟩) &&
          (runFresh (c.handled .stop) ⟨region, 0⟩ false w).isNone) = true := by
    unfold unendingTask
    repeat rw [String.toList_ofList]
    decide +kernel
  obtain ⟨region, hregion, hfacts⟩ := (Option.any_eq_true _ _).mp hfacts
  obtain ⟨hcollects, hstops⟩ := Bool.and_eq_true_iff.mp hfacts
  obtain ⟨⟨b, w'⟩, hrun, hended⟩ := (Option.any_eq_true _ _).mp hcollects
  obtain ⟨hlength, hresult⟩ := Bool.and_eq_true_iff.mp hended
  obtain ⟨f, hf⟩ := List.length_eq_one_iff.mp (eq_of_beq hlength)
  have hnone := Option.isNone_iff_eq_none.mp hstops
  refine ⟨region, b, w', f, Except.toOption_eq_some.mp hregion, hrun, hf, eq_of_beq hresult, hnone, ?_⟩
  rw [hnone]
  exact fun h => nomatch h

end Test

end Transcript
