import Transcript.Test.Runner
import Mathlib.Tactic.SplitIfs

/-!
# The trials of a run

Which examples of a test case a run tries, and how each of them ends, can be told without what a
runner keeps from one test case to the next: these are the trials of the run. What a runner reports
of a test case is made of its trials.

Results:
* `runExamples_step`: one step of a run of examples.
* `runTrials_spec`: a run tries examples of its own test case, up to the last that is to be tried.
* `runExamples_trials`: counts, failures kept and the end of a run are made of its trials.
* `shownFailures_eq_nil`: where no failure is shown, none has happened.
* `abortion?_of_stop`: a failure that ends a run is the only one that is shown.
* `run_trials`: what a run of a test case adds to its runner.
-/

namespace Transcript

open Lang

theorem Lang.Host.bind_of_some {α β : Type} {x : Host α} {f : α → Host β} {a : α} {w w₁ : World}
    (h : x w = some (a, w₁)) : (x >>= f) w = f a w₁ := by
  change (x w).bind (fun p => f p.1 p.2) = f a w₁
  rw [h, Option.bind_some]

theorem Lang.Host.bind_of_none {α β : Type} {x : Host α} {f : α → Host β} {w : World}
    (h : x w = none) : (x >>= f) w = none := by
  change (x w).bind (fun p => f p.1 p.2) = none
  rw [h, Option.bind_none]

/-- What comes after a step that is taken on a condition. -/
theorem Lang.Host.exists_of_when {α : Type} {b : Bool} {x : Host Unit} {k : Host α} {w : World}
    {r : α × World} (h : (if b then x >>= fun _ => k else k) w = some r) : ∃ w₁, k w₁ = some r := by
  split_ifs at h
  · obtain ⟨⟨⟩, w₁, -, h⟩ := bind_eq_some.mp h
    exact ⟨w₁, h⟩
  · exact ⟨w, h⟩

namespace Test

/-! ## Trials -/

/-- **An example that was run,** and how it ended. -/
structure Trial where
  /-- The example. -/
  subject : Session.Example
  /-- How it ended. -/
  verdict : Verdict

namespace Trial

/-- The flags of the example. -/
def flags (c : Config) (t : Trial) : FlagSet := t.subject.overrides.apply c.flags

/-- Whether the example has failed. -/
def isFailure (t : Trial) : Bool :=
  match t.verdict with
  | .failure _ => true
  | _ => false

/-- The failure that is shown, by whether there was one before. -/
def shown? (c : Config) (failed : Bool) (t : Trial) : Option Failure :=
  match t.verdict with
  | .failure f => if (t.flags c).has .reportOnlyFirstFailure && failed then none else some f
  | _ => none

/-- Whether no example is run after this one, by whether there was a failure before. -/
def isLast (c : Config) (failed : Bool) (t : Trial) : Bool :=
  match t.verdict with
  | .interrupt => true
  | .success => failed && (t.flags c).has .failFast
  | .failure _ =>
    (t.flags c).has .failFast || (c.handling == .stop && (t.shown? c failed).isSome)

end Trial

/-- **The trials of a run** of examples, the first of which has a place among all examples of its
test case. -/
def runTrials (c : Config) (case : Case) :
    Nat → List Session.Example → Executor → Bool → Host (List Trial × Executor)
  | _, [], x, _ => return ([], x)
  | index, e :: es, x, failed => do
    let flags := e.overrides.apply c.flags
    if flags.has .skip then runTrials c case (index + 1) es x failed
    else
      let quiet := flags.has .reportOnlyFirstFailure && failed
      let (v, x) ← runExample case index e flags quiet x
      let t : Trial := ⟨e, v⟩
      if t.isLast c failed then return ([t], x)
      else
        let (ts, x) ← runTrials c case (index + 1) es x (failed || t.isFailure)
        return (t :: ts, x)

/-- The failures of trials that are shown. -/
def shownFailures (c : Config) : Bool → List Trial → List Failure
  | _, [] => []
  | failed, t :: ts => (t.shown? c failed).toList ++ shownFailures c (failed || t.isFailure) ts

/-- The failures that a run keeps for later. -/
def keptFailures (c : Config) (failed : Bool) (ts : List Trial) : List Failure :=
  if c.handling = .collect then shownFailures c failed ts else []

/-- The failure that ends a run, if one does. -/
def abortion? (c : Config) (test : String) : Bool → List Trial → Option Failure
  | _, [] => none
  | failed, t :: ts =>
    match t.verdict with
    | .interrupt => some (.interrupted test)
    | .success => abortion? c test failed ts
    | .failure _ =>
      if c.handling = .stop then (t.shown? c failed).or (abortion? c test true ts)
      else abortion? c test true ts

/-! ## One trial -/

@[simp] theorem Progress.counts_writeIf (p : Progress) (b : Bool) (text : List Char) :
    (p.writeIf b text).counts = p.counts := by
  cases b <;> rfl

@[simp] theorem Progress.kept_writeIf (p : Progress) (b : Bool) (text : List Char) :
    (p.writeIf b text).kept = p.kept := by
  cases b <;> rfl

theorem keptFailures_nil (c : Config) (failed : Bool) : keptFailures c failed [] = [] := by
  unfold keptFailures shownFailures
  split_ifs
  · rfl
  · rfl

theorem keptFailures_cons (c : Config) (failed : Bool) (t : Trial) (ts : List Trial) :
    keptFailures c failed (t :: ts) = (if c.handling = .collect then (t.shown? c failed).toList else []) ++
      keptFailures c (failed || t.isFailure) ts := by
  unfold keptFailures
  split_ifs
  · rfl
  · rfl

/-- One trial shows one failure at most. -/
theorem reverse_shown (c : Config) (failed : Bool) (t : Trial) :
    (if c.handling = .collect then (t.shown? c failed).toList else []).reverse =
      if c.handling = .collect then (t.shown? c failed).toList else [] := by
  split_ifs
  · cases t.shown? c failed with
    | none => rfl
    | some f => rfl
  · rfl

/-- What a trial adds to the progress of a run, by whether there was a failure before. -/
structure Progress.Adds (c : Config) (failed : Bool) (t : Trial) (p p' : Progress) : Prop where
  /-- A failure is counted. -/
  failures : decide (0 < p'.counts.failed) = (failed || t.isFailure)
  /-- The example was counted before. -/
  attempted : p'.counts.attempted = p.counts.attempted
  /-- A failure that is shown is kept where failures are collected. -/
  kept : p'.kept = (if c.handling = .collect then (t.shown? c failed).toList else []) ++ p.kept

/-- The next step after an example that does not end its run by a failure. -/
def proceeding (last : Bool) (p : Progress) : Next := if last then .stop p else .goOn p

/-- **What is to come after a trial:** the run ends at the last one, by a failure if that is the one
that ends it, and otherwise its progress goes on with what the trial adds. -/
def Comes (c : Config) (test : String) (failed : Bool) (t : Trial) (p : Progress) (next : Next) :
    Prop :=
  (abortion? c test failed [t] = none ∧
      ∃ p', next = proceeding (t.isLast c failed) p' ∧ p.Adds c failed t p') ∨
    ∃ f, abortion? c test failed [t] = some f ∧ t.isLast c failed = true ∧ next = .abort f p ∧
      (c.handling = .collect → t.shown? c failed = none)

section Comes

variable {c : Config} {test : String} {e : Session.Example} {p : Progress} {failed : Bool}
  {f : Failure}

theorem comes_success (hfailed : decide (0 < p.counts.failed) = failed) (quiet : Bool) :
    Comes c test failed ⟨e, .success⟩ p
      (afterVerdict c test (e.overrides.apply c.flags) quiet .success p) := by
  let p' := p.writeIf (c.isVerbose && !quiet) "ok\n".toList
  have hp' : decide (0 < p'.counts.failed) = failed := by
    rw [Progress.counts_writeIf]
    exact hfailed
  have hnext : afterVerdict c test (e.overrides.apply c.flags) quiet .success p =
      proceeding (decide (0 < p'.counts.failed) && (e.overrides.apply c.flags).has .failFast) p' := rfl
  refine .inl ⟨rfl, p', ?_, ⟨?_, ?_, ?_⟩⟩
  · rw [hnext, hp']
    rfl
  · rw [hp']
    exact (Bool.or_false failed).symm
  · rw [Progress.counts_writeIf]
  · rw [Progress.kept_writeIf]
    split_ifs
    · rfl
    · rfl

theorem fail_counts (q : Progress) : decide (0 < q.fail.counts.failed) = true :=
  decide_eq_true (Nat.succ_pos _)

theorem fail_counts_trial (q : Progress) (failed : Bool) (e : Session.Example) (f : Failure) :
    decide (0 < q.fail.counts.failed) = (failed || Trial.isFailure ⟨e, .failure f⟩) :=
  (fail_counts q).trans (Bool.or_true failed).symm

/-- A failure after the only one that is to be shown is counted. -/
theorem comes_quiet
    (hquiet : ((e.overrides.apply c.flags).has .reportOnlyFirstFailure && failed) = true) :
    Comes c test failed ⟨e, .failure f⟩ p
      (afterVerdict c test (e.overrides.apply c.flags) true (.failure f) p) := by
  let t : Trial := ⟨e, .failure f⟩
  have hshown : t.shown? c failed = none := if_pos hquiet
  have hlast : t.isLast c failed = (e.overrides.apply c.flags).has .failFast := by
    have hunfold : t.isLast c failed = ((e.overrides.apply c.flags).has .failFast ||
        (c.handling == .stop && (t.shown? c failed).isSome)) := rfl
    rw [hunfold, hshown, Option.isSome_none, Bool.and_false, Bool.or_false]
  have hnone : abortion? c test failed [t] = none := by
    have hunfold : abortion? c test failed [t] =
        if c.handling = .stop then (t.shown? c failed).or none else none := rfl
    rw [hunfold, hshown]
    split_ifs
    · rfl
    · rfl
  have hnext : afterVerdict c test (e.overrides.apply c.flags) true (.failure f) p =
      proceeding (decide (0 < p.fail.counts.failed) && (e.overrides.apply c.flags).has .failFast)
        p.fail := rfl
  refine .inl ⟨hnone, p.fail, ?_, ⟨fail_counts_trial p failed e f, rfl, ?_⟩⟩
  · rw [hnext, hlast, fail_counts, Bool.true_and]
  · rw [hshown]
    split_ifs
    · rfl
    · rfl

/-- A failure that is shown is handled as the run is told to. -/
theorem comes_shown
    (hquiet : ((e.overrides.apply c.flags).has .reportOnlyFirstFailure && failed) = false) :
    Comes c test failed ⟨e, .failure f⟩ p
      (afterVerdict c test (e.overrides.apply c.flags) false (.failure f) p) := by
  let t : Trial := ⟨e, .failure f⟩
  have hshown : t.shown? c failed = some f := if_neg (Bool.eq_false_iff.mp hquiet)
  have hlast : t.isLast c failed =
      ((e.overrides.apply c.flags).has .failFast || c.handling == .stop) := by
    have hunfold : t.isLast c failed = ((e.overrides.apply c.flags).has .failFast ||
        (c.handling == .stop && (t.shown? c failed).isSome)) := rfl
    rw [hunfold, hshown, Option.isSome_some, Bool.and_true]
  have habort : abortion? c test failed [t] = if c.handling = .stop then some f else none := by
    have hunfold : abortion? c test failed [t] =
        if c.handling = .stop then (t.shown? c failed).or none else none := rfl
    rw [hunfold, hshown]
    rfl
  have hgo {q : Progress} (hq : handle c f p = some q) :
      afterVerdict c test (e.overrides.apply c.flags) false (.failure f) p =
        proceeding ((e.overrides.apply c.flags).has .failFast || false) q.fail := by
    have hnext : afterVerdict c test (e.overrides.apply c.flags) false (.failure f) p =
        proceeding (decide (0 < q.fail.counts.failed) && (e.overrides.apply c.flags).has .failFast)
          q.fail := by
      unfold afterVerdict
      dsimp only
      rw [if_neg Bool.false_ne_true, hq]
      rfl
    rw [hnext, fail_counts, Bool.true_and, Bool.or_false]
  change Comes c test failed t p _
  unfold Comes
  rw [hlast, habort]
  cases hhandling : c.handling with
  | report =>
    have hhandle : handle c f p = some (p.write (f.report?.getD [])) := by
      rw [handle, hhandling]
    refine .inl ⟨rfl, _, hgo hhandle, ⟨fail_counts_trial _ failed e f, rfl, ?_⟩⟩
    rw [hhandling]
    rfl
  | stop =>
    have hhandle : handle c f p = none := by rw [handle, hhandling]
    have hnext : afterVerdict c test (e.overrides.apply c.flags) false (.failure f) p =
        .abort f p := by
      unfold afterVerdict
      dsimp only
      rw [if_neg Bool.false_ne_true, hhandle]
    exact .inr ⟨f, rfl, Bool.or_true _, hnext, fun h => by cases h⟩
  | collect =>
    have hhandle : handle c f p = some { p with kept := f :: p.kept } := by
      rw [handle, hhandling]
    refine .inl ⟨rfl, _, hgo hhandle, ⟨fail_counts_trial _ failed e f, rfl, ?_⟩⟩
    rw [hhandling, hshown]
    rfl

/-- **What comes after an example** is what is to come after its trial. -/
theorem afterVerdict_comes (hfailed : decide (0 < p.counts.failed) = failed) (v : Verdict) :
    Comes c test failed ⟨e, v⟩ p (afterVerdict c test (e.overrides.apply c.flags)
      ((e.overrides.apply c.flags).has .reportOnlyFirstFailure && failed) v p) := by
  cases v with
  | success => exact comes_success hfailed _
  | interrupt => exact .inr ⟨_, rfl, rfl, rfl, fun _ => rfl⟩
  | failure f =>
    cases hquiet : (e.overrides.apply c.flags).has .reportOnlyFirstFailure && failed with
    | true => exact comes_quiet hquiet
    | false => exact comes_shown hquiet

/-- **The run goes on** after an example just if it was not the last one to be tried. -/
theorem Comes.goesOn {t : Trial} {next : Next} (h : Comes c test failed t p next) :
    (t.isLast c failed = true ∧ ∀ p', next ≠ .goOn p') ∨
      (t.isLast c failed = false ∧
        ∃ p', next = .goOn p' ∧ decide (0 < p'.counts.failed) = (failed || t.isFailure)) := by
  rcases h with ⟨-, p', hnext, hadds⟩ | ⟨f, -, hlast, hnext, -⟩
  · cases hlast : t.isLast c failed with
    | true =>
      refine .inl ⟨rfl, fun p' h => ?_⟩
      rw [hnext, hlast] at h
      cases h
    | false =>
      rw [hlast] at hnext
      exact .inr ⟨rfl, p', hnext, hadds.failures⟩
  · refine .inl ⟨hlast, fun p' h => ?_⟩
    rw [hnext] at h
    cases h

end Comes

/-! ## All trials -/

theorem abortion?_cons (c : Config) (test : String) (failed : Bool) (t : Trial) (ts : List Trial) :
    abortion? c test failed (t :: ts) =
      (abortion? c test failed [t]).or (abortion? c test (failed || t.isFailure) ts) := by
  cases t with
  | mk subject verdict =>
    cases verdict with
    | success =>
      have hfailed : (failed || Trial.isFailure ⟨subject, .success⟩) = failed := Bool.or_false failed
      rw [hfailed]
      rfl
    | interrupt => rfl
    | failure f =>
      have hfailed : (failed || Trial.isFailure ⟨subject, .failure f⟩) = true := Bool.or_true failed
      rw [hfailed]
      simp only [abortion?]
      split_ifs
      · rw [Option.or_none]
      · rfl

/-- What a run does after an example, by what comes next. -/
def resume (c : Config) (case : Case) (index : Nat) (es : List Session.Example) (x : Executor) :
    Next → Host (Option Failure × Progress × Executor)
  | .goOn p => runExamples c case index es x p
  | .stop p => return (none, p, x)
  | .abort f p => return (some f, p, x)

/-- **The first example of a run** is run, or it is skipped. -/
theorem runExamples_cons (c : Config) (case : Case) (index : Nat) (e : Session.Example)
    (es : List Session.Example) (x : Executor) (p : Progress) :
    let flags := e.overrides.apply c.flags
    let quiet := flags.has .reportOnlyFirstFailure && decide (0 < p.counts.failed)
    let announce (p : Progress) : Progress := p.writeIf (c.isVerbose && !quiet) (announcement e)
    runExamples c case index (e :: es) x p =
      if flags.has .skip then
        runExamples c case (index + 1) es x
          ((announce p.skip).writeIf (c.isVerbose && !quiet) "skipped\n".toList)
      else
        runExample case index e flags quiet x >>= fun r => resume c case (index + 1) es r.2
          (afterVerdict c case.region.name flags quiet r.1 (announce p.attempt)) := by
  intro flags quiet announce
  rw [runExamples]
  refine ite_congr rfl (fun _ => rfl) fun _ => bind_congr fun r => ?_
  unfold resume
  rfl

/-- **One step of a run of examples.** The first one is skipped, or it is run and what comes next is told by its
trial. What is announced of it changes neither the counts nor the failures kept. -/
theorem runExamples_step {c : Config} {case : Case} {index : Nat} {e : Session.Example}
    {es : List Session.Example} {x : Executor} {p : Progress} {failed : Bool}
    {r : (Option Failure × Progress × Executor) × World} {w : World}
    (hfailed : decide (0 < p.counts.failed) = failed)
    (h : runExamples c case index (e :: es) x p w = some r) :
    ((e.overrides.apply c.flags).has .skip = true ∧ ∃ q : Progress, q.counts = p.skip.counts ∧ q.kept = p.kept ∧
        decide (0 < q.counts.failed) = failed ∧ runExamples c case (index + 1) es x q w = some r) ∨
      ((e.overrides.apply c.flags).has .skip = false ∧ ∃ v x₁ w₁, ∃ q : Progress,
        runExample case index e (e.overrides.apply c.flags)
          ((e.overrides.apply c.flags).has .reportOnlyFirstFailure && failed) x w = some ((v, x₁), w₁) ∧
        q.counts = p.attempt.counts ∧ q.kept = p.kept ∧ decide (0 < q.counts.failed) = failed ∧
        resume c case (index + 1) es x₁ (afterVerdict c case.region.name (e.overrides.apply c.flags)
          ((e.overrides.apply c.flags).has .reportOnlyFirstFailure && failed) v q) w₁ = some r) := by
  rw [runExamples_cons] at h
  dsimp only at h
  rw [hfailed] at h
  split at h
  · next hskip =>
    refine .inl ⟨hskip, _, ?_, ?_, ?_, h⟩
    · rw [Progress.counts_writeIf, Progress.counts_writeIf]
    · rw [Progress.kept_writeIf, Progress.kept_writeIf]
      rfl
    · rw [Progress.counts_writeIf, Progress.counts_writeIf]
      exact hfailed
  · next hskip =>
    obtain ⟨⟨v, x₁⟩, w₁, hv, h⟩ := Host.bind_eq_some.mp h
    refine .inr ⟨Bool.eq_false_iff.mpr hskip, v, x₁, w₁, _, hv, ?_, ?_, ?_, h⟩
    · rw [Progress.counts_writeIf]
    · rw [Progress.kept_writeIf]
      rfl
    · rw [Progress.counts_writeIf]
      exact hfailed

section

variable {c : Config} {case : Case} {index : Nat} {e : Session.Example} {es : List Session.Example}
  {x x₁ x' : Executor} {failed : Bool} {v : Verdict} {w w₁ w' : World}

theorem runTrials_of_skip (hskip : (e.overrides.apply c.flags).has .skip = true) :
    runTrials c case index (e :: es) x failed = runTrials c case (index + 1) es x failed := if_pos hskip

/-- The last trial of a run. -/
theorem runTrials_of_last (hskip : (e.overrides.apply c.flags).has .skip = false)
    (hv : runExample case index e (e.overrides.apply c.flags)
      ((e.overrides.apply c.flags).has .reportOnlyFirstFailure && failed) x w = some ((v, x₁), w₁))
    (hlast : Trial.isLast c failed ⟨e, v⟩ = true) :
    runTrials c case index (e :: es) x failed w = some (([⟨e, v⟩], x₁), w₁) := by
  unfold runTrials
  dsimp only
  rw [hskip, if_neg Bool.false_ne_true, Host.bind_of_some hv]
  dsimp only
  rw [if_pos hlast]
  rfl

/-- A trial that others come after. -/
theorem runTrials_of_next (hskip : (e.overrides.apply c.flags).has .skip = false)
    (hv : runExample case index e (e.overrides.apply c.flags)
      ((e.overrides.apply c.flags).has .reportOnlyFirstFailure && failed) x w = some ((v, x₁), w₁))
    (hlast : Trial.isLast c failed ⟨e, v⟩ = false) {ts : List Trial}
    (hts : runTrials c case (index + 1) es x₁ (failed || Trial.isFailure ⟨e, v⟩) w₁ = some ((ts, x'), w')) :
    runTrials c case index (e :: es) x failed w = some ((⟨e, v⟩ :: ts, x'), w') := by
  unfold runTrials
  dsimp only
  rw [hskip, if_neg Bool.false_ne_true, Host.bind_of_some hv]
  dsimp only
  rw [hlast, if_neg Bool.false_ne_true, Host.bind_of_some hts]
  rfl

end

/-- **What a run of examples reports** is made of its trials. -/
theorem runExamples_trials {c : Config} {case : Case} {index : Nat} {es : List Session.Example}
    {x x' : Executor} {p p' : Progress} {failed : Bool} {failure : Option Failure} {w w' : World}
    (hfailed : decide (0 < p.counts.failed) = failed)
    (h : runExamples c case index es x p w = some ((failure, p', x'), w')) :
    ∃ ts, runTrials c case index es x failed w = some ((ts, x'), w') ∧
      failure = abortion? c case.region.name failed ts ∧
      p'.counts.attempted = p.counts.attempted + ts.length ∧
      p'.kept.reverse = p.kept.reverse ++ keptFailures c failed ts := by
  induction es generalizing index x p failed w with
  | nil =>
    cases h
    refine ⟨[], rfl, rfl, rfl, ?_⟩
    rw [keptFailures_nil, List.append_nil]
  | cons e es ih =>
    rcases runExamples_step hfailed h with
      ⟨hskip, q, htally, hkept, hq, h⟩ | ⟨hskip, v, x₁, w₁, q, hv, htally, hkept, hq, h⟩
    · obtain ⟨ts, hts, hfailure, hattempted, hlater⟩ := ih hq h
      rw [htally] at hattempted
      rw [hkept] at hlater
      rw [runTrials_of_skip hskip]
      exact ⟨ts, hts, hfailure, hattempted, hlater⟩
    · have hattempt : q.counts.attempted = p.counts.attempted + 1 := by rw [htally]; rfl
      have hcomes : Comes c case.region.name failed ⟨e, v⟩ q _ := afterVerdict_comes hq v
      rcases hcomes with ⟨hnone, q', hnext, hadds⟩ | ⟨f, hsome, hlast, hnext, hshown⟩
      · rw [hnext] at h
        cases hlast : Trial.isLast c failed ⟨e, v⟩ with
        | true =>
          rw [hlast] at h
          cases h
          refine ⟨[⟨e, v⟩], runTrials_of_last hskip hv hlast, hnone.symm, ?_, ?_⟩
          · rw [hadds.attempted, hattempt]
            rfl
          · rw [keptFailures_cons, keptFailures_nil, List.append_nil, hadds.kept, hkept,
              List.reverse_append, reverse_shown]
        | false =>
          rw [hlast] at h
          obtain ⟨ts, hts, hfailure, hattempted, hlater⟩ := ih hadds.failures h
          refine ⟨⟨e, v⟩ :: ts, runTrials_of_next hskip hv hlast hts, ?_, ?_, ?_⟩
          · rw [abortion?_cons, hnone]
            exact hfailure
          · rw [hattempted, hadds.attempted, hattempt, List.length_cons]
            omega
          · rw [hlater, hadds.kept, hkept, keptFailures_cons, List.reverse_append, reverse_shown,
              List.append_assoc]
      · rw [hnext] at h
        cases h
        refine ⟨[⟨e, v⟩], runTrials_of_last hskip hv hlast, hsome.symm, hattempt, ?_⟩
        have hnil : keptFailures c failed [⟨e, v⟩] = [] := by
          rw [keptFailures_cons, keptFailures_nil, List.append_nil]
          split_ifs with hcollect
          · rw [hshown hcollect]
            rfl
          · rfl
        rw [hkept, hnil, List.append_nil]

/-- The trials of a test case, from getting ready on. -/
def trialsOf (c : Config) (case : Case) : Host (List Trial) := do
  let x ← Executor.start c.execution
  let (ts, _) ← runTrials c case 0 case.region.examples x false
  return ts

/-- **What a run of a test case adds to its runner:** the failures kept of its trials. Its result
is the failure that ends the trials, or else the counts. -/
theorem run_trials {r r' : Runner} {case : Case} {clears : Bool} {done : Conclusion} {w w' : World}
    (h : r.run case clears w = some ((done, r'), w')) :
    ∃ ts w₁, trialsOf r.config case w = some (ts, w₁) ∧ r'.config = r.config ∧
      r'.failures = r.failures ++ keptFailures r.config false ts ∧
      ((∃ f, abortion? r.config case.region.name false ts = some f ∧ done.result = .error f) ∨
        ∃ t, abortion? r.config case.region.name false ts = none ∧ done.result = .ok t ∧
          t.attempted = UInt64.ofNat ts.length) := by
  unfold Runner.run at h
  obtain ⟨x, w₁, hx, h⟩ := Host.bind_eq_some.mp h
  obtain ⟨⟨failure, p, x'⟩, w₂, hexamples, h⟩ := Host.bind_eq_some.mp h
  dsimp only at h
  obtain ⟨⟨⟩, w₃, -, h⟩ := Host.bind_eq_some.mp h
  obtain ⟨output, w₄, -, h⟩ := Host.bind_eq_some.mp h
  obtain ⟨w₅, h⟩ := Host.exists_of_when h
  obtain ⟨ts, hts, hfailure, hattempted, hkept⟩ := runExamples_trials rfl hexamples
  have htrials : trialsOf r.config case w = some (ts, w₂) :=
    Host.bind_eq_some.mpr ⟨x, w₁, hx, Host.bind_eq_some.mpr ⟨(ts, x'), w₂, hts, rfl⟩⟩
  have hkept' : p.kept.reverse = keptFailures r.config false ts := by
    rw [hkept]
    rfl
  cases failure with
  | some f =>
    cases h
    exact ⟨ts, w₂, htrials, rfl, by rw [hkept'], .inl ⟨f, hfailure.symm, rfl⟩⟩
  | none =>
    cases h
    refine ⟨ts, w₂, htrials, rfl, by rw [hkept'], .inr ⟨p.counts.tally, hfailure.symm, rfl, congrArg UInt64.ofNat ?_⟩⟩
    rw [hattempted]
    exact Nat.zero_add _

/-! ## What is tried -/

theorem judge_failure {location : Location} {e : Session.Example} {filename : String}
    {flags : FlagSet} {quiet : Bool} {a : Attempt} {f : Failure} {w w' : World}
    (h : judge location e filename flags quiet a w = some (.failure f, w')) : f.isOfExample = true := by
  unfold judge at h
  cases hraised : a.raised with
  | none =>
    rw [hraised] at h
    dsimp only at h
    split_ifs at h
    · cases h
    · cases h
      rfl
  | some exc =>
    rw [hraised] at h
    dsimp only at h
    split_ifs at h with hinterrupt
    · cases h
    · obtain ⟨traceback, w₁, -, h⟩ := Host.bind_eq_some.mp h
      cases hmessage : e.message with
      | none =>
        rw [hmessage] at h
        cases h
        rfl
      | some want =>
        rw [hmessage] at h
        obtain ⟨lines, w₂, -, h⟩ := Host.bind_eq_some.mp h
        split_ifs at h
        · cases h
        · cases h
          rfl

theorem runExample_failure {case : Case} {index : Nat} {e : Session.Example} {flags : FlagSet}
    {quiet : Bool} {x x' : Executor} {f : Failure} {w w' : World}
    (h : runExample case index e flags quiet x w = some ((.failure f, x'), w')) :
    f.isOfExample = true := by
  unfold runExample at h
  obtain ⟨⟨o, x₁⟩, w₁, -, h⟩ := Host.bind_eq_some.mp h
  obtain ⟨output, w₂, -, h⟩ := Host.bind_eq_some.mp h
  obtain ⟨verdict, w₃, hverdict, h⟩ := Host.bind_eq_some.mp h
  cases h
  exact judge_failure hverdict

/-- A run goes no further than its last trial. -/
def StopsAtLast (c : Config) : Bool → List Trial → Prop
  | _, [] => True
  | failed, t :: ts => (t.isLast c failed = true → ts = []) ∧ StopsAtLast c (failed || t.isFailure) ts

/-- **A run tries examples of its own test case,** up to the last one that is to be tried, and each
that fails does so by a failure of an example. -/
theorem runTrials_spec {c : Config} {case : Case} {index : Nat} {es : List Session.Example}
    {x x' : Executor} {failed : Bool} {ts : List Trial} {w w' : World}
    (h : runTrials c case index es x failed w = some ((ts, x'), w')) :
    (∀ t ∈ ts, t.subject ∈ es ∧ ∀ f, t.verdict = .failure f → f.isOfExample = true) ∧
      StopsAtLast c failed ts := by
  induction es generalizing index x failed ts w with
  | nil =>
    cases h
    exact ⟨(fun t ht => nomatch ht), trivial⟩
  | cons e es ih =>
    unfold runTrials at h
    dsimp only at h
    by_cases hskip : (e.overrides.apply c.flags).has .skip = true
    · rw [if_pos hskip] at h
      obtain ⟨hts, hstops⟩ := ih h
      exact ⟨fun t ht => ⟨List.mem_cons_of_mem e (hts t ht).1, (hts t ht).2⟩, hstops⟩
    · rw [if_neg hskip] at h
      obtain ⟨⟨v, x₁⟩, w₁, hv, h⟩ := Host.bind_eq_some.mp h
      have hfirst : e ∈ e :: es ∧ ∀ f, v = .failure f → f.isOfExample = true := by
        refine ⟨List.mem_cons_self, ?_⟩
        rintro f rfl
        exact runExample_failure hv
      dsimp only at h
      split_ifs at h with hlast
      · cases h
        exact ⟨fun t ht => by rw [List.mem_singleton.mp ht]; exact hfirst, fun _ => rfl, trivial⟩
      · obtain ⟨⟨ts', x₂⟩, w₂, hts', h⟩ := Host.bind_eq_some.mp h
        cases h
        obtain ⟨hts, hstops⟩ := ih hts'
        refine ⟨fun t ht => ?_, fun hl => absurd hl hlast, hstops⟩
        rcases List.mem_cons.mp ht with rfl | ht
        · exact hfirst
        · exact ⟨List.mem_cons_of_mem e (hts t ht).1, (hts t ht).2⟩

theorem trialsOf_spec {c : Config} {case : Case} {ts : List Trial} {w w' : World}
    (h : trialsOf c case w = some (ts, w')) :
    (∀ t ∈ ts, t.subject ∈ case.region.examples ∧ ∀ f, t.verdict = .failure f → f.isOfExample = true) ∧
      StopsAtLast c false ts := by
  unfold trialsOf at h
  obtain ⟨x, w₁, -, h⟩ := Host.bind_eq_some.mp h
  obtain ⟨⟨ts', x'⟩, w₂, hts, h⟩ := Host.bind_eq_some.mp h
  cases h
  exact runTrials_spec hts

/-! ## What trials tell -/

theorem shown?_eq_some {c : Config} {failed : Bool} {t : Trial} {f : Failure}
    (h : t.shown? c failed = some f) : t.verdict = .failure f := by
  unfold Trial.shown? at h
  split at h
  · split_ifs at h
    cases h
    assumption
  · cases h

/-- The first failure is shown. -/
theorem shown?_first {c : Config} {t : Trial} (h : t.isFailure = true) :
    ∃ f, t.shown? c false = some f := by
  unfold Trial.isFailure at h
  unfold Trial.shown?
  rw [Bool.and_false]
  split at h
  · exact ⟨_, rfl⟩
  · cases h

/-- **Where no failure is shown, none has happened.** -/
theorem shownFailures_eq_nil {c : Config} {ts : List Trial} (h : shownFailures c false ts = []) :
    ∀ t ∈ ts, t.isFailure = false := by
  induction ts with
  | nil => exact fun t ht => nomatch ht
  | cons t ts ih =>
    unfold shownFailures at h
    obtain ⟨hfirst, hrest⟩ := List.append_eq_nil_iff.mp h
    cases ht : t.isFailure with
    | true =>
      obtain ⟨f, hf⟩ : ∃ f, t.shown? c false = some f := shown?_first ht
      rw [hf] at hfirst
      cases hfirst
    | false =>
      rw [ht] at hrest
      exact List.forall_mem_cons.mpr ⟨ht, ih hrest⟩

/-- What is shown is a failure of a trial. -/
theorem mem_shownFailures {c : Config} {failed : Bool} {ts : List Trial} {f : Failure}
    (h : f ∈ shownFailures c failed ts) : ∃ t ∈ ts, t.verdict = .failure f := by
  induction ts generalizing failed with
  | nil => cases h
  | cons t ts ih =>
    unfold shownFailures at h
    rcases List.mem_append.mp h with h | h
    · exact ⟨t, List.mem_cons_self, shown?_eq_some (Option.mem_toList.mp h)⟩
    · obtain ⟨t', ht', hf⟩ := ih h
      exact ⟨t', List.mem_cons_of_mem t ht', hf⟩

/-- Where failures do not end a run, only an interruption does. -/
theorem abortion?_of_ne_stop {c : Config} (hc : c.handling ≠ .stop) (test : String) (failed : Bool)
    (ts : List Trial) :
    (abortion? c test failed ts = none ∧ ∀ t ∈ ts, t.verdict ≠ .interrupt) ∨
      abortion? c test failed ts = some (.interrupted test) := by
  induction ts generalizing failed with
  | nil => exact .inl ⟨rfl, fun t ht => nomatch ht⟩
  | cons t ts ih =>
    obtain ⟨subject, verdict⟩ := t
    cases verdict with
    | interrupt => exact .inr rfl
    | success =>
      refine (ih failed).imp_left fun ⟨hnone, hts⟩ => ⟨hnone, ?_⟩
      exact List.forall_mem_cons.mpr ⟨(fun h => nomatch h), hts⟩
    | failure f =>
      have hunfold : abortion? c test failed (⟨subject, .failure f⟩ :: ts) =
          abortion? c test true ts := if_neg hc
      rw [hunfold]
      refine (ih true).imp_left fun ⟨hnone, hts⟩ => ⟨hnone, ?_⟩
      exact List.forall_mem_cons.mpr ⟨(fun h => nomatch h), hts⟩

/-- **A failure that ends a run** is the only one that is shown. -/
theorem abortion?_of_stop {c : Config} (hc : c.handling = .stop) (test : String) {ts : List Trial}
    (hstops : StopsAtLast c false ts) :
    (abortion? c test false ts = none ∧ ∀ t ∈ ts, t.verdict = .success) ∨
      abortion? c test false ts = some (.interrupted test) ∨
      ∃ f, abortion? c test false ts = some f ∧ shownFailures c false ts = [f] := by
  induction ts with
  | nil => exact .inl ⟨rfl, fun t ht => nomatch ht⟩
  | cons t ts ih =>
    obtain ⟨hlast, hrest⟩ := hstops
    obtain ⟨subject, verdict⟩ := t
    cases verdict with
    | interrupt => exact .inr (.inl rfl)
    | success =>
      rcases ih hrest with ⟨hnone, hts⟩ | hinterrupted | ⟨f, hf, hshown⟩
      · exact .inl ⟨hnone, List.forall_mem_cons.mpr ⟨rfl, hts⟩⟩
      · exact .inr (.inl hinterrupted)
      · exact .inr (.inr ⟨f, hf, hshown⟩)
    | failure f =>
      have hshown : Trial.shown? c false ⟨subject, .failure f⟩ = some f := by
        unfold Trial.shown?
        rw [Bool.and_false]
        rfl
      have hts : ts = [] := by
        refine hlast ?_
        unfold Trial.isLast
        rw [hshown, hc]
        exact Bool.or_true _
      subst hts
      refine .inr (.inr ⟨f, ?_, ?_⟩)
      · have hunfold : abortion? c test false [⟨subject, .failure f⟩] =
            (Trial.shown? c false ⟨subject, .failure f⟩).or none := if_pos hc
        rw [hunfold, hshown]
        rfl
      · unfold shownFailures
        rw [hshown]
        rfl

/-- **Where nothing is kept and nothing ends the run,** every example has succeeded. -/
theorem all_success {c : Config} (hc : c.handling ≠ .report) {test : String} {ts : List Trial}
    (hstops : StopsAtLast c false ts) (hnone : abortion? c test false ts = none)
    (hkept : keptFailures c false ts = []) : ∀ t ∈ ts, t.verdict = .success := by
  cases hhandling : c.handling with
  | report => exact absurd hhandling hc
  | stop =>
    rcases abortion?_of_stop hhandling test hstops with ⟨-, hts⟩ | hsome | ⟨f, hsome, -⟩
    · exact hts
    · rw [hnone] at hsome
      cases hsome
    · rw [hnone] at hsome
      cases hsome
  | collect =>
    have hshown : shownFailures c false ts = [] := by
      unfold keptFailures at hkept
      rw [if_pos hhandling] at hkept
      exact hkept
    have hstop : c.handling ≠ .stop := by
      rw [hhandling]
      exact fun h => nomatch h
    rcases abortion?_of_ne_stop hstop test false ts with ⟨-, hts⟩ | hsome
    · intro t ht
      have hfailure := shownFailures_eq_nil hshown t ht
      have hinterrupt := hts t ht
      unfold Trial.isFailure at hfailure
      cases hverdict : t.verdict with
      | success => rfl
      | interrupt => exact absurd hverdict hinterrupt
      | failure f =>
        rw [hverdict] at hfailure
        cases hfailure
    · rw [hnone] at hsome
      cases hsome

end Test

end Transcript
