import Transcript.File.Harness
import Transcript.Proofs.Test.Trial

/-!
# Test cases that share a runner

All test cases of a file share one runner, and with it the failures that are collected. A run that
comes to its end takes all of them. A run that is interrupted takes none, and those that it has
collected are left behind for the next run that comes to its end.

Results:
* `runCase_ran`: how a run of a test case ends, by its trials.
* `Shared.failures_eq`: the failures that a shared runner holds are those left behind.
* `runCase_faithful`: the failures of a run are its own exactly if none was left behind.
* `interrupted_failure_left_behind`: a test case that passes is told to have failed.
-/

namespace Transcript.File

open Lang Test

/-! ## One run -/

/-- The trials of a test case, unless there is a reason not to run it. -/
def trialsUnless (config : Config) (c : Case) : Except Failure (Option (List Char)) → Host (List Trial)
  | .ok none => trialsOf config c
  | _ => return []

/-- **The trials of a test case** in a harness. -/
def caseTrials (config : Config) (c : Case) : Host (List Trial) := do
  trialsUnless config c (← skipReason? c)

/-- **How a run of a test case ends,** by its trials: its outcome, and what becomes of the runner. -/
inductive Ran (c : Case) (r : Runner) (ts : List Trial) :
    Except Failure CaseOutcome → Runner → Prop
  /-- It is not run. -/
  | skipped (reason : List Char) : ts = [] → Ran c r ts (.ok (.skipped reason)) r
  /-- Its condition cannot be evaluated. -/
  | undecided (f : Failure) : ts = [] → Ran c r ts (.error f) r
  /-- It is interrupted, and the failures that it has collected stay with the runner. -/
  | interrupted (r' : Runner) : r'.config = r.config →
    r'.failures = r.failures ++ keptFailures r.config false ts →
    Ran c r ts (.error (.interrupted c.region.name)) r'
  /-- It ends with its first failure. -/
  | stopped (f : Failure) (r' : Runner) : r'.config = r.config →
    r'.failures = r.failures ++ keptFailures r.config false ts → r.config.handling = .stop →
    shownFailures r.config false ts = [f] → Ran c r ts (.ok (.failed [f])) r'
  /-- All its examples are run, or the last one that is to be run. It takes all failures. -/
  | passed (t : Tally) (r' : Runner) : r'.config = r.config → r'.failures = [] →
    abortion? r.config c.region.name false ts = none → t.attempted = UInt64.ofNat ts.length →
    r.failures ++ keptFailures r.config false ts = [] → Ran c r ts (.ok (.passed t)) r'
  | failed (r' : Runner) : r'.config = r.config → r'.failures = [] →
    abortion? r.config c.region.name false ts = none →
    r.failures ++ keptFailures r.config false ts ≠ [] →
    Ran c r ts (.ok (.failed (r.failures ++ keptFailures r.config false ts))) r'

theorem caseTrials_spec {config : Config} {c : Case} {ts : List Trial} {w w' : World}
    (h : caseTrials config c w = some (ts, w')) :
    (∀ t ∈ ts, t.subject ∈ c.region.examples) ∧ StopsAtLast config false ts := by
  obtain ⟨reason, w₁, -, h⟩ := Host.bind_eq_some.mp h
  unfold trialsUnless at h
  split at h
  · obtain ⟨hts, hstops⟩ := trialsOf_spec h
    exact ⟨fun t ht => (hts t ht).1, hstops⟩
  · cases h
    exact ⟨(fun t ht => nomatch ht), trivial⟩

/-- **A run of a test case** ends in one of these ways. -/
theorem runCase_ran {c : Case} {r r' : Runner} {o : Except Failure CaseOutcome} {w w' : World}
    (h : runCase c r w = some ((o, r'), w')) :
    ∃ ts w₁, caseTrials r.config c w = some (ts, w₁) ∧ Ran c r ts o r' := by
  unfold runCase at h
  obtain ⟨reason, w₁, hreason, h⟩ := Host.bind_eq_some.mp h
  have trials_of {ts : List Trial} {w₂ : World}
      (hts : trialsUnless r.config c reason w₁ = some (ts, w₂)) :
      caseTrials r.config c w = some (ts, w₂) := Host.bind_eq_some.mpr ⟨reason, w₁, hreason, hts⟩
  cases reason with
  | error f =>
    cases h
    exact ⟨[], w', trials_of rfl, .undecided f rfl⟩
  | ok reason =>
    cases reason with
    | some reason =>
      cases h
      exact ⟨[], w', trials_of rfl, .skipped reason rfl⟩
    | none =>
      obtain ⟨⟨done, r₁⟩, w₂, hrun, h⟩ := Host.bind_eq_some.mp h
      obtain ⟨ts, w₃, hts, hconfig, hfailures, hresult⟩ := run_trials hrun
      obtain ⟨htrials, hstops⟩ := trialsOf_spec hts
      refine ⟨ts, w₃, trials_of hts, ?_⟩
      dsimp only at h
      rcases hresult with ⟨f, habort, hdone⟩ | ⟨t, hnone, hdone, hattempted⟩
      · rw [hdone] at h
        by_cases hstop : r.config.handling = .stop
        · rcases abortion?_of_stop hstop c.region.name hstops with
            ⟨hnone, -⟩ | hinterrupted | ⟨f', hf', hshown⟩
          · rw [hnone] at habort
            cases habort
          · cases hinterrupted.symm.trans habort
            cases h
            exact .interrupted _ hconfig hfailures
          · cases hf'.symm.trans habort
            obtain ⟨t, ht, hverdict⟩ := mem_shownFailures (hshown ▸ List.mem_singleton_self f)
            have hexample := (htrials t ht).2 f hverdict
            dsimp only at h
            rw [if_pos hexample] at h
            cases h
            exact .stopped f _ hconfig hfailures hstop hshown
        · rcases abortion?_of_ne_stop hstop c.region.name false ts with ⟨hnone, -⟩ | hinterrupted
          · rw [hnone] at habort
            cases habort
          · cases hinterrupted.symm.trans habort
            cases h
            exact .interrupted _ hconfig hfailures
      · rw [hdone] at h
        cases h
        have htaken : r₁.takeFailures.1 = r.failures ++ keptFailures r.config false ts := hfailures
        rw [htaken]
        cases hempty : r.failures ++ keptFailures r.config false ts with
        | nil => exact .passed t _ hconfig rfl hnone hattempted hempty
        | cons f fs =>
          have hne : r.failures ++ keptFailures r.config false ts ≠ [] := by
            rw [hempty]
            exact List.cons_ne_nil f fs
          have hfailed (r' : Runner) (hconfig : r'.config = r.config) (htaken : r'.failures = []) :
              Ran c r ts _ r' := .failed r' hconfig htaken hnone hne
          rw [hempty] at hfailed
          exact hfailed _ hconfig rfl

/-! ## Runs before -/

/-- **A run that has been:** its trials, and how it ended. -/
structure Past where
  /-- The trials. -/
  trials : List Trial
  /-- The outcome. -/
  outcome : Except Failure CaseOutcome

/-- **A runner that test cases of a file have shared,** by their runs, the last one first. The test
cases, their order, how often they are run and what has happened in between are arbitrary. -/
inductive Shared (config : HarnessConfig) : List Past → Runner → Prop
  /-- Nothing has been run. -/
  | new : Shared config [] (.new config.config)
  /-- One more test case has been run. -/
  | run {past : List Past} {r r' : Runner} {c : Case} {ts : List Trial}
      {o : Except Failure CaseOutcome} {w w₁ w' : World} : Shared config past r →
    caseTrials config.config c w = some (ts, w₁) → runCase c r w = some ((o, r'), w') →
    Shared config (⟨ts, o⟩ :: past) r'

/-- **The failures left behind:** those that interrupted runs have collected since a run has come to
its end. -/
def leftBehind (config : Config) : List Past → List Failure
  | [] => []
  | p :: past =>
    match p.outcome with
    | .ok (.passed _) | .ok (.failed _) => []
    | .ok (.skipped _) => leftBehind config past
    | .error _ => leftBehind config past ++ keptFailures config false p.trials

theorem HarnessConfig.handling_eq (config : HarnessConfig) :
    config.config.handling = .collect ∨ config.config.handling = .stop := by
  unfold HarnessConfig.config
  dsimp only
  split_ifs
  · exact .inl rfl
  · exact .inr rfl

theorem keptFailures_of_stop {c : Config} (h : c.handling = .stop) (ts : List Trial) :
    keptFailures c false ts = [] := by
  unfold keptFailures
  rw [h]
  rfl

theorem leftBehind_of_stop {c : Config} (h : c.handling = .stop) (past : List Past) :
    leftBehind c past = [] := by
  induction past with
  | nil => rfl
  | cons p past ih =>
    unfold leftBehind
    rw [ih, keptFailures_of_stop h]
    split
    all_goals rfl

/-- **The failures that a shared runner holds** are those left behind. -/
theorem Shared.failures_eq {config : HarnessConfig} {past : List Past} {r : Runner}
    (h : Shared config past r) :
    r.config = config.config ∧ r.failures = leftBehind config.config past := by
  induction h with
  | new => exact ⟨rfl, rfl⟩
  | run hshared htrials hrun ih =>
    obtain ⟨hconfig, hfailures⟩ := ih
    obtain ⟨ts', w₂, htrials', hran⟩ := runCase_ran hrun
    rw [hconfig] at htrials'
    cases htrials.symm.trans htrials'
    unfold leftBehind
    cases hran with
    | skipped => exact ⟨hconfig, hfailures⟩
    | undecided f hts =>
      refine ⟨hconfig, ?_⟩
      dsimp only
      rw [hts, keptFailures_nil, List.append_nil]
      exact hfailures
    | interrupted r' hconfig' hfailures' =>
      rw [hconfig, hfailures] at hfailures'
      exact ⟨hconfig'.trans hconfig, hfailures'⟩
    | stopped f r' hconfig' hfailures' hstop =>
      rw [hconfig] at hstop hfailures'
      refine ⟨hconfig'.trans hconfig, ?_⟩
      rw [hfailures', hfailures, leftBehind_of_stop hstop, keptFailures_of_stop hstop]
      rfl
    | passed t r' hconfig' htaken => exact ⟨hconfig'.trans hconfig, htaken⟩
    | failed r' hconfig' htaken => exact ⟨hconfig'.trans hconfig, htaken⟩

/-! ## Failures and the test cases they belong to -/

/-- **An outcome that is true to the trials of the run** of a test case. -/
structure Faithful (config : Config) (c : Case) (ts : List Trial)
    (o : Except Failure CaseOutcome) : Prop where
  /-- Its failures are those that are shown of the trials, -/
  shown : ∀ failures, o = .ok (.failed failures) → failures = shownFailures config false ts
  /-- and each is how an example of the test case has ended. -/
  own : ∀ failures, o = .ok (.failed failures) → ∀ f ∈ failures,
    ∃ t ∈ ts, t.subject ∈ c.region.examples ∧ t.verdict = .failure f
  /-- It has passed only if every example has succeeded that was tried, -/
  passed : ∀ t, o = .ok (.passed t) → t.attempted = UInt64.ofNat ts.length ∧ ∀ t ∈ ts, t.verdict = .success
  /-- and failed only if not. -/
  failed : ∀ failures, o = .ok (.failed failures) → ∃ t ∈ ts, t.verdict ≠ .success

theorem faithful_of_shown {config : Config} {c : Case} {ts : List Trial} {failures : List Failure}
    (hts : ∀ t ∈ ts, t.subject ∈ c.region.examples) (hne : failures ≠ [])
    (h : failures = shownFailures config false ts) :
    Faithful config c ts (.ok (.failed failures)) where
  shown := by
    rintro _ ⟨⟩
    exact h
  own := by
    rintro _ ⟨⟩ f hf
    obtain ⟨t, ht, hverdict⟩ := mem_shownFailures (h ▸ hf)
    exact ⟨t, ht, hts t ht, hverdict⟩
  passed := fun _ h => nomatch h
  failed := by
    rintro _ ⟨⟩
    obtain ⟨f, fs, hcons⟩ := List.exists_cons_of_ne_nil hne
    obtain ⟨t, ht, hverdict⟩ :=
      mem_shownFailures (h ▸ hcons ▸ List.mem_cons_self : f ∈ shownFailures config false ts)
    refine ⟨t, ht, ?_⟩
    rw [hverdict]
    exact fun h => nomatch h

/-- A test case has passed if all its trials are successes. -/
theorem faithful_of_success {config : Config} {c : Case} {ts : List Trial} {t : Tally}
    (hattempted : t.attempted = UInt64.ofNat ts.length) (hsuccess : ∀ t ∈ ts, t.verdict = .success) :
    Faithful config c ts (.ok (.passed t)) where
  shown := fun _ h => nomatch h
  own := fun _ h => nomatch h
  passed := by
    rintro _ ⟨⟩
    exact ⟨hattempted, hsuccess⟩
  failed := fun _ h => nomatch h

/-- Outcomes that are not about trials are true to them. -/
theorem faithful_of_not_ended {config : Config} {c : Case} {ts : List Trial}
    {o : Except Failure CaseOutcome} (hpassed : ∀ t, o ≠ .ok (.passed t))
    (hfailed : ∀ failures, o ≠ .ok (.failed failures)) : Faithful config c ts o where
  shown := fun failures h => absurd h (hfailed failures)
  own := fun failures h => absurd h (hfailed failures)
  passed := fun t h => absurd h (hpassed t)
  failed := fun failures h => absurd h (hfailed failures)

/-- **Failures stay with their test case** exactly if none was left behind. A run of a test case by
a shared runner is told to have passed or failed as its trials say, and its failures are its own,
unless it comes to its end with failures where some were left behind: then these are told first. -/
theorem runCase_faithful {config : HarnessConfig} {past : List Past} {c : Case} {r r' : Runner}
    {o : Except Failure CaseOutcome} {w w' : World} (hshared : Shared config past r)
    (h : runCase c r w = some ((o, r'), w')) :
    ∃ ts w₁, caseTrials config.config c w = some (ts, w₁) ∧
      (Faithful config.config c ts o ↔
        leftBehind config.config past = [] ∨ ∀ failures, o ≠ .ok (.failed failures)) ∧
      ∀ failures, o = .ok (.failed failures) →
        failures = leftBehind config.config past ++ shownFailures config.config false ts := by
  obtain ⟨hconfig, hfailures⟩ := hshared.failures_eq
  obtain ⟨ts, w₁, htrials, hran⟩ := runCase_ran h
  rw [hconfig] at htrials
  refine ⟨ts, w₁, htrials, ?_⟩
  obtain ⟨hsubjects, hstops⟩ := caseTrials_spec htrials
  have not_ended {o : Except Failure CaseOutcome} (hpassed : ∀ t, o ≠ .ok (.passed t))
      (hfailed : ∀ failures, o ≠ .ok (.failed failures)) :
      (Faithful config.config c ts o ↔
          leftBehind config.config past = [] ∨ ∀ failures, o ≠ .ok (.failed failures)) ∧
        ∀ failures, o = .ok (.failed failures) →
          failures = leftBehind config.config past ++ shownFailures config.config false ts :=
    ⟨⟨fun _ => .inr hfailed, fun _ => faithful_of_not_ended hpassed hfailed⟩,
      fun failures h => absurd h (hfailed failures)⟩
  cases hran with
  | skipped reason => exact not_ended (fun t h => nomatch h) fun failures h => nomatch h
  | undecided f hts => exact not_ended (fun t h => nomatch h) fun failures h => nomatch h
  | interrupted r' => exact not_ended (fun t h => nomatch h) fun failures h => nomatch h
  | stopped f r' hconfig' hfailures' hstop hshown =>
    rw [hconfig] at hstop hshown
    have hleft := leftBehind_of_stop hstop past
    refine ⟨⟨fun _ => .inl hleft,
      fun _ => faithful_of_shown hsubjects (List.cons_ne_nil f []) hshown.symm⟩, ?_⟩
    rintro _ ⟨⟩
    rw [hleft, hshown]
    rfl
  | passed t r' hconfig' htaken hnone hattempted hempty =>
    rw [hconfig] at hnone hempty
    rw [hfailures] at hempty
    obtain ⟨hleft, hkept⟩ := List.append_eq_nil_iff.mp hempty
    have hreport : config.config.handling ≠ .report := by
      rcases config.handling_eq with hhandling | hhandling
      all_goals
        rw [hhandling]
        exact fun h => nomatch h
    have hsuccess := all_success hreport hstops hnone hkept
    exact ⟨⟨fun _ => .inl hleft, fun _ => faithful_of_success hattempted hsuccess⟩,
      fun failures h => nomatch h⟩
  | failed r' hconfig' htaken hnone hne =>
    have hcollect : config.config.handling = .collect := by
      rcases config.handling_eq with hhandling | hstop
      · exact hhandling
      · rw [hconfig, hfailures, leftBehind_of_stop hstop, keptFailures_of_stop hstop] at hne
        exact absurd rfl hne
    have hkept : keptFailures config.config false ts = shownFailures config.config false ts :=
      if_pos hcollect
    rw [hconfig, hfailures, hkept] at hne ⊢
    refine ⟨⟨fun hfaithful => .inl ?_, ?_⟩, ?_⟩
    · exact List.append_left_eq_self.mp (hfaithful.shown _ rfl)
    · rintro (hleft | hnot)
      · exact faithful_of_shown hsubjects hne (by rw [hleft, List.nil_append])
      · exact absurd rfl (hnot _)
    · rintro _ ⟨⟩
      rfl

/-! ## Two test cases -/

/-- Two test cases of a document, the first of which has been run: its run, the second one, and the
runner and the world that it finds. -/
def afterFirst (config : HarnessConfig) (one two : String) :
    Option (Past × Case × Runner × World) := do
  let region ← (Region.ofText one.toList "one" "a.rst" 3).toOption
  let region' ← (Region.ofText two.toList "two" "a.rst" 10).toOption
  let (space, w) := World.empty.newSpace .empty
  let (space', w) := w.newSpace .empty
  let (ts, _) ← caseTrials config.config ⟨region, space⟩ w
  let ((o, r), w) ← runCase ⟨region, space⟩ (.new config.config) w
  return (⟨ts, o⟩, ⟨region', space'⟩, r, w)

theorem afterFirst_shared {config : HarnessConfig} {one two : String} {p : Past} {c : Case}
    {r : Runner} {w : World} (h : afterFirst config one two = some (p, c, r, w)) :
    Shared config [p] r := by
  unfold afterFirst at h
  obtain ⟨region, -, h⟩ := Option.bind_eq_some_iff.mp h
  obtain ⟨region', -, h⟩ := Option.bind_eq_some_iff.mp h
  obtain ⟨⟨ts, w₁⟩, hts, h⟩ := Option.bind_eq_some_iff.mp h
  obtain ⟨⟨⟨o, r'⟩, w₂⟩, hrun, h⟩ := Option.bind_eq_some_iff.mp h
  cases h
  exact .run .new hts hrun

/-- Whether an outcome is that all examples have succeeded, or that some have failed. -/
def isVerdict (passed : Bool) : Except Failure CaseOutcome → Bool
  | .ok (.passed _) => passed
  | .ok (.failed _) => !passed
  | _ => false

/-- A test case has failed, and the next one passes as its trials say. -/
theorem runCase_faithful_after_failure : ∃ p c r w o r' w' ts w₁ t,
    Shared ⟨.empty, true⟩ [p] r ∧ isVerdict false p.outcome = true ∧
      runCase c r w = some ((o, r'), w') ∧ o = .ok (.passed t) ∧
      caseTrials (HarnessConfig.config ⟨.empty, true⟩) c w = some (ts, w₁) ∧
      Faithful (HarnessConfig.config ⟨.empty, true⟩) c ts o := by
  have hfacts : (afterFirst ⟨.empty, true⟩ ">>> 1\n2\n" ">>> 1\n1\n").any (fun (p, c, r, w) =>
      isVerdict false p.outcome && (runCase c r w).any fun x => isVerdict true x.1.1) = true := by
    decide +kernel
  obtain ⟨⟨p, c, r, w⟩, hfirst, hfacts⟩ := (Option.any_eq_true _ _).mp hfacts
  obtain ⟨hp, hfacts⟩ := Bool.and_eq_true_iff.mp hfacts
  obtain ⟨⟨⟨o, r'⟩, w'⟩, hrun, ho⟩ := (Option.any_eq_true _ _).mp hfacts
  have hshared := afterFirst_shared hfirst
  obtain ⟨ts, w₁, hts, hfaithful, -⟩ := runCase_faithful hshared hrun
  have hnone : leftBehind (HarnessConfig.config ⟨.empty, true⟩) [p] = [] := by
    unfold leftBehind
    unfold isVerdict at hp
    split at hp
    · cases hp
    · rename_i houtcome
      rw [houtcome]
    · cases hp
  unfold isVerdict at ho
  split at ho
  · rename_i t houtcome
    exact ⟨p, c, r, w, o, r', w', ts, w₁, t, hshared, hp, hrun, houtcome, hts,
      hfaithful.mpr (.inl hnone)⟩
  · cases ho
  · cases ho

/-- **A test case that passes is told to have failed.** Its only example succeeds, but the failure of
another test case that was interrupted is left behind and told in its outcome. -/
theorem interrupted_failure_left_behind : ∃ p c r w o r' w' ts w₁,
    Shared ⟨.empty, true⟩ [p] r ∧ runCase c r w = some ((o, r'), w') ∧
      caseTrials (HarnessConfig.config ⟨.empty, true⟩) c w = some (ts, w₁) ∧
      (∀ t ∈ ts, t.verdict = .success) ∧ (∃ failures, o = .ok (.failed failures)) ∧
      ¬ Faithful (HarnessConfig.config ⟨.empty, true⟩) c ts o := by
  have hfacts : (afterFirst ⟨.empty, true⟩ ">>> 1\n2\n>>> interrupt()\n" ">>> 1\n1\n").any
      (fun (_, c, r, w) => ((runCase c r w).any fun x => isVerdict false x.1.1) &&
        (caseTrials (HarnessConfig.config ⟨.empty, true⟩) c w).any fun x =>
          x.1.all fun t => match t.verdict with
            | .success => true
            | _ => false) = true := by decide +kernel
  obtain ⟨⟨p, c, r, w⟩, hfirst, hfacts⟩ := (Option.any_eq_true _ _).mp hfacts
  obtain ⟨hrun, htrials⟩ := Bool.and_eq_true_iff.mp hfacts
  obtain ⟨⟨⟨o, r'⟩, w'⟩, hrun, ho⟩ := (Option.any_eq_true _ _).mp hrun
  obtain ⟨⟨ts, w₁⟩, hts, hall⟩ := (Option.any_eq_true _ _).mp htrials
  have hsuccess : ∀ t ∈ ts, t.verdict = .success := by
    intro t ht
    have := List.all_eq_true.mp hall t ht
    split at this
    · assumption
    · cases this
  unfold isVerdict at ho
  split at ho
  · cases ho
  · rename_i failures houtcome
    refine ⟨p, c, r, w, o, r', w', ts, w₁, afterFirst_shared hfirst, hrun, hts, hsuccess,
      ⟨failures, houtcome⟩, fun hfaithful => ?_⟩
    obtain ⟨t, ht, hne⟩ := hfaithful.failed failures houtcome
    exact hne (hsuccess t ht)
  · cases ho

end Transcript.File
