import Transcript.Proofs.Summary
import Transcript.Proofs.Test.Reporting

/-!
# Counts

A run of a test case counts every example once that it gets to, as attempted or as skipped, and those of the
attempted ones that have failed. It gets to all of them unless an example ends it, which takes a flag and a
failure. What is counted so can be recorded, merged and summed up in any way, and still no more has failed than
was attempted, as long as the sums fit into machine words. So the number of examples that have passed, which a
summary tells, is a number. A ledger that is merged into itself often enough has lost its counts.

Results:
* `afterVerdict_cases`: what comes after an example.
* `runExamples_counts`: the failures counted are those of the trials, and the examples counted are the first ones.
* `run_counts`, `run_counts_fit`: the counts of a whole test case, as numbers and as words.
* `failed_sum_le`, `totals_failed_pos_iff`: sums of such counts that fit.
* `counts_summed_up`: what this makes of test cases, ledgers and summaries.
* `counts_wrapped`: sums that do not fit.
-/

namespace Transcript.Test

open Lang

/-! ## One example -/

/-- The number of failures of some trials. -/
def failureCount (ts : List Trial) : Nat := ts.countP Trial.isFailure

/-- **What comes after an example:** its failure ends the run, or it is counted and the run proceeds. -/
theorem afterVerdict_cases (c : Config) (test : String) (flags : FlagSet) (quiet : Bool) (e : Session.Example)
    (v : Verdict) (p : Progress) :
    (∃ f, afterVerdict c test flags quiet v p = .abort f p) ∨
      ∃ q, q.counts = { p.counts with failed := p.counts.failed + failureCount [⟨e, v⟩] } ∧
        afterVerdict c test flags quiet v p = proceed flags q := by
  cases v with
  | success => exact .inr ⟨_, Progress.counts_writeIf p _ _, rfl⟩
  | interrupt => exact .inl ⟨_, rfl⟩
  | failure f =>
    by_cases hstop : c.handling = .stop ∧ quiet = false
    · obtain ⟨hstop, rfl⟩ := hstop
      refine .inl ⟨f, ?_⟩
      unfold afterVerdict handle
      rw [hstop]
      rfl
    · cases quiet with
      | true => exact .inr ⟨p.fail, rfl, rfl⟩
      | false =>
        obtain ⟨q, hq, hnext⟩ := afterVerdict_failure (fun h => hstop ⟨h, rfl⟩) test flags false f p
        refine .inr ⟨q.fail, ?_, hnext⟩
        change { q.counts with failed := q.counts.failed + 1 } = _
        rw [hq]
        rfl

theorem proceed_goOn {flags : FlagSet} {p q : Progress} (h : proceed flags p = .goOn q) : q = p := by
  unfold proceed at h
  split at h
  · cases h
  · cases h
    rfl

theorem proceed_stop {flags : FlagSet} {p q : Progress} (h : proceed flags p = .stop q) :
    q = p ∧ 0 < p.counts.failed ∧ flags.has .failFast = true := by
  unfold proceed at h
  split at h
  · rename_i hstop
    obtain ⟨hfailed, hfast⟩ := Bool.and_eq_true_iff.mp hstop
    cases h
    exact ⟨rfl, of_decide_eq_true hfailed, hfast⟩
  · cases h

/-! ## Examples one after the other -/

/-- **An example has ended the run** after so many of some examples: it is the last one of these and was run, the
flag holds for it, and there is a failure. -/
def EndedFast (c : Config) (es : List Session.Example) (n failed : Nat) : Prop :=
  ∃ before e after, es = before ++ e :: after ∧ n = before.length + 1 ∧
    (e.overrides.apply c.flags).has .skip = false ∧ (e.overrides.apply c.flags).has .failFast = true ∧ 0 < failed

theorem EndedFast.cons {c : Config} {es : List Session.Example} {n failed : Nat} (h : EndedFast c es n failed)
    (e : Session.Example) : EndedFast c (e :: es) (n + 1) failed := by
  obtain ⟨before, last, after, hes, hn, hends⟩ := h
  exact ⟨e :: before, last, after, congrArg (e :: ·) hes, congrArg (· + 1) hn, hends⟩

/-- So many of some examples are counted: all of them, or those up to the one that has ended the run. -/
def Covers (c : Config) (es : List Session.Example) (n failed : Nat) : Prop :=
  n = es.length ∨ EndedFast c es n failed

theorem Covers.cons {c : Config} {es : List Session.Example} {n failed : Nat} (h : Covers c es n failed)
    (e : Session.Example) : Covers c (e :: es) (n + 1) failed :=
  h.imp (congrArg (· + 1)) (EndedFast.cons · e)

theorem Covers.le {c : Config} {es : List Session.Example} {n failed : Nat} (h : Covers c es n failed) :
    n ≤ es.length := by
  rcases h with rfl | ⟨before, e, after, rfl, rfl, -⟩
  · exact Nat.le_refl _
  · rw [List.length_append, List.length_cons]
    omega

/-- **The failures counted are those of the trials, and the examples counted are the first ones,** unless a
failure ends the run. -/
theorem runExamples_counts {c : Config} {case : Case} {index : Nat} {es : List Session.Example}
    {x x' : Executor} {p p' : Progress} {failed : Bool} {w w' : World}
    (hfailed : decide (0 < p.counts.failed) = failed)
    (h : runExamples c case index es x p w = some ((none, p', x'), w')) :
    ∃ ts n, runTrials c case index es x failed w = some ((ts, x'), w') ∧
      p'.counts.failed = p.counts.failed + failureCount ts ∧
      p'.counts.attempted + p'.counts.skipped = p.counts.attempted + p.counts.skipped + n ∧
      Covers c es n p'.counts.failed := by
  induction es generalizing index x p failed w with
  | nil =>
    cases h
    exact ⟨[], 0, rfl, rfl, rfl, .inl rfl⟩
  | cons e es ih =>
    rcases runExamples_step hfailed h with
      ⟨hskip, q, htally, -, hq, h⟩ | ⟨hskip, v, x₁, w₁, q, hv, htally, -, hq, h⟩
    · obtain ⟨ts, n, hts, hcount, hsum, hcovers⟩ := ih hq h
      rw [htally] at hcount hsum
      refine ⟨ts, n + 1, ?_, hcount, ?_, hcovers.cons e⟩
      · rw [runTrials_of_skip hskip]
        exact hts
      · rw [hsum]
        change p.counts.attempted + (p.counts.skipped + 1) + n = _
        omega
    · have hcounts := afterVerdict_cases c case.region.name (e.overrides.apply c.flags)
        ((e.overrides.apply c.flags).has .reportOnlyFirstFailure && failed) e v q
      rw [htally] at hcounts
      have hcomes : Comes c case.region.name failed ⟨e, v⟩ q _ := afterVerdict_comes hq v
      rcases hcomes with ⟨-, q', hnext, hadds⟩ | ⟨f, -, -, hnext, -⟩
      · rw [hnext] at h hcounts
        cases hlast : Trial.isLast c failed ⟨e, v⟩ with
        | true =>
          rw [hlast] at h hcounts
          cases h
          rcases hcounts with ⟨f, hcounts⟩ | ⟨q₁, hq₁, hproceed⟩
          · cases hcounts
          · obtain ⟨rfl, hpositive, hfast⟩ := proceed_stop hproceed.symm
            refine ⟨[⟨e, v⟩], 1, runTrials_of_last hskip hv hlast, ?_, ?_, .inr ?_⟩
            · rw [hq₁]
              rfl
            · rw [hq₁]
              exact Nat.add_right_comm _ 1 _
            · exact ⟨[], e, es, rfl, rfl, hskip, hfast, hpositive⟩
        | false =>
          rw [hlast] at h hcounts
          rcases hcounts with ⟨f, hcounts⟩ | ⟨q₁, hq₁, hproceed⟩
          · cases hcounts
          · cases proceed_goOn hproceed.symm
            obtain ⟨ts, n, hts, hcount, hsum, hcovers⟩ := ih hadds.failures h
            rw [hq₁] at hcount hsum
            refine ⟨⟨e, v⟩ :: ts, n + 1, runTrials_of_next hskip hv hlast hts, ?_, ?_, hcovers.cons e⟩
            · rw [hcount]
              change p.counts.failed + failureCount [⟨e, v⟩] + failureCount ts = _
              rw [Nat.add_assoc]
              unfold failureCount
              rw [← List.countP_append, List.singleton_append]
            · rw [hsum]
              change p.counts.attempted + 1 + p.counts.skipped + n = _
              omega
      · rw [hnext] at h
        cases h

/-! ## Test cases -/

/-- **The counts of a test case** that comes to its end, by its trials and its examples. -/
theorem run_counts {r r' : Runner} {case : Case} {clears : Bool} {done : Conclusion} {t : Tally} {w w' : World}
    (h : r.run case clears w = some ((done, r'), w')) (hdone : done.result = .ok t) :
    ∃ ts w₁, ∃ n : Counts, trialsOf r.config case w = some (ts, w₁) ∧ t = n.tally ∧ n.failed = failureCount ts ∧
      n.attempted = ts.length ∧ Covers r.config case.region.examples (n.attempted + n.skipped) n.failed ∧
      r'.config = r.config ∧ r'.ledger = r.ledger.record case.region.name t := by
  unfold Runner.run at h
  obtain ⟨x, w₁, hx, h⟩ := Host.bind_eq_some.mp h
  obtain ⟨⟨failure, p, x'⟩, w₂, hexamples, h⟩ := Host.bind_eq_some.mp h
  dsimp only at h
  obtain ⟨⟨⟩, w₃, -, h⟩ := Host.bind_eq_some.mp h
  obtain ⟨output, w₄, -, h⟩ := Host.bind_eq_some.mp h
  obtain ⟨w₅, h⟩ := Host.exists_of_when h
  cases failure with
  | some f =>
    cases h
    cases hdone
  | none =>
    cases h
    cases hdone
    obtain ⟨ts, hts, -, hattempted, -⟩ := runExamples_trials rfl hexamples
    obtain ⟨ts', n, hts', hfailures, hsum, hcovers⟩ := runExamples_counts rfl hexamples
    cases hts.symm.trans hts'
    refine ⟨ts, w₂, p.counts,
      Host.bind_eq_some.mpr ⟨x, w₁, hx, Host.bind_eq_some.mpr ⟨(ts, x'), w₂, hts, rfl⟩⟩, rfl, ?_, ?_, ?_, rfl, rfl⟩
    · rw [hfailures]
      exact Nat.zero_add _
    · rw [hattempted]
      exact Nat.zero_add _
    · rw [hsum]
      exact (Nat.zero_add n).symm ▸ hcovers

/-- A machine word can count the examples of a test case. -/
def Case.IsCountable (case : Case) : Prop := case.region.examples.length < UInt64.size

/-- **Counts of examples in machine words,** where these can count the examples. -/
theorem run_counts_fit {r r' : Runner} {case : Case} {clears : Bool} {done : Conclusion} {t : Tally} {w w' : World}
    (h : r.run case clears w = some ((done, r'), w')) (hdone : done.result = .ok t) (hcase : case.IsCountable) :
    t.failed ≤ t.attempted ∧ t.attempted.toNat + t.skipped.toNat ≤ case.region.examples.length ∧
      Covers r.config case.region.examples (t.attempted.toNat + t.skipped.toNat) t.failed.toNat := by
  obtain ⟨ts, w₁, n, -, rfl, hfailed, hattempted, hcovers, -⟩ := run_counts h hdone
  have hle : n.failed ≤ n.attempted := by
    rw [hfailed, hattempted]
    exact List.countP_le_length
  have hlength : n.attempted + n.skipped < UInt64.size := Nat.lt_of_le_of_lt hcovers.le hcase
  obtain ⟨hf, ha, hs⟩ := Counts.toNat_tally (n := n) (by omega) (by omega) (by omega)
  rw [UInt64.le_iff_toNat_le, hf, ha, hs]
  exact ⟨hle, hcovers.le, hcovers⟩

/-- **The counts of some run** of a test case that has come to its end. -/
def IsResult (t : Tally) : Prop :=
  ∃ (r r' : Runner) (case : Case) (clears : Bool) (done : Conclusion) (w w' : World),
    case.IsCountable ∧ r.run case clears w = some ((done, r'), w') ∧ done.result = .ok t

/-- No more has failed than was attempted. -/
theorem IsResult.failed_le {t : Tally} (h : IsResult t) : t.failed ≤ t.attempted := by
  obtain ⟨r, r', case, clears, done, w, w', hcase, hrun, hdone⟩ := h
  exact (run_counts_fit hrun hdone hcase).1

/-! ## Ledgers -/

/-- A test is told to have failed if and only if one of its examples has. -/
theorem standing_failing_iff {t : Tally} (h : t.failed ≤ t.attempted) : t.standing = .failing ↔ 0 < t.failed := by
  unfold Tally.standing
  by_cases hattempted : t.attempted = 0
  · rw [hattempted] at h
    rw [if_pos hattempted]
    exact iff_of_false nofun (UInt64.not_lt.mpr h)
  · rw [if_neg hattempted]
    by_cases hfailed : t.failed = 0
    · rw [if_pos hfailed, hfailed]
      exact iff_of_false nofun (UInt64.lt_irrefl 0)
    · rw [if_neg hfailed]
      exact iff_of_true rfl (UInt64.pos_iff_ne_zero.mpr hfailed)

/-- **Sums of results:** no more has failed than was attempted, if all that was attempted can be counted. -/
theorem failed_sum_le {results : Multiset (String × Tally)} (h : ∀ e ∈ results, IsResult e.2)
    (hfits : Ledger.exactly Tally.attempted results < UInt64.size) :
    (results.map Prod.snd).sum.failed ≤ (results.map Prod.snd).sum.attempted := by
  have hle : Ledger.exactly Tally.failed results ≤ Ledger.exactly Tally.attempted results :=
    Multiset.sum_map_le_sum_map _ _ fun e he => UInt64.le_iff_toNat_le.mp (h e he).failed_le
  rw [UInt64.le_iff_toNat_le, Ledger.toNat_sum rfl (fun _ _ => rfl) hfits,
    Ledger.toNat_sum rfl (fun _ _ => rfl) (Nat.lt_of_le_of_lt hle hfits)]
  exact hle

/-- Results without failures add up to none. -/
theorem failed_eq_zero {l : Ledger} {results : Multiset (String × Tally)} (h : l.AddsUp results)
    (hnone : ∀ e ∈ results, e.2.failed = 0) :
    (∀ name t, Bindings.get? l name = some t → t.failed = 0) ∧ l.totals.failed = 0 := by
  refine h.forall (P := fun t => t.failed = 0) rfl (fun s t hs ht => ?_) hnone
  change s.failed + t.failed = 0
  rw [hs, ht]
  rfl

/-- A failure in the totals is one of an entry. -/
theorem exists_failed_of_totals {l : Ledger} (h : 0 < l.totals.failed) :
    ∃ name t, Bindings.get? l name = some t ∧ 0 < t.failed := by
  by_contra hnone
  have hzero : ∀ e ∈ l.entries, e.2.failed = 0 := fun e he => by
    by_contra hfailed
    exact hnone ⟨e.1, e.2, Bindings.mem_entries.mp he, UInt64.pos_iff_ne_zero.mpr hfailed⟩
  exact UInt64.pos_iff_ne_zero.mp h (failed_eq_zero (Ledger.addsUp_entries l) hzero).2

/-- **The failures of a ledger** are all in its totals, if they can be counted. -/
theorem totals_failed_pos_iff {l : Ledger} {results : Multiset (String × Tally)} (h : l.AddsUp results)
    (hfits : Ledger.exactly Tally.failed results < UInt64.size) :
    0 < l.totals.failed ↔ ∃ name t, Bindings.get? l name = some t ∧ 0 < t.failed := by
  refine ⟨exists_failed_of_totals, fun ⟨name, t, hget, ht⟩ => UInt64.pos_iff_ne_zero.mpr fun htotals => ?_⟩
  have hsum : Ledger.exactly Tally.failed results = 0 := by
    rw [← Ledger.toNat_sum rfl (fun _ _ => rfl) hfits, ← h.totals, htotals]
    rfl
  have hzero : ∀ e ∈ results, e.2.failed = 0 := fun e he =>
    UInt64.toNat_inj.mp (Multiset.sum_eq_zero_iff.mp hsum _ (Multiset.mem_map_of_mem _ he))
  exact UInt64.pos_iff_ne_zero.mp ht ((failed_eq_zero h hzero).1 name t hget)

/-- **Counts are summed up.** In every run of a test case that comes to its end no more examples have failed than
were attempted, and all of them are counted unless one with the flag has ended the run. Such counts come into
ledgers by recording, merging and resetting in any order. A summary lists each recorded name once, in the section
of how its test stands, and no other name, and it tells the bad verdict only where an entry has a failure. As long
as what was attempted can be counted in a machine word, no more has failed than was attempted: in an entry, whose
test is told to have failed if one of its examples has, and in the totals, so that the number of examples that
have passed is told right. And as long as the failures can be counted, the bad verdict is told wherever an entry
has one. -/
theorem counts_summed_up :
    (∀ {r r' : Runner} {case : Case} {clears : Bool} {done : Conclusion} {t : Tally} {w w' : World},
      case.IsCountable → r.run case clears w = some ((done, r'), w') → done.result = .ok t →
        t.failed ≤ t.attempted ∧ t.attempted.toNat + t.skipped.toNat ≤ case.region.examples.length ∧
          (t.attempted.toNat + t.skipped.toNat = case.region.examples.length ∨
            EndedFast r.config case.region.examples (t.attempted.toNat + t.skipped.toNat) t.failed.toNat)) ∧
      ∀ {ι : Type} [DecidableEq ι] {acts : List (Ledger.Act ι)},
        (∀ i name t, .record i name t ∈ acts → IsResult t) →
        ∀ i l results, Ledger.after (fun _ => .empty) acts i = l →
          Ledger.gathered (fun _ => .empty) acts i = results →
          (∀ name t, Bindings.get? l name = some t →
            Ledger.ListedOnce name (l.listing t.standing) ∧ Ledger.ListedOnce name (l.summaryLines true) ∧
            (Ledger.exactly Tally.attempted (results.filter (·.1 = name)) < UInt64.size →
              t.failed ≤ t.attempted ∧ (t.standing = .failing ↔ 0 < t.failed))) ∧
          (∀ name verbose, Bindings.get? l name = none → Ledger.Unlisted name (l.summaryLines verbose)) ∧
          (Ledger.exactly Tally.attempted results < UInt64.size → l.totals.failed ≤ l.totals.attempted ∧
            (l.totals.attempted - l.totals.failed).toNat + l.totals.failed.toNat = l.totals.attempted.toNat) ∧
          ∀ verbose, ((∃ text ∈ l.summaryLines verbose, Ledger.IsBadVerdict text) →
              ∃ name t, Bindings.get? l name = some t ∧ 0 < t.failed) ∧
            (Ledger.exactly Tally.failed results < UInt64.size →
              (∃ name t, Bindings.get? l name = some t ∧ 0 < t.failed) →
                ∃ text ∈ l.summaryLines verbose, Ledger.IsBadVerdict text) := by
  constructor
  · intro r r' case clears done t w w' hcase hrun hdone
    exact run_counts_fit hrun hdone hcase
  · rintro ι _ acts hacts i l results rfl rfl
    have hadds := Ledger.addsUp_after (fun _ => .empty) acts i
    have hresults : ∀ e ∈ Ledger.gathered (fun _ => .empty) acts i, IsResult e.2 := fun e he => by
      obtain ⟨j, hj⟩ := Ledger.mem_gathered he
      exact hacts j e.1 e.2 hj
    refine ⟨fun name t hget => ⟨Ledger.listedOnce_listing hget, Ledger.listedOnce_summary hget, fun hfits => ?_⟩,
      fun name verbose hget => Ledger.unlisted_summary hget verbose, fun hfits => ?_,
      fun verbose => ⟨fun hbad => ?_, fun hfits hfailed => ?_⟩⟩
    · have hshare := (hadds name).symm.trans hget
      unfold Ledger.share at hshare
      split at hshare
      · cases hshare
        have hle := failed_sum_le (fun e he => hresults e (Multiset.mem_of_le (Multiset.filter_le _ _) he)) hfits
        exact ⟨hle, standing_failing_iff hle⟩
      · cases hshare
    · have hle := failed_sum_le hresults hfits
      rw [← hadds.totals] at hle
      refine ⟨hle, ?_⟩
      rw [UInt64.toNat_sub_of_le _ _ hle]
      exact Nat.sub_add_cancel (UInt64.le_iff_toNat_le.mp hle)
    · exact exists_failed_of_totals ((Ledger.badVerdict_iff _ verbose).mp hbad)
    · exact (Ledger.badVerdict_iff _ verbose).mpr ((totals_failed_pos_iff hadds hfits).mpr hfailed)

/-- The second of three examples fails and ends the run. -/
theorem exists_run_fast : ∃ (r r' : Runner) (case : Case) (done : Conclusion) (w' : World),
    r.run case true .empty = some ((done, r'), w') ∧ done.result = .ok ⟨1, 2, 0⟩ ∧
      case.region.examples.length = 3 := by
  let r : Runner := .new ⟨.ofList [.failFast], false, .report, .suspending⟩
  have hfacts : (Region.ofText ">>> 1\n1\n>>> 2\n3\n>>> 4\n4\n".toList "t" "t.rst" 1).toOption.any
      (fun region => region.examples.length == 3 && (r.run ⟨region, 0⟩ true .empty).any fun a =>
        a.1.1.result.toOption == some ⟨1, 2, 0⟩) = true := by
    decide +kernel
  obtain ⟨region, -, hfacts⟩ := (Option.any_eq_true _ _).mp hfacts
  obtain ⟨hlength, hfacts⟩ := Bool.and_eq_true_iff.mp hfacts
  obtain ⟨⟨⟨done, r'⟩, w'⟩, hrun, hresult⟩ := (Option.any_eq_true _ _).mp hfacts
  exact ⟨r, r', ⟨region, 0⟩, done, w', hrun, Except.toOption_eq_some.mp (eq_of_beq hresult), eq_of_beq hlength⟩

theorem isResult_fast : IsResult ⟨1, 2, 0⟩ := by
  obtain ⟨r, r', case, done, w', hrun, hdone, hlength⟩ := exists_run_fast
  refine ⟨r, r', case, true, done, .empty, w', ?_, hrun, hdone⟩
  unfold Case.IsCountable
  rw [hlength]
  decide

/-- The second of three examples fails and ends the run. Its counts are recorded twice, in two ledgers, and come
together in one of them. -/
theorem counts_summed_up_fast : ∃ (r r' : Runner) (case : Case) (done : Conclusion) (w' : World) (l : Ledger),
    r.run case true .empty = some ((done, r'), w') ∧ done.result = .ok ⟨1, 2, 0⟩ ∧
      case.region.examples.length = 3 ∧ EndedFast r.config case.region.examples 2 1 ∧
      Ledger.after (fun _ => .empty) [.record true "a" ⟨1, 2, 0⟩, .record false "b" ⟨1, 2, 0⟩, .merge true false,
        .reset false] true = l ∧
      l.totals = ⟨2, 4, 0⟩ ∧ l.totals.failed ≤ l.totals.attempted ∧
      Tally.standing ⟨1, 2, 0⟩ = .failing ∧ Ledger.ListedOnce "b" (l.listing .failing) ∧
      Ledger.ListedOnce "b" (l.summaryLines true) ∧ ∃ text ∈ l.summaryLines false, Ledger.IsBadVerdict text := by
  obtain ⟨r, r', case, done, w', hrun, hdone, hlength⟩ := exists_run_fast
  have hcase : case.IsCountable := by
    unfold Case.IsCountable
    rw [hlength]
    decide
  obtain ⟨-, -, hcounted⟩ := counts_summed_up.1 hcase hrun hdone
  have hends : EndedFast r.config case.region.examples 2 1 := hcounted.resolve_left fun h => by
    rw [hlength] at h
    exact absurd h (by decide)
  have hrecorded : ∀ (i : Bool) name t, Ledger.Act.record i name t ∈ [.record true "a" ⟨1, 2, 0⟩,
      .record false "b" ⟨1, 2, 0⟩, .merge true false, .reset false] → IsResult t := by
    intro i name t h
    have ht : t = ⟨1, 2, 0⟩ := by
      simp only [List.mem_cons, List.not_mem_nil, or_false, reduceCtorEq, Ledger.Act.record.injEq] at h
      rcases h with ⟨-, -, rfl⟩ | ⟨-, -, rfl⟩ <;> rfl
    rw [ht]
    exact isResult_fast
  obtain ⟨hentries, -, htotals, hverdict⟩ := counts_summed_up.2 hrecorded true _ _ rfl rfl
  obtain ⟨hlisting, hsummary, hentry⟩ := hentries "b" ⟨1, 2, 0⟩ (by decide +kernel)
  obtain ⟨-, hstanding⟩ := hentry (by decide +kernel)
  have hfailing : Tally.standing ⟨1, 2, 0⟩ = .failing := hstanding.mpr (by decide)
  rw [hfailing] at hlisting
  refine ⟨r, r', case, done, w', _, hrun, hdone, hlength, hends, rfl, by decide +kernel,
    (htotals (by decide +kernel)).1, hfailing, hlisting, hsummary, ?_⟩
  exact (hverdict false).2 (by decide +kernel) ⟨"b", ⟨1, 2, 0⟩, by decide +kernel, by decide⟩

/-- The counts of such a run are recorded, and the ledger is merged into itself until they do not fit: twice
the examples that were attempted make none, so that more have failed. Where two tests have such counts, their
failures make none, either, and there is no bad verdict. -/
theorem counts_wrapped :
    let doublings : List (Ledger.Act Unit) := List.replicate 63 (.merge () ())
    let one := Ledger.after (fun _ => .empty) (.record () "a" ⟨1, 2, 0⟩ :: doublings) ()
    let two := Ledger.after (fun _ => .empty)
      (.record () "a" ⟨1, 2, 0⟩ :: .record () "b" ⟨1, 2, 0⟩ :: doublings) ()
    IsResult ⟨1, 2, 0⟩ ∧
      (∃ t, Bindings.get? one "a" = some t ∧ ¬ t.failed ≤ t.attempted) ∧
      ¬ one.totals.failed ≤ one.totals.attempted ∧
      (∃ t, Bindings.get? two "a" = some t ∧ 0 < t.failed) ∧
      ¬ ∃ text ∈ two.summaryLines true, Ledger.IsBadVerdict text := by
  intro doublings one two
  let recorded : Unit → Ledger := Ledger.Act.apply (fun _ => .empty) (.record () "a" ⟨1, 2, 0⟩)
  let both : Unit → Ledger := Ledger.Act.apply recorded (.record () "b" ⟨1, 2, 0⟩)
  have heqOne : one = Ledger.after recorded doublings () := congrFun (Ledger.after_cons ..) ()
  have heqTwo : two = Ledger.after both doublings () :=
    (congrFun (Ledger.after_cons ..) ()).trans (congrFun (Ledger.after_cons ..) ())
  have hget : Bindings.get? (recorded ()) "a" = some ⟨1, 2, 0⟩ := by decide +kernel
  have hgetBoth : Bindings.get? (both ()) "a" = some ⟨1, 2, 0⟩ := by decide +kernel
  have htotals : (recorded ()).totals = ⟨1, 2, 0⟩ := by decide +kernel
  have htotalsBoth : (both ()).totals = ⟨2, 4, 0⟩ := by decide +kernel
  have hwrapped : (fun t : Tally => t + t)^[63] ⟨1, 2, 0⟩ = ⟨9223372036854775808, 0, 0⟩ := by decide +kernel
  have hvanished : (fun t : Tally => t + t)^[63] ⟨2, 4, 0⟩ = ⟨0, 0, 0⟩ := by decide +kernel
  obtain ⟨hone, honeTotals⟩ := Ledger.after_doublings recorded () 63
  obtain ⟨htwo, htwoTotals⟩ := Ledger.after_doublings both () 63
  have hone := hone "a"
  have htwo := htwo "a"
  rw [← heqOne, hget, Option.map_some, hwrapped] at hone
  rw [← heqTwo, hgetBoth, Option.map_some, hwrapped] at htwo
  rw [← heqOne, htotals, hwrapped] at honeTotals
  rw [← heqTwo, htotalsBoth, hvanished] at htwoTotals
  refine ⟨isResult_fast, ⟨_, hone, by decide⟩, ?_, ⟨_, htwo, by decide⟩, ?_⟩
  · rw [honeTotals]
    decide
  · rw [Ledger.badVerdict_iff, htwoTotals]
    decide

end Transcript.Test
