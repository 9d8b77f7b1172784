import Transcript.Proofs.File.Visits

/-!
# The first failure stops a test case

A flag makes the first failing example of a test case the last one that is tried. It is looked at where the
examples of a test case are run; the test cases of a file are run one after the other whatever came out of
those before. So every test case counts one failure at most, and a file as many as it has test cases with a
failing example.

Results:
* `trials_failFast`: with the flag, only the last trial of a test case may fail.
* `first_failure_stops_case`: what this makes of the totals of a file.
* `first_failure_stops_no_file`: a file with two failures.
-/

namespace Transcript

namespace Test

open Lang

/-! ## Fail fast -/

/-- Where no example overrides the flag, it holds for every trial. -/
theorem flags_failFast {c : Config} (hfast : c.flags.has .failFast = true) {t : Trial}
    (hown : t.subject.overrides.setting .failFast = none) : (t.flags c).has .failFast = true :=
  (Overrides.has_apply_of_setting hown c.flags).trans hfast

/-- **With the flag, only the last trial may fail.** -/
theorem trials_failFast {c : Config} (hfast : c.flags.has .failFast = true) {failed : Bool} {ts : List Trial}
    (hown : ∀ t ∈ ts, t.subject.overrides.setting .failFast = none) (hstops : StopsAtLast c failed ts) :
    (∀ t ∈ ts.dropLast, t.isFailure = false) ∧ failureCount ts = (ts.any Trial.isFailure).toNat := by
  induction ts generalizing failed with
  | nil => exact ⟨(fun t ht => nomatch ht), rfl⟩
  | cons t ts ih =>
    obtain ⟨hlast, hrest⟩ := hstops
    obtain ⟨hfirst, hown⟩ := List.forall_mem_cons.mp hown
    cases ht : t.isFailure with
    | true =>
      have hisLast : t.isLast c failed = true := by
        unfold Trial.isFailure at ht
        unfold Trial.isLast
        split at ht
        · rename_i f hverdict
          rw [hverdict]
          dsimp only
          rw [flags_failFast hfast hfirst, Bool.true_or]
        · cases ht
      rw [hlast hisLast]
      unfold failureCount
      rw [List.countP_singleton, if_pos ht, List.any_cons, ht]
      exact ⟨(fun t ht => nomatch ht), rfl⟩
    | false =>
      obtain ⟨hbefore, hcount⟩ := ih hown hrest
      unfold failureCount at hcount ⊢
      rw [List.countP_cons_of_neg (Bool.eq_false_iff.mp ht), hcount, List.any_cons, ht, Bool.false_or]
      refine ⟨?_, rfl⟩
      cases ts with
      | nil => exact fun t ht => nomatch ht
      | cons t' ts => exact List.forall_mem_cons.mpr ⟨ht, hbefore⟩

end Test

namespace File

open Lang Test

/-! ## Files -/

/-- **Test cases that one runner has run to their ends,** one after the other, with their trials. -/
inductive Tried (clears : Bool) :
    List Case → Option Ref → Runner × World → List (List Trial) → Runner × World → Prop
  /-- There are no more. -/
  | nil (carried : Option Ref) (s : Runner × World) : Tried clears [] carried s [] s
  /-- The first one has come to its end, and the other ones after it. -/
  | cons {c : Case} {cs : List Case} {carried : Option Ref} {r r' : Runner} {w w₁ w₂ w₃ : World}
      {ts : List Trial} {tss : List (List Trial)} {done : Conclusion} {t : Tally} {s : Runner × World} :
    carryOver c carried w = some ((), w₁) → trialsOf r.config c w₁ = some (ts, w₂) →
    r.run c clears w₁ = some ((done, r'), w₃) → done.result = .ok t →
    Tried clears cs (if clears then none else some c.space) (r', w₃) tss s →
    Tried clears (c :: cs) carried (r, w) (ts :: tss) s

/-- Test cases that are visited are tried. -/
theorem Visits.tried {clears : Bool} {s s' : Stage} {vs : List Visit} (h : Visits clears s vs s')
    (hend : s'.cases = []) :
    ∃ tss, Tried clears s.cases s.carried (s.runner, s.world) tss (s'.runner, s'.world) := by
  induction h with
  | refl s =>
    obtain ⟨cases, carried, r, w⟩ := s
    cases hend
    exact ⟨[], .nil carried _⟩
  | step hcarry hran hdone _ ih =>
    obtain ⟨tss, htss⟩ := ih hend
    obtain ⟨ts, w₄, n, hts, -⟩ := run_counts hran hdone
    exact ⟨ts :: tss, .cons hcarry hts hran hdone htss⟩

theorem runCases_tried {clears : Bool} {cases : List Case} {carried : Option Ref} {r r' : Runner}
    {reports : List (List Char)} {w w' : World}
    (h : runCases clears cases carried r w = some ((none, reports, r'), w')) :
    ∃ tss, Tried clears cases carried (r, w) tss (r', w') := by
  obtain ⟨vs, s, hvs, hends⟩ := runCases_visits h
  cases hends with
  | finished => exact hvs.tried rfl

/-- The number of test cases with a failure. -/
def failingCases (tss : List (List Trial)) : Nat := tss.countP (·.any Trial.isFailure)

/-- Each of them has a trial. -/
theorem failingCases_le (tss : List (List Trial)) : failingCases tss ≤ tss.flatten.length := by
  induction tss with
  | nil => exact Nat.le_refl 0
  | cons ts tss ih =>
    unfold failingCases at ih ⊢
    rw [List.countP_cons, List.flatten_cons, List.length_append]
    split
    · rename_i hany
      obtain ⟨t, ht, -⟩ := List.any_eq_true.mp hany
      have hpos : 0 < ts.length := List.length_pos_of_mem ht
      omega
    · omega

/-- The number of examples of some test cases. -/
def exampleCount (cases : List Case) : Nat := (cases.map fun c => c.region.examples.length).sum

/-- Only the last trial may fail. -/
def FailsLast (ts : List Trial) : Prop := ∀ t ∈ ts.dropLast, t.isFailure = false

/-- **The test cases of a file with the flag:** each one ends with its first failure, and the totals grow by one
failure for each that has one. -/
theorem Tried.failFast {clears : Bool} {cases : List Case} {carried : Option Ref} {s s' : Runner × World}
    {tss : List (List Trial)} (h : Tried clears cases carried s tss s')
    (hfast : s.1.config.flags.has .failFast = true)
    (hown : ∀ c ∈ cases, ∀ e ∈ c.region.examples, e.overrides.setting .failFast = none) :
    (∀ ts ∈ tss, FailsLast ts) ∧ tss.length = cases.length ∧ tss.flatten.length ≤ exampleCount cases ∧
      s'.1.ledger.totals.failed = s.1.ledger.totals.failed + UInt64.ofNat (failingCases tss) ∧
      s'.1.ledger.totals.attempted = s.1.ledger.totals.attempted + UInt64.ofNat tss.flatten.length := by
  induction h with
  | nil => exact ⟨List.forall_mem_nil _, rfl, Nat.le_refl 0, (UInt64.add_zero _).symm, (UInt64.add_zero _).symm⟩
  | @cons c cs carried r r' w w₁ w₂ w₃ ts tss done t s hcarry hts hran hdone hrest ih =>
    obtain ⟨hcase, hown⟩ := List.forall_mem_cons.mp hown
    obtain ⟨ts', w₄, n, hts', rfl, hfailed, hattempted, hcovers, hconfig, hledger⟩ := run_counts hran hdone
    cases hts.symm.trans hts'
    obtain ⟨hsubjects, hstops⟩ := trialsOf_spec hts
    obtain ⟨hfirst, hcount⟩ := trials_failFast hfast (fun t ht => hcase _ (hsubjects t ht).1) hstops
    have hfast' : r'.config.flags.has .failFast = true := by rwa [hconfig]
    obtain ⟨hlast, hlength, hle, htotal, htried⟩ := ih hfast' hown
    have htotals : r'.ledger.totals = r.ledger.totals.add n.tally := by
      rw [hledger]
      exact Ledger.totals_record _ _ _
    have hcases : failingCases (ts :: tss) = n.failed + failingCases tss := by
      unfold failingCases
      rw [hfailed, hcount, List.countP_cons, Nat.add_comm]
      cases ts.any Trial.isFailure <;> rfl
    have htrials : (ts :: tss).flatten.length = n.attempted + tss.flatten.length := by
      rw [hattempted, List.flatten_cons, List.length_append]
    dsimp only at htotal htried ⊢
    rw [htotals] at htotal htried
    refine ⟨List.forall_mem_cons.mpr ⟨hfirst, hlast⟩, congrArg (· + 1) hlength, ?_, ?_, ?_⟩
    · unfold exampleCount at hle ⊢
      rw [htrials, List.map_cons, List.sum_cons]
      exact Nat.add_le_add (Nat.le_trans (Nat.le_add_right _ _) hcovers.le) hle
    · rw [htotal, hcases, UInt64.ofNat_add, ← UInt64.add_assoc]
      rfl
    · rw [htried, htrials, UInt64.ofNat_add, ← UInt64.add_assoc]
      rfl

/-- **The first failure stops a test case.** Whatever the file and the options, if the flag is among those for all
examples, no example has a word of its own on it and the run comes to its end, then every test case is run, no
example of a test case is tried after the first of it that fails, and the totals count one failure for each
test case that has one, in a machine word that holds the number of all if it can hold that of the examples. -/
theorem first_failure_stops_case {read : List Char → Except ReadError (List Char)} {o : Options}
    {content : Content} {path : List Char} {out : Outcome} {t : Tally} {w w' : World}
    (hfast : o.flags.has .failFast = true)
    (hown : ∀ cases w₁, readCases read o content path w = some (.ok cases, w₁) →
      ∀ c ∈ cases, ∀ e ∈ c.region.examples, e.overrides.setting .failFast = none)
    (hrun : run read o content path w = some (out, w')) (hresult : out.result = .ok t) :
    ∃ cases w₁ tss r, readCases read o content path w = some (.ok cases, w₁) ∧
      Tried o.clears cases none (.new o.config, w₁.freshInterpreter) tss (r, w') ∧
      (∀ ts ∈ tss, FailsLast ts) ∧ tss.length = cases.length ∧ t.failed = UInt64.ofNat (failingCases tss) ∧
      t.attempted = UInt64.ofNat tss.flatten.length ∧
      (exampleCount cases < UInt64.size →
        t.failed.toNat = failingCases tss ∧ t.attempted.toNat = tss.flatten.length) := by
  rw [run_eq] at hrun
  obtain ⟨found, w₁, hfound, hrun⟩ := Host.bind_eq_some.mp hrun
  cases found with
  | error e =>
    cases hrun
    cases hresult
  | ok cases =>
    obtain ⟨r₀, w₂, hstart, hrun⟩ := Host.bind_eq_some.mp hrun
    cases hstart
    obtain ⟨⟨failure, reports, r⟩, w₃, hcases, hrun⟩ := Host.bind_eq_some.mp hrun
    cases failure with
    | some f =>
      cases hrun
      cases hresult
    | none =>
      cases hrun
      cases hresult
      obtain ⟨tss, htss⟩ := runCases_tried hcases
      obtain ⟨hlast, hlength, hle, hfailed, hattempted⟩ := htss.failFast hfast (hown cases w₁ hfound)
      have hfailed := hfailed.trans (UInt64.zero_add _)
      have hattempted := hattempted.trans (UInt64.zero_add _)
      refine ⟨cases, w₁, tss, r, hfound, htss, hlast, hlength, hfailed, hattempted, fun hfits => ?_⟩
      have htrials : tss.flatten.length < UInt64.size := Nat.lt_of_le_of_lt hle hfits
      rw [hfailed, hattempted]
      exact ⟨UInt64.toNat_ofNat_of_lt' (Nat.lt_of_le_of_lt (failingCases_le tss) htrials),
        UInt64.toNat_ofNat_of_lt' htrials⟩

/-! ## A file with two failures -/

/-- A document with two test cases, each of which begins with an example that fails. -/
def twoFailing : List Char := ">>> 1\n2\n>>> 5\n5\n\nText.\n\n>>> 3\n4\n".toList

/-- The standard options with the flag. -/
def failFastOptions : Options := { Options.standard with flags := .ofList [.failFast] }

/-- Whether no example of some test cases has a word of its own on the flag. -/
def saysNothing (cases : List Case) : Bool :=
  cases.all fun c => c.region.examples.all fun e => (e.overrides.setting .failFast).isNone

/-- The document has two test cases that say nothing of the flag, and both of them fail. -/
theorem twoFailing_facts : ∃ cases w₁ out w',
    readCases (fun _ => .ok twoFailing) failFastOptions .document "a.rst".toList .empty = some (.ok cases, w₁) ∧
      exampleCount cases = 3 ∧
      (∀ c ∈ cases, ∀ e ∈ c.region.examples, e.overrides.setting .failFast = none) ∧
      run (fun _ => .ok twoFailing) failFastOptions .document "a.rst".toList .empty = some (out, w') ∧
      out.result = .ok ⟨2, 2, 0⟩ := by
  obtain ⟨cases, w₁, out, w', hcases, hrun, hfacts⟩ :=
    runInto_of_regions .empty failFastOptions twoFailing "a.rst".toList "a.rst"
      (fun cases out => exampleCount cases == 3 && saysNothing cases && out.result.toOption == some ⟨2, 2, 0⟩)
      (w := .empty) rfl (by decide) (by decide +kernel)
  obtain ⟨hfacts, hresult⟩ := Bool.and_eq_true_iff.mp hfacts
  obtain ⟨hcount, hnothing⟩ := Bool.and_eq_true_iff.mp hfacts
  refine ⟨cases, w₁, out, w', hcases, eq_of_beq hcount, fun c hc e he => ?_, hrun,
    Except.toOption_eq_some.mp (eq_of_beq hresult)⟩
  exact Option.isNone_iff_eq_none.mp (List.all_eq_true.mp (List.all_eq_true.mp hnothing c hc) e he)

/-- Two of three examples are tried, one in each test case. -/
theorem first_failure_stops_case_twice : ∃ cases w₁ out w' tss r,
    failFastOptions.flags.has .failFast = true ∧
      readCases (fun _ => .ok twoFailing) failFastOptions .document "a.rst".toList .empty = some (.ok cases, w₁) ∧
      (∀ c ∈ cases, ∀ e ∈ c.region.examples, e.overrides.setting .failFast = none) ∧
      run (fun _ => .ok twoFailing) failFastOptions .document "a.rst".toList .empty = some (out, w') ∧
      out.result = .ok ⟨2, 2, 0⟩ ∧
      Tried failFastOptions.clears cases none (.new failFastOptions.config, w₁.freshInterpreter) tss (r, w') ∧
      (∀ ts ∈ tss, FailsLast ts) ∧ failingCases tss = 2 ∧ tss.flatten.length = 2 := by
  obtain ⟨cases, w₁, out, w', hcases, hcount, hnothing, hrun, hresult⟩ := twoFailing_facts
  have hown : ∀ cases' w₁', readCases (fun _ => .ok twoFailing) failFastOptions .document "a.rst".toList .empty =
      some (.ok cases', w₁') → ∀ c ∈ cases', ∀ e ∈ c.region.examples, e.overrides.setting .failFast = none := by
    intro cases' w₁' h
    cases hcases.symm.trans h
    exact hnothing
  obtain ⟨cases', w₁', tss, r, hcases', htried, hlast, -, -, -, hfits⟩ :=
    first_failure_stops_case rfl hown hrun hresult
  cases hcases.symm.trans hcases'
  obtain ⟨hfailed, hattempted⟩ := hfits (by rw [hcount]; decide)
  exact ⟨cases, w₁, out, w', tss, r, rfl, hcases, hnothing, hrun, hresult, htried, hlast, hfailed.symm,
    hattempted.symm⟩

/-- **The first failure stops no file:** with the flag for all examples and no word of theirs on it, a run comes to
its end with two failures. -/
theorem first_failure_stops_no_file : ∃ cases w₁ out t w',
    failFastOptions.flags.has .failFast = true ∧
      readCases (fun _ => .ok twoFailing) failFastOptions .document "a.rst".toList .empty = some (.ok cases, w₁) ∧
      (∀ c ∈ cases, ∀ e ∈ c.region.examples, e.overrides.setting .failFast = none) ∧
      run (fun _ => .ok twoFailing) failFastOptions .document "a.rst".toList .empty = some (out, w') ∧
      out.result = .ok t ∧ ¬ t.failed ≤ 1 := by
  obtain ⟨cases, w₁, out, w', hcases, -, hnothing, hrun, hresult⟩ := twoFailing_facts
  exact ⟨cases, w₁, out, ⟨2, 2, 0⟩, w', rfl, hcases, hnothing, hrun, hresult, by decide⟩

end File

end Transcript
