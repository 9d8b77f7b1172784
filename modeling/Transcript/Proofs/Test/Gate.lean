import Transcript.Proofs.Both
import Transcript.Proofs.Lang.History
import Transcript.Proofs.Test.Placement
import Transcript.Proofs.Test.Skipping

/-!
# Blocks for other versions

A block whose directive requires a version that cannot be read or is not met switches the flag for skipping on,
over what its directive says about flags otherwise. Nothing that is said for the whole run takes it away again.
Only the comment of an example can, which has the last word.

Results:
* `run_skipped`: a test case all of whose examples are skipped is run to its end, and nothing of it is executed.
* `has_skip_of_isBarred`: which examples of a block for another version are skipped.
* `version_gate`: what is executed of such a block.
* `gate_open`: something is, where a comment says so.
-/

namespace Transcript

open Doc Lang

namespace Lang

/-- A loop without tasks is closed as it is. -/
theorem closeLoop_of_no_tasks (start : Ref → Run Ending) {l : Ref} {w : World} (h : (w.loop l).tasks = [])
    (rounds : Nat) (threads : Threads) : closeLoop start l rounds threads w = .ok w := by
  unfold closeLoop
  rw [h]
  rfl

end Lang

namespace Test

/-! ## Runs in which everything is skipped -/

/-- **Examples that are skipped** are counted, and nothing else happens. -/
theorem runExamples_skipped {c : Config} {es : List Session.Example}
    (hskip : ∀ e ∈ es, (e.overrides.apply c.flags).has .skip = true) (case : Case) (i : Nat) (x : Executor)
    (p : Progress) : ∃ p', runExamples c case i es x p = pure (none, p', x) ∧
      p'.counts = { p.counts with skipped := p.counts.skipped + es.length } ∧ p'.kept = p.kept := by
  induction es generalizing i p with
  | nil => exact ⟨p, rfl, rfl, rfl⟩
  | cons e es ih =>
    obtain ⟨b, hrun⟩ := runExamples_of_skip (hskip e List.mem_cons_self) case i es x p
    obtain ⟨p', hrest, htally, hkept⟩ := ih (fun e' he' => hskip e' (List.mem_cons_of_mem e he')) (i + 1)
      ((p.skip.writeIf b (announcement e)).writeIf b "skipped\n".toList)
    refine ⟨p', hrun.trans hrest, ?_, ?_⟩
    · rw [htally, Progress.counts_writeIf, Progress.counts_writeIf, List.length_cons]
      simp only [Progress.skip, Nat.add_assoc, Nat.add_comm 1]
    · rw [hkept, Progress.kept_writeIf, Progress.kept_writeIf]
      rfl

/-- Getting ready for a test case and ending it again. -/
theorem Executor.start_finish (how : Execution) (w : World) :
    ∃ x w₁, Executor.start how w = some (x, w₁) ∧ x.finish w₁ = some ((), w₁) := by
  cases how with
  | immediate => exact ⟨none, w, rfl, rfl⟩
  | suspending =>
    refine ⟨some ⟨w.loops.size, []⟩, w.newLoop.2, rfl, ?_⟩
    unfold Executor.finish OpenLoop.close
    dsimp only
    rw [closeLoop_of_no_tasks _ (by rw [w.loop_newLoop_size]; rfl)]
    rfl

/-- **A test case all of whose examples are skipped** comes to its end, and none of them is executed. -/
theorem run_skipped {r : Runner} {case : Case}
    (hskip : ∀ e ∈ case.region.examples, (e.overrides.apply r.config.flags).has .skip = true) (clears : Bool)
    (w : World) : ∃ done r' w', r.run case clears w = some ((done, r'), w') ∧
      done.result = .ok (Counts.tally ⟨0, 0, case.region.examples.length⟩) := by
  obtain ⟨x, w₁, hstart, hfinish⟩ := Executor.start_finish r.config.execution w
  obtain ⟨p, hrun, htally, -⟩ := runExamples_skipped hskip case 0 x .zero
  have hresult : p.counts = ⟨0, 0, case.region.examples.length⟩ := by
    rw [htally]
    exact congrArg (Counts.mk 0 0) (Nat.zero_add _)
  have hexamples : runExamples r.config case 0 case.region.examples x .zero w₁ = some ((none, p, x), w₁) := by
    rw [hrun]
    rfl
  unfold Runner.run
  cases clears with
  | true =>
    exact ⟨_, _, _, Host.bind_eq_some.mpr ⟨x, w₁, hstart, Host.bind_eq_some.mpr ⟨_, w₁, hexamples,
      Host.bind_eq_some.mpr ⟨(), w₁, hfinish, Host.bind_eq_some.mpr ⟨_, _, rfl,
        Host.bind_eq_some.mpr ⟨(), _, rfl, rfl⟩⟩⟩⟩⟩, congrArg (Except.ok ∘ Counts.tally) hresult⟩
  | false =>
    exact ⟨_, _, _, Host.bind_eq_some.mpr ⟨x, w₁, hstart, Host.bind_eq_some.mpr ⟨_, w₁, hexamples,
      Host.bind_eq_some.mpr ⟨(), w₁, hfinish, Host.bind_eq_some.mpr ⟨_, _, rfl, rfl⟩⟩⟩⟩,
      congrArg (Except.ok ∘ Counts.tally) hresult⟩

/-! ## The gate -/

section

variable {meets? : List Char → Option Bool}

/-- **The flag of a block for another version.** -/
theorem has_skip_of_isBarred {inv : Invocation} (h : inv.isBarred meets? = true) (base : FlagSet) :
    ((inv.overrides meets?).apply base).has .skip = true := by
  unfold Invocation.overrides
  rw [if_pos h, Overrides.apply_enable, FlagSet.has_union]
  simp

/-- **An example behind a gate:** whatever the flags of the run are, it is skipped, unless its own comment switches
the flag off. -/
structure IsGated (e e' : Session.Example) : Prop where
  /-- It is an example of the block. -/
  eq : e' = { e with overrides := e'.overrides }
  /-- Only its own comment counts. -/
  has_skip : ∀ base, (e'.overrides.apply base).has .skip = !e.overrides.off.has .skip

theorem LiesOver.isGated {inv : Invocation} (hbarred : inv.isBarred meets? = true) {e e' : Session.Example}
    (h : LiesOver (inv.overrides meets?) e e') : IsGated e e' where
  eq := h.eq
  has_skip base := by
    rw [h.apply_eq, Overrides.has_apply, has_skip_of_isBarred hbarred, Bool.true_or, Bool.true_and]

/-- **What is executed of examples behind a gate:** those whose own comments say so. -/
theorem trialsOf_gated {c : Config} {case : Case} {es : List Session.Example}
    (hes : List.Forall₂ IsGated es case.region.examples) {ts : List Trial} {w w' : World}
    (h : trialsOf c case w = some (ts, w')) :
    ∀ t ∈ ts, ∃ e ∈ es, IsGated e t.subject ∧ e.overrides.off.has .skip = true := by
  intro t ht
  unfold trialsOf at h
  obtain ⟨x, w₁, -, h⟩ := Host.bind_eq_some.mp h
  obtain ⟨⟨ts', x'⟩, w₂, htrials, h⟩ := Host.bind_eq_some.mp h
  cases h
  have hsubject := (runTrials_subjects htrials).subset (List.mem_map_of_mem ht)
  obtain ⟨hexample, hrun⟩ := List.mem_filter.mp hsubject
  obtain ⟨e, he, hgated⟩ := exists_of_forall₂ hes hexample
  refine ⟨e, he, hgated, ?_⟩
  rw [hgated.has_skip, Bool.not_not] at hrun
  exact hrun

/-- **The gate for versions.** However it is decided whether a version is met, a directive for tests that requires one
which cannot be read or is not met has a test case. An example of this test case is skipped in every run, unless its own comment switches the flag
for skipping off: nothing else that is executed is one of these examples. Where no comment does so, every run of the
test case comes to its end without having executed anything. -/
theorem version_gate {text : List Char} {name : String} {globals extra : Option (Bindings Value)}
    {w w' : World} {cases : List Case}
    (h : findCasesWith ⟨.empty, meets?⟩ text (some name) globals extra w = some (.ok cases, w')) {inv : Invocation}
    (hinv : .directive inv ∈ outline (Format.ofName name.toList) (Directives.setup ⟨.empty, meets?⟩) text)
    (hname : inv.name = "doctest") (hbarred : inv.isBarred meets? = true) :
    (∃ case ∈ cases, ∃ index, case.region.IsOf name index (inv.block meets? .test)) ∧
    ∀ case ∈ cases, ∀ index, case.region.IsOf name index (inv.block meets? .test) →
      ∃ es, Session.read inv.content case.region.name = .ok es ∧
        List.Forall₂ IsGated es case.region.examples ∧
        ∀ (r : Runner) (clears : Bool) (v : World),
          ((∀ e ∈ es, e.overrides.off.has .skip = false) → ∃ done r' v',
            r.run case clears v = some ((done, r'), v') ∧ done.result = .ok (Counts.tally ⟨0, 0, es.length⟩)) ∧
          ∀ done r' v', r.run case clears v = some ((done, r'), v') →
            ∃ ts v₁, trialsOf r.config case v = some (ts, v₁) ∧
              (∀ tally, done.result = .ok tally → tally.attempted = UInt64.ofNat ts.length) ∧
              ∀ t ∈ ts, ∃ e ∈ es, IsGated e t.subject ∧ e.overrides.off.has .skip = true := by
  refine ⟨exists_case_of_directive h hinv hname, fun case _ index hof => ?_⟩
  obtain ⟨es, hread, hover⟩ := hof.examples_eq
  rw [inv.session_block meets?] at hread
  have hgated : List.Forall₂ IsGated es case.region.examples := hover.imp fun _ _ h => h.isGated hbarred
  refine ⟨es, hread, hgated, fun r clears v => ⟨fun hall => ?_, fun done r' v' hrun => ?_⟩⟩
  · rw [hgated.length_eq]
    refine run_skipped (fun e' he' => ?_) clears v
    obtain ⟨e, he, hgate⟩ := exists_of_forall₂ hgated he'
    rw [hgate.has_skip, hall e he]
    rfl
  · obtain ⟨ts, v₁, htrials, -, -, hresult⟩ := run_trials hrun
    refine ⟨ts, v₁, htrials, fun tally htally => ?_, trialsOf_gated hgated htrials⟩
    rcases hresult with ⟨f, -, hf⟩ | ⟨tally', -, hok, hattempted⟩
    · rw [hf] at htally
      cases htally
    · rw [hok] at htally
      cases htally
      exact hattempted

end

/-- A test for another version, one of whose two examples is run all the same. -/
def openGate : List Char :=
  ".. doctest::\n   :version: >=1000\n   :options: -SKIP\n\n   >>> 1\n   2\n   >>> 1  # doctest: -SKIP\n   1\n".toList

/-- A test that has both options for versions, only the first of which is met. -/
def bothOptions : List Char :=
  ".. doctest::\n   :version: >=0.1\n   :pyversion: >=1000\n\n   >>> 1\n   1\n".toList

/-- The entries of the outline of a text in reStructuredText. -/
abbrev entriesOf (text : List Char) : List Entry :=
  outline (Format.ofName "t.rst".toList) (Directives.setup .empty) text

/-- Whether an entry is a directive for tests that is as it has to be. -/
def isDirective (test : Invocation → Bool) : Entry → Bool
  | .directive inv => inv.name == "doctest" && test inv
  | .node _ => false

theorem exists_directive (test : Invocation → Bool) {entries : List Entry}
    (h : entries.any (isDirective test) = true) :
    ∃ inv, .directive inv ∈ entries ∧ inv.name = "doctest" ∧ test inv = true := by
  obtain ⟨entry, hentry, hinv⟩ := List.any_eq_true.mp h
  cases entry with
  | node n => cases hinv
  | directive inv =>
    obtain ⟨hname, htest⟩ := Bool.and_eq_true_iff.mp hinv
    exact ⟨inv, hentry, eq_of_beq hname, htest⟩

/-- A runner that reports. -/
def plainRunner : Runner := .new ⟨.empty, false, .report, .immediate⟩

/-- The counts of a text with one test case. -/
def tally? (text : List Char) : Option Tally := do
  match ← findCases text (some "t.rst") none none .empty with
  | (.ok [case], w) => ((← plainRunner.run case false w).1.1.result).toOption
  | _ => none

theorem exists_case_of_tally? {text : List Char} {t : Tally} (h : tally? text = some t) :
    ∃ case w', findCases text (some "t.rst") none none .empty = some (.ok [case], w') ∧
      ∃ done r' v', plainRunner.run case false w' = some ((done, r'), v') ∧ done.result = .ok t := by
  obtain ⟨⟨result, w'⟩, hfound, h⟩ := Option.bind_eq_some_iff.mp h
  split at h
  · rename_i case w₁ hpair
    cases hpair
    obtain ⟨⟨⟨done, r'⟩, v'⟩, hrun, hresult⟩ := Option.bind_eq_some_iff.mp h
    exact ⟨case, w', hfound, done, r', v', hrun, Except.toOption_eq_some.mp hresult⟩
  · cases h

theorem tally?_openGate : tally? openGate = some ⟨0, 1, 1⟩ := by
  unfold openGate
  rw [String.toList_ofList]
  decide +kernel

theorem exists_barred_openGate :
    ∃ inv, .directive inv ∈ entriesOf openGate ∧ inv.name = "doctest" ∧ inv.isBarred Version.ofLanguage.meets? = true := by
  refine exists_directive (Invocation.isBarred Version.ofLanguage.meets?) ?_
  unfold openGate
  rw [String.toList_ofList]
  decide +kernel

theorem version_gate_openGate : ∃ cases w' inv,
    findCases openGate (some "t.rst") none none .empty = some (.ok cases, w') ∧
    (.directive inv ∈ entriesOf openGate ∧
      inv.name = "doctest" ∧ inv.isBarred Version.ofLanguage.meets? = true) ∧
    (∃ case ∈ cases, ∃ index, case.region.IsOf "t.rst" index (inv.block Version.ofLanguage.meets? .test)) ∧
    ∀ case ∈ cases, ∀ index, case.region.IsOf "t.rst" index (inv.block Version.ofLanguage.meets? .test) →
      ∃ es, Session.read inv.content case.region.name = .ok es ∧
        List.Forall₂ IsGated es case.region.examples ∧
        ∀ (r : Runner) (clears : Bool) (v : World),
          ((∀ e ∈ es, e.overrides.off.has .skip = false) → ∃ done r' v',
            r.run case clears v = some ((done, r'), v') ∧ done.result = .ok (Counts.tally ⟨0, 0, es.length⟩)) ∧
          ∀ done r' v', r.run case clears v = some ((done, r'), v') →
            ∃ ts v₁, trialsOf r.config case v = some (ts, v₁) ∧
              (∀ tally, done.result = .ok tally → tally.attempted = UInt64.ofNat ts.length) ∧
              ∀ t ∈ ts, ∃ e ∈ es, IsGated e t.subject ∧ e.overrides.off.has .skip = true := by
  obtain ⟨case, w', h, -⟩ := exists_case_of_tally? tally?_openGate
  obtain ⟨inv, hinv, hname, hbarred⟩ := exists_barred_openGate
  exact ⟨[case], w', inv, h, ⟨hinv, hname, hbarred⟩, version_gate h hinv hname hbarred⟩

/-- **An example for another version is executed** where its comment says so, and where the option that is not met
is not the first one. -/
theorem gate_open :
    (∃ case w' inv index, findCases openGate (some "t.rst") none none .empty = some (.ok [case], w') ∧
      .directive inv ∈ entriesOf openGate ∧ inv.name = "doctest" ∧ inv.isBarred Version.ofLanguage.meets? = true ∧
      case.region.IsOf "t.rst" index (inv.block Version.ofLanguage.meets? .test) ∧
      ∃ done r' v', plainRunner.run case false w' = some ((done, r'), v') ∧ done.result = .ok ⟨0, 1, 1⟩) ∧
    ∃ case w' inv index, findCases bothOptions (some "t.rst") none none .empty = some (.ok [case], w') ∧
      .directive inv ∈ entriesOf bothOptions ∧ inv.name = "doctest" ∧
      (inv.option? "pyversion").any (fun q => Version.ofLanguage.meets? q != some true) = true ∧
      case.region.IsOf "t.rst" index (inv.block Version.ofLanguage.meets? .test) ∧
      ∃ done r' v', plainRunner.run case false w' = some ((done, r'), v') ∧ done.result = .ok ⟨0, 1, 0⟩ := by
  have hof {text : List Char} {case : Case} {w' : World} {inv : Invocation}
      (h : findCases text (some "t.rst") none none .empty = some (.ok [case], w'))
      (hinv : .directive inv ∈ entriesOf text) (hname : inv.name = "doctest") :
      ∃ index, case.region.IsOf "t.rst" index (inv.block Version.ofLanguage.meets? .test) := by
    obtain ⟨c, hc, hindex⟩ := exists_case_of_directive h hinv hname
    exact List.mem_singleton.mp hc ▸ hindex
  constructor
  · obtain ⟨case, w', h, hrun⟩ := exists_case_of_tally? tally?_openGate
    obtain ⟨inv, hinv, hname, hbarred⟩ := exists_barred_openGate
    obtain ⟨index, hindex⟩ := hof h hinv hname
    exact ⟨case, w', inv, index, h, hinv, hname, hbarred, hindex, hrun⟩
  · obtain ⟨case, w', h, hrun⟩ :=
      exists_case_of_tally? (show tally? bothOptions = some ⟨0, 1, 0⟩ by decide +kernel)
    obtain ⟨inv, hinv, hname, hunmet⟩ := exists_directive
      (fun inv => (inv.option? "pyversion").any fun q => Version.ofLanguage.meets? q != some true)
      (show (entriesOf bothOptions).any _ = true by decide +kernel)
    obtain ⟨index, hindex⟩ := hof h hinv hname
    exact ⟨case, w', inv, index, h, hinv, hname, hunmet, hindex, hrun⟩

end Test

end Transcript
