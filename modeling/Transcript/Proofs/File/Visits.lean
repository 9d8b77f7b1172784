import Transcript.File.Run
import Transcript.Proofs.Test.Counts

/-!
# Test cases of a file, one after the other

A run of a file visits its test cases in order. Each visit begins with the bindings that may go over from the
one before, and ends with the counts of the test case. Nothing else happens between two visits, so what holds
of a whole run is put together from what holds of a visit.

Results:
* `runInto_eq`: a run finds its test cases, and then runs them all.
* `runCases_visits`: a run visits test cases one after the other, up to one that ends it.
* `runInto_of_regions`: a run of a document can be computed from its regions.
* `Visits.addsUp`: the runner's ledger adds up the counts of its visits.
* `run_accounted`: what a run adds to the ledger that was given.
-/

namespace Transcript.File

open Lang Test

/-! ## Finding test cases -/

/-- **The test cases of the file** at a path. -/
def readCases (read : List Char → Except ReadError (List Char)) (o : Options) (content : Content)
    (path : List Char) : Host (Except Error (List Case)) :=
  match sourcePath o path with
  | .error e => return .error e
  | .ok path =>
    match read path with
    | .error cause => return .error (.unreadable path cause)
    | .ok text => casesOf o content (documentName o path) text

theorem readCases_eq_ok {read : List Char → Except ReadError (List Char)} {o : Options} {content : Content}
    {path : List Char} {cases : List Case} {w w₁ : World}
    (h : readCases read o content path w = some (.ok cases, w₁)) :
    ∃ source text, sourcePath o path = .ok source ∧ read source = .ok text ∧
      casesOf o content (documentName o source) text w = some (.ok cases, w₁) := by
  unfold readCases at h
  cases hpath : sourcePath o path with
  | error e =>
    rw [hpath] at h
    cases h
  | ok source =>
    rw [hpath] at h
    dsimp only at h
    cases hread : read source with
    | error cause =>
      rw [hread] at h
      cases h
    | ok text =>
      rw [hread] at h
      exact ⟨source, text, rfl, hread, h⟩

theorem runInto_eq (l : Ledger) (read : List Char → Except ReadError (List Char)) (o : Options)
    (content : Content) (path : List Char) :
    runInto l read o content path = readCases read o content path >>= fun found =>
      match found with
      | .error e => return .none l e
      | .ok cases => runAll o cases l := by
  unfold runInto readCases
  cases sourcePath o path with
  | error e => rfl
  | ok path =>
    dsimp only
    cases read path with
    | error cause => rfl
    | ok text => rfl

theorem run_eq (read : List Char → Except ReadError (List Char)) (o : Options) (content : Content)
    (path : List Char) : run read o content path = readCases read o content path >>= fun found =>
      match found with
      | .error e => return .none .empty e
      | .ok cases => runAll o cases .empty := runInto_eq .empty read o content path

/-! ## Visits -/

/-- The bindings of a namespace go over to that of a test case, if there is one. -/
def carryOver (c : Case) (carried : Option Ref) : Host Unit := do
  if let some from? := carried then
    Host.setSpace c.space ((← Host.space c.space).update (← Host.space from?))

/-- **Where a run of test cases stands.** -/
structure Stage where
  /-- The test cases that are still to be run. -/
  cases : List Case
  /-- The namespace whose bindings go over to the next one. -/
  carried : Option Ref
  /-- What runs them. -/
  runner : Runner
  /-- The world. -/
  world : World

/-- **A test case that was run to its end.** -/
structure Visit where
  /-- The test case. -/
  case : Case
  /-- The bindings that it has started with. -/
  started : Bindings Value
  /-- Its counts. -/
  tally : Tally
  /-- The bindings that it has left. -/
  ended : Bindings Value

/-- **A run from one stage to another one,** through some visits. -/
inductive Visits (clears : Bool) : Stage → List Visit → Stage → Prop
  /-- Nothing is run. -/
  | refl (s : Stage) : Visits clears s [] s
  /-- The next test case comes to its end, and other ones after it. -/
  | step {c : Case} {cs : List Case} {carried : Option Ref} {r r' : Runner} {w w₁ w₂ : World} {vs : List Visit}
      {done : Conclusion} {t : Tally} {s : Stage} :
    carryOver c carried w = some ((), w₁) → r.run c clears w₁ = some ((done, r'), w₂) → done.result = .ok t →
    Visits clears ⟨cs, if clears then none else some c.space, r', w₂⟩ vs s →
    Visits clears ⟨c :: cs, carried, r, w⟩ (⟨c, w₁.space c.space, t, w₂.space c.space⟩ :: vs) s

/-- A run begins with the next test case. -/
theorem runCases_cons (clears : Bool) (c : Case) (cs : List Case) (carried : Option Ref) (r : Runner) :
    runCases clears (c :: cs) carried r = carryOver c carried >>= fun _ => r.run c clears >>= fun (done, r) =>
      match done.result with
      | .error f => pure (some f, [done.report], r)
      | .ok _ => runCases clears cs (if clears then none else some c.space) r >>=
          fun (failure, reports, r) => pure (failure, done.report :: reports, r) := by
  cases carried with
  | none => rfl
  | some from? => rfl

/-- **How a run ends** at a stage. -/
inductive Ends (clears : Bool) : Stage → Option Failure → Runner → World → Prop
  /-- There are no more test cases. -/
  | finished (carried : Option Ref) (r : Runner) (w : World) : Ends clears ⟨[], carried, r, w⟩ none r w
  /-- The next one ends the run by a failure. -/
  | failed {c : Case} {cs : List Case} {carried : Option Ref} {r r' : Runner} {w w₁ w₂ : World}
      {done : Conclusion} {f : Failure} :
    carryOver c carried w = some ((), w₁) → r.run c clears w₁ = some ((done, r'), w₂) → done.result = .error f →
    Ends clears ⟨c :: cs, carried, r, w⟩ (some f) r' w₂

/-- **A run of test cases** visits one after the other, all of them or those up to one that ends it. -/
theorem runCases_visits {clears : Bool} {cases : List Case} {carried : Option Ref} {failure : Option Failure}
    {r r' : Runner} {reports : List (List Char)} {w w' : World}
    (h : runCases clears cases carried r w = some ((failure, reports, r'), w')) :
    ∃ vs s, Visits clears ⟨cases, carried, r, w⟩ vs s ∧ Ends clears s failure r' w' := by
  induction cases generalizing carried r reports w with
  | nil =>
    cases h
    exact ⟨[], _, .refl _, .finished carried _ _⟩
  | cons c cs ih =>
    rw [runCases_cons] at h
    obtain ⟨⟨⟩, w₁, hcarry, h⟩ := Host.bind_eq_some.mp h
    obtain ⟨⟨done, r₁⟩, w₂, hran, h⟩ := Host.bind_eq_some.mp h
    dsimp only at h
    cases hdone : done.result with
    | error f =>
      rw [hdone] at h
      cases h
      exact ⟨[], _, .refl _, .failed hcarry hran hdone⟩
    | ok t =>
      rw [hdone] at h
      obtain ⟨⟨failure, reports', r₂⟩, w₃, hcases, h⟩ := Host.bind_eq_some.mp h
      cases h
      obtain ⟨vs, s, hvs, hends⟩ := ih hcases
      exact ⟨_ :: vs, s, .step hcarry hran hdone hvs, hends⟩

/-- The visits of so many test cases can be computed. -/
def visit (clears : Bool) : Nat → Stage → Option (List Visit × Stage)
  | 0, s => some ([], s)
  | _ + 1, ⟨[], _, _, _⟩ => none
  | n + 1, ⟨c :: cs, carried, r, w⟩ => do
    let (_, w₁) ← carryOver c carried w
    let ((done, r'), w₂) ← r.run c clears w₁
    let t ← done.result.toOption
    let (vs, s) ← visit clears n ⟨cs, if clears then none else some c.space, r', w₂⟩
    return (⟨c, w₁.space c.space, t, w₂.space c.space⟩ :: vs, s)

theorem visits_of_visit {clears : Bool} {n : Nat} {s s' : Stage} {vs : List Visit}
    (h : visit clears n s = some (vs, s')) : Visits clears s vs s' := by
  induction n generalizing s vs with
  | zero =>
    cases h
    exact .refl _
  | succ n ih =>
    obtain ⟨cases, carried, r, w⟩ := s
    cases cases with
    | nil => cases h
    | cons c cs =>
      obtain ⟨⟨⟨⟩, w₁⟩, hcarry, h⟩ := Option.bind_eq_some_iff.mp h
      obtain ⟨⟨⟨done, r'⟩, w₂⟩, hran, h⟩ := Option.bind_eq_some_iff.mp h
      obtain ⟨t, hdone, h⟩ := Option.bind_eq_some_iff.mp h
      obtain ⟨⟨vs', s''⟩, hvs, h⟩ := Option.bind_eq_some_iff.mp h
      cases h
      exact .step hcarry hran (Except.toOption_eq_some.mp hdone) (ih hvs)

/-- After a visit its bindings go over, unless they are cleared. -/
theorem Visits.last {clears : Bool} {s s' : Stage} {vs : List Visit} {u : Visit}
    (h : Visits clears s (vs ++ [u]) s') :
    s'.carried = (if clears then none else some u.case.space) ∧ u.ended = s'.world.space u.case.space := by
  generalize hall : vs ++ [u] = all at h
  induction h generalizing vs with
  | refl s => exact absurd hall (List.append_ne_nil_of_right_ne_nil _ (List.cons_ne_nil _ _))
  | step _ _ _ hrest ih =>
    cases vs with
    | nil =>
      cases hall
      cases hrest
      exact ⟨rfl, rfl⟩
    | cons v vs => exact ih (List.cons.inj hall).2

/-- The test cases that are visited are the first ones. -/
theorem Visits.cases_eq {clears : Bool} {s s' : Stage} {vs : List Visit} (h : Visits clears s vs s') :
    s.cases = vs.map Visit.case ++ s'.cases := by
  induction h with
  | refl s => rfl
  | step _ _ _ _ ih => exact congrArg (_ :: ·) ih

/-! ## Documents whose regions are found in order -/

/-- The regions of a document in the order of its nodes. -/
def regionsInOrder (text : List Char) (name : String) : Except FindError (List Region) :=
  let directives : Doc.Directives := .empty
  let d := Doc.Document.ofText (Doc.Format.ofName name.toList) text (some name) directives.setup
  ((d.traverse.map d.node).filter isRegion).zipIdx.mapM fun (n, i) => regionOf name i n

/-- Regions that are found in the order of their names need not be sorted. -/
theorem regions_of_sorted {text : List Char} {name : String} {rs : List Region}
    (h : regionsInOrder text name = .ok rs) (hsorted : rs.Pairwise fun a b => a.comesBefore b = true) :
    regions text (some name) .empty = .ok rs := by
  unfold regions regionsIn regionsOf
  dsimp only
  unfold regionsInOrder at h
  rw [h, Except.ok_bind, List.mergeSort_of_pairwise hsorted]
  rfl

/-- The test cases of regions, once they are found. -/
def casesOfRegions (o : Options) (rs : List Region) : Host (List Case) := do
  Test.casesOf (← startingBindings o.globals o.extra) rs

theorem readCases_of_regions {o : Options} {text path : List Char} {name : String} {rs : List Region}
    {cases : List Case} {w w₁ : World} (hpath : sourcePath o path = .ok path) (hname : documentName o path = name)
    (hrs : regionsInOrder text name = .ok rs) (hsorted : rs.Pairwise fun a b => a.comesBefore b = true)
    (hcases : casesOfRegions o rs w = some (cases, w₁)) :
    readCases (fun _ => .ok text) o .document path w = some (.ok cases, w₁) := by
  unfold readCases
  rw [hpath]
  dsimp only
  rw [hname]
  unfold casesOf findCases findCasesWith
  rw [regions_of_sorted hrs hsorted]
  obtain ⟨b, w₀, hb, hcases⟩ := Host.bind_eq_some.mp hcases
  refine Host.bind_eq_some.mpr ⟨.ok cases, w₁, ?_, rfl⟩
  exact Host.bind_eq_some.mpr ⟨b, w₀, hb, Host.bind_eq_some.mpr ⟨cases, w₁, hcases, rfl⟩⟩

/-- What is done with regions once they are found. -/
def runRegions (o : Options) (l : Ledger) (rs : List Region) : Host (List Case × Outcome) := do
  let cases ← casesOfRegions o rs
  return (cases, ← runAll o cases l)

/-- What comes out of a document can be computed from its regions. -/
theorem runInto_of_regions (l : Ledger) (o : Options) (text path : List Char) (name : String)
    (check : List Case → Outcome → Bool) {w : World} (hpath : sourcePath o path = .ok path)
    (hname : documentName o path = name)
    (h : ((regionsInOrder text name).toOption.any fun rs =>
      decide (rs.Pairwise fun a b => a.comesBefore b = true) &&
        (runRegions o l rs w).any fun ((cases, out), _) => check cases out) = true) :
    ∃ cases w₁ out w', readCases (fun _ => .ok text) o .document path w = some (.ok cases, w₁) ∧
      runInto l (fun _ => .ok text) o .document path w = some (out, w') ∧ check cases out = true := by
  obtain ⟨rs, hrs, h⟩ := (Option.any_eq_true _ _).mp h
  obtain ⟨hsorted, h⟩ := Bool.and_eq_true_iff.mp h
  obtain ⟨⟨⟨cases, out⟩, w'⟩, hrun, hcheck⟩ := (Option.any_eq_true _ _).mp h
  obtain ⟨cases', w₁, hcases, hrun⟩ := Host.bind_eq_some.mp hrun
  obtain ⟨out', w₂, hout, hrun⟩ := Host.bind_eq_some.mp hrun
  cases hrun
  have hread := readCases_of_regions hpath hname (Except.toOption_eq_some.mp hrs) (of_decide_eq_true hsorted) hcases
  refine ⟨cases, w₁, out, w', hread, ?_, hcheck⟩
  rw [runInto_eq]
  exact Host.bind_eq_some.mpr ⟨_, _, hread, hout⟩

/-- So can the first visits of a run. -/
theorem visits_of_regions (o : Options) (text path : List Char) (name : String) (n : Nat)
    (check : List Visit → Stage → Bool) {w : World} (hpath : sourcePath o path = .ok path)
    (hname : documentName o path = name)
    (h : ((regionsInOrder text name).toOption.any fun rs =>
      decide (rs.Pairwise fun a b => a.comesBefore b = true) &&
        (casesOfRegions o rs w).any fun (cases, w₁) =>
          (visit o.clears n ⟨cases, none, .new o.config, w₁.freshInterpreter⟩).any fun (vs, s) =>
            check vs s) = true) :
    ∃ cases w₁ vs s, readCases (fun _ => .ok text) o .document path w = some (.ok cases, w₁) ∧
      Visits o.clears ⟨cases, none, .new o.config, w₁.freshInterpreter⟩ vs s ∧ check vs s = true := by
  obtain ⟨rs, hrs, h⟩ := (Option.any_eq_true _ _).mp h
  obtain ⟨hsorted, h⟩ := Bool.and_eq_true_iff.mp h
  obtain ⟨⟨cases, w₁⟩, hcases, h⟩ := (Option.any_eq_true _ _).mp h
  obtain ⟨⟨vs, s⟩, hvs, hcheck⟩ := (Option.any_eq_true _ _).mp h
  have hread := readCases_of_regions hpath hname (Except.toOption_eq_some.mp hrs) (of_decide_eq_true hsorted) hcases
  exact ⟨cases, w₁, vs, s, hread, visits_of_visit hvs, hcheck⟩

/-! ## What a run adds to a ledger

A runner keeps a ledger of its own while the test cases of a file are run. Only when all of them have come to
their ends is it merged into the ledger that was given. So the results of a file are added all together or not at
all, and then every entry grows by the results of the test cases with its name.
-/

/-- The name of the test case. -/
def Visit.name (v : Visit) : String := v.case.region.name

/-- **The results of some visits** by name. -/
def results (vs : List Visit) : Multiset (String × Tally) := vs.map fun v => (v.name, v.tally)

/-- **The runner's ledger adds up** the counts of its visits. -/
theorem Visits.addsUp {clears : Bool} {s s' : Stage} {vs : List Visit} (h : Visits clears s vs s')
    {before : Multiset (String × Tally)} (hbefore : s.runner.ledger.AddsUp before) :
    s'.runner.ledger.AddsUp (before + results vs) := by
  induction h generalizing before with
  | refl s =>
    unfold results
    rw [List.map_nil, Multiset.coe_nil, Multiset.add_zero]
    exact hbefore
  | @step c cs carried r r' w w₁ w₂ vs done t s _ hran hdone _ ih =>
    obtain ⟨ts, w₃, n, -, -, -, -, -, -, hledger⟩ := run_counts hran hdone
    have hrecorded : r'.ledger.AddsUp (before + {(c.region.name, t)}) := by
      rw [hledger]
      exact hbefore.record c.region.name t
    have hall := ih hrecorded
    rw [Multiset.add_assoc, Multiset.singleton_add] at hall
    exact hall

/-- What the results of a name add up to. -/
theorem share_results (vs : List Visit) (name : String) : Ledger.share (results vs) name =
    if name ∈ vs.map Visit.name then some ((vs.filter (·.name = name)).map Visit.tally).sum else none := by
  have hnames : (results vs).map Prod.fst = (vs.map Visit.name : List String) := by
    unfold results
    rw [Multiset.map_coe, List.map_map]
    rfl
  by_cases h : name ∈ vs.map Visit.name
  · rw [if_pos h, Ledger.share_of_mem (by rw [hnames]; exact h)]
    unfold results
    rw [Multiset.filter_coe, Multiset.map_coe, Multiset.sum_coe, List.filter_map, List.map_map]
    rfl
  · rw [if_neg h, Ledger.share_of_not_mem (by rw [hnames]; exact h)]

/-- **A run of a file is accounted for exactly or not at all.** Whatever the file, the options and the ledger: if
the run ends with an error the ledger is unchanged. Otherwise all test cases have come to their ends, the result is
the sum of their counts, the entry of each name that some of them have grows by the sum of theirs, and no other
entry changes. -/
theorem run_accounted {l : Ledger} {read : List Char → Except ReadError (List Char)} {o : Options}
    {content : Content} {path : List Char} {out : Outcome} {w w' : World}
    (h : runInto l read o content path w = some (out, w')) :
    (∀ e, out.result = .error e → out.ledger = l) ∧
      ∀ t, out.result = .ok t → ∃ cases w₁ vs carried r,
        readCases read o content path w = some (.ok cases, w₁) ∧
          Visits o.clears ⟨cases, none, .new o.config, w₁.freshInterpreter⟩ vs ⟨[], carried, r, w'⟩ ∧
          vs.map Visit.case = cases ∧ t = (vs.map Visit.tally).sum ∧
          ∀ name, Bindings.get? out.ledger name =
            if name ∈ vs.map Visit.name then
              some ((Bindings.get? l name).getD 0 + ((vs.filter (·.name = name)).map Visit.tally).sum)
            else Bindings.get? l name := by
  rw [runInto_eq] at h
  obtain ⟨found, w₁, hfound, h⟩ := Host.bind_eq_some.mp h
  cases found with
  | error e =>
    cases h
    exact ⟨fun _ _ => rfl, nofun⟩
  | ok cases =>
    obtain ⟨r₀, w₂, hstart, h⟩ := Host.bind_eq_some.mp h
    cases hstart
    obtain ⟨⟨failure, reports, r⟩, w₃, hcases, h⟩ := Host.bind_eq_some.mp h
    cases failure with
    | some f =>
      cases h
      exact ⟨fun _ _ => rfl, nofun⟩
    | none =>
      cases h
      refine ⟨nofun, fun t ht => ?_⟩
      cases ht
      obtain ⟨vs, s, hvs, hends⟩ := runCases_visits hcases
      cases hends with
      | finished carried =>
        have hadds : r.ledger.AddsUp (results vs) := by
          have hall := hvs.addsUp .empty
          rwa [Multiset.zero_add] at hall
        refine ⟨cases, w₁, vs, carried, r, hfound, hvs, ?_, ?_, fun name => ?_⟩
        · exact ((List.append_nil _).symm.trans hvs.cases_eq.symm)
        · rw [hadds.totals]
          unfold results
          rw [Multiset.map_coe, Multiset.sum_coe, List.map_map]
          rfl
        · have hmerged := ((Ledger.addsUp_entries l).merge hadds) name
          rw [Ledger.share_add, ← Ledger.addsUp_entries l name, share_results] at hmerged
          rw [hmerged]
          split
          · exact Ledger.join_some _ _
          · exact Ledger.join_none _

/-- A document with two test cases of one name. -/
def twoOfOneName : List Char :=
  ".. doctest:: g\n\n   >>> 1\n   1\n\n.. doctest:: g\n\n   >>> 2\n   3\n   >>> 4\n   4\n".toList

/-- A ledger with an entry of this name and one of another name. -/
def oldLedger : Ledger := (Ledger.record .empty "g" ⟨1, 5, 2⟩).record "h" ⟨0, 1, 0⟩

/-- Both test cases are added to the old entry of their name. -/
theorem run_accounted_twice : ∃ out w' cases w₁ vs carried r,
    runInto oldLedger (fun _ => .ok twoOfOneName) .standard .document "a.rst".toList .empty = some (out, w') ∧
      out.result = .ok ⟨1, 3, 0⟩ ∧
      Visits true ⟨cases, none, .new Options.standard.config, World.freshInterpreter w₁⟩ vs ⟨[], carried, r, w'⟩ ∧
      vs.map Visit.name = ["g", "g"] ∧ (vs.map Visit.tally).sum = ⟨1, 3, 0⟩ ∧
      Bindings.get? out.ledger "g" = some ⟨2, 8, 2⟩ ∧ Bindings.get? out.ledger "h" = some ⟨0, 1, 0⟩ := by
  obtain ⟨cases, w₁, out, w', hread, hrun, hfacts⟩ :=
    runInto_of_regions oldLedger .standard twoOfOneName "a.rst".toList "a.rst"
      (fun cases out => out.result.toOption == some ⟨1, 3, 0⟩ && cases.map (·.region.name) == ["g", "g"])
      (w := .empty) rfl (by decide) (by decide +kernel)
  obtain ⟨hresult, hnames⟩ := Bool.and_eq_true_iff.mp hfacts
  have hok : out.result = .ok ⟨1, 3, 0⟩ := Except.toOption_eq_some.mp (eq_of_beq hresult)
  obtain ⟨-, haccounted⟩ := run_accounted hrun
  obtain ⟨cases', w₁', vs, carried, r, hread', hvs, hcases, hsum, hentries⟩ := haccounted _ hok
  cases hread.symm.trans hread'
  have hvisited : vs.map Visit.name = ["g", "g"] := by
    rw [← eq_of_beq hnames, ← hcases, List.map_map]
    rfl
  have hown : vs.filter (·.name = "g") = vs := by
    refine List.filter_eq_self.mpr fun v hv => decide_eq_true ?_
    have hname := List.mem_map_of_mem (f := Visit.name) hv
    rw [hvisited] at hname
    rcases List.mem_cons.mp hname with h | h
    · exact h
    · exact List.mem_singleton.mp h
  refine ⟨out, w', cases, w₁, vs, carried, r, hrun, hok, hvs, hvisited, hsum.symm, ?_, ?_⟩
  · rw [hentries, hvisited, if_pos (by decide), hown, ← hsum]
    decide +kernel
  · rw [hentries, hvisited, if_neg (by decide)]
    decide +kernel

end Transcript.File
