import Transcript.Proofs.Lang.Reach
import Transcript.Proofs.Test.Twin

/-!
# Independence of test cases

A runner keeps the results and failures of the test cases that it has run, and an interpreter with the text
written and the number of tasks created. Two test cases that share no mutable value see nothing of each other
but this number: it goes on from test case to test case, although each has an event loop of its own, and it
makes the names of tasks. So a test case that is run after another one looks as if it were run alone by an
interpreter that has counted the other one's tasks.

Results:
* `view_of_same`: a test case looks the same in worlds that hold the same wherever it can get at.
* `run_keeps`, `run_collects`: a run leaves alone what its test case cannot get at, and no text behind.
* `runs_independent`: what is seen of a test case does not depend on the one before, but for the number of its
  tasks.
* `runs_share_count`: it depends on this number.
-/

namespace Transcript

open Lang

namespace Lang

/-- The world for an interpreter that has not run yet, but counts its tasks from a number on. -/
def World.counting (w : World) (n : Nat) : World := { w.freshInterpreter with created := n }

theorem World.count_counting (w : World) (n : Nat) (s : Store) : (w.counting n).count s = w.count s := by
  cases s <;> rfl

theorem World.placesAt_counting (w : World) (n : Nat) (s : Store) (r : Nat) :
    (w.counting n).placesAt s r = w.placesAt s r := by
  cases s <;> rfl

theorem World.reaches_counting {w : World} {n : Nat} {p q : Place} : (w.counting n).Reaches p q ↔ w.Reaches p q := by
  have hstep : (fun p q : Place => q ∈ (w.counting n).placesAt p.1 p.2) = fun p q => q ∈ w.placesAt p.1 p.2 := by
    funext p q
    rw [placesAt_counting]
  unfold World.Reaches
  rw [hstep]

theorem World.SameAt.counting {w w' : World} {s : Store} {r : Nat} (h : w.SameAt w' s r) (n : Nat) :
    (w.counting n).SameAt w' s r := by
  cases s <;> exact h

/-- **What is seen of an exception:** its kind, its place, the forms of its arguments, and its message. -/
structure ExcView where
  /-- Its kind. -/
  kind : ExceptionKind
  /-- Its place in a source. -/
  place : Option SourcePlace
  /-- The forms of its arguments. -/
  args : List (Option (List Char))
  /-- Its message. -/
  message : Option (List Char)

/-- What is seen of an exception in a world. -/
def Exc.view (w : World) (e : Exc) : ExcView := ⟨e.kind, e.place, e.args.map w.show?, w.message? e.toRaised⟩

theorem Exc.Twins.view {L : Link} {w w' : World} (hw : w.Twins L w') {e e' : Exc} (h : e.Twins L e') :
    e'.view w' = e.view w := by
  have hargs : e'.args.map w'.show? = e.args.map w.show? := both_map h.raised.args fun _ _ => hw.showValue
  unfold Exc.view
  rw [h.raised.kind, h.place, hargs, hw.message h.raised]

end Lang

namespace Test

/-! ## What is seen of runs -/

/-- **What is seen of a failure.** -/
inductive FailureView
  | interrupted (test : String)
  | mismatch (location : Location) (e : Session.Example) (got : List Char) (flags : FlagSet)
  | unexpected (location : Location) (e : Session.Example) (exc : ExcView) (traceback : List Char)
  | condition (test : String) (expression : List Char) (exc : ExcView)

/-- What is seen of a failure in a world. -/
def Failure.view (w : World) : Failure → FailureView
  | interrupted test => .interrupted test
  | mismatch location e got flags => .mismatch location e got flags
  | unexpected location e exc traceback => .unexpected location e (exc.view w) traceback
  | condition test expression exc => .condition test expression (exc.view w)

/-- **What is seen of the run of a test case.** -/
structure RunView where
  /-- Its counts, or the failure that has ended it. -/
  result : Except FailureView Tally
  /-- The report. -/
  report : List Char
  /-- The failures added to those of the runner. -/
  added : List FailureView
  /-- The names of its namespace in the end, with the forms of their values. -/
  names : List (String × Option (List Char))

/-- What is seen of a run in a namespace, by a runner that had collected failures before. -/
def viewRun (before : Runner) (space : Ref) (x : (Conclusion × Runner) × World) : RunView where
  result := x.1.1.result.mapError (Failure.view x.2)
  report := x.1.1.report
  added := (x.1.2.failures.drop before.failures.length).map (Failure.view x.2)
  names := (x.2.space space).entries.map fun e => (e.1, x.2.show? e.2)

theorem Failure.Twins.view {L : Link} {w w' : World} (hw : w.Twins L w') {f f' : Failure} (h : f.Twins L f') :
    f'.view w' = f.view w := by
  cases h with
  | interrupted test => rfl
  | mismatch location e got flags => rfl
  | unexpected location e hexc traceback =>
    exact congrArg (fun v => FailureView.unexpected location e v traceback) (hexc.view hw)

/-- The counts of a run are seen. -/
theorem viewRun_tally (before : Runner) (space : Ref) (x : (Conclusion × Runner) × World) :
    (viewRun before space x).result.toOption = x.1.1.result.toOption := by
  unfold viewRun
  cases x.1.1.result <;> rfl

/-- **Runs that are twins look the same.** -/
theorem RunEnded.viewRun {L : Link} {r r' : Runner} {x y : (Conclusion × Runner) × World}
    (h : RunEnded L r r' x.1 y.1) (hw : x.2.Twins L y.2) {s s' : Ref} (hs : L.Pairs .space s s') :
    viewRun r' s' y = viewRun r s x := by
  have hresult : y.1.1.result.mapError (Failure.view y.2) = x.1.1.result.mapError (Failure.view x.2) := by
    have hended := h.result
    generalize x.1.1.result = e at hended ⊢
    generalize y.1.1.result = e' at hended ⊢
    cases hended with
    | ok htally => exact congrArg Except.ok htally.symm
    | error hf => exact congrArg Except.error (hf.view hw)
  obtain ⟨added, added', hadded, hfailures, hfailures'⟩ := h.failures
  have hviews : added'.map (Failure.view y.2) = added.map (Failure.view x.2) :=
    both_map hadded fun _ _ hf => hf.view hw
  have hnames : ((y.2.space s').entries.map fun e => (e.1, y.2.show? e.2)) =
      (x.2.space s).entries.map fun e => (e.1, x.2.show? e.2) :=
    both_map (hw.space hs) fun e e' he => by rw [he.1, hw.showValue he.2]
  unfold Test.viewRun
  rw [hresult, h.report, hfailures, hfailures', List.drop_left, List.drop_left, hviews, hnames]

/-! ## Two test cases that make tasks -/

/-- A world with two namespaces. -/
def twoSpaces : World := ((World.empty.newSpace .empty).2.newSpace .empty).2

/-- Nothing is reached from a namespace without names. -/
theorem twoSpaces_holds (i : Fin 2) : twoSpaces.Holds (.space, i) :=
  World.holds_of_closed (List.mem_singleton_self _) (by revert i; decide) (by revert i; decide)

theorem twoSpaces_apart : twoSpaces.Apart (.space, 0) (.space, 1) :=
  World.apart_of_closed (List.mem_singleton_self _) (List.mem_singleton_self _) (by decide) (by decide) (by decide)

/-- A test case that leaves a task pending. -/
def pendingText : String :=
  ">>> import asyncio\n>>> async def nothing():\n...     return\n>>> async def main():\n" ++
    "...     asyncio.create_task(nothing())\n>>> await main()\n"

/-- A test case that shows the first task that it makes. -/
def shownText : String :=
  ">>> import asyncio\n>>> async def nothing():\n...     return\n>>> async def main():\n" ++
    "...     print(asyncio.create_task(nothing()))\n>>> await main()\n<Task pending name='Task-1'>\n"

/-- Asynchronous examples, with failures reported. -/
def suspendingConfig : Config := ⟨.empty, false, .report, .suspending⟩

/-- The second test case passes if it is run alone, and fails after the first one. -/
theorem shown_fails_after_pending : ∃ (A B : Region) (a b b' : (Conclusion × Runner) × World),
    (Runner.new suspendingConfig).run ⟨A, 0⟩ false twoSpaces = some a ∧ a.2.created = 1 ∧
      (Runner.new suspendingConfig).run ⟨B, 1⟩ false (twoSpaces.counting 0) = some b ∧
      b.1.1.result.toOption = some ⟨0, 4, 0⟩ ∧ a.1.2.run ⟨B, 1⟩ false a.2 = some b' ∧
      b'.1.1.result.toOption = some ⟨1, 4, 0⟩ := by
  have hfacts : (Region.ofText pendingText.toList "A" "t.rst" 1).toOption.any (fun A =>
      (Region.ofText shownText.toList "B" "t.rst" 1).toOption.any fun B =>
        ((Runner.new suspendingConfig).run ⟨A, 0⟩ false twoSpaces).any fun a =>
          a.2.created == 1 &&
            ((Runner.new suspendingConfig).run ⟨B, 1⟩ false (twoSpaces.counting 0)).any
              (·.1.1.result.toOption == some ⟨0, 4, 0⟩) &&
            (a.1.2.run ⟨B, 1⟩ false a.2).any (·.1.1.result.toOption == some ⟨1, 4, 0⟩)) = true := by
    unfold pendingText shownText
    repeat rw [String.toList_append]
    repeat rw [String.toList_ofList]
    decide +kernel
  obtain ⟨A, -, hfacts⟩ := (Option.any_eq_true _ _).mp hfacts
  obtain ⟨B, -, hfacts⟩ := (Option.any_eq_true _ _).mp hfacts
  obtain ⟨a, ha, hfacts⟩ := (Option.any_eq_true _ _).mp hfacts
  obtain ⟨hfacts, hlater⟩ := Bool.and_eq_true_iff.mp hfacts
  obtain ⟨hcreated, halone⟩ := Bool.and_eq_true_iff.mp hfacts
  obtain ⟨b, hb, hpassed⟩ := (Option.any_eq_true _ _).mp halone
  obtain ⟨b', hb', hfailed⟩ := (Option.any_eq_true _ _).mp hlater
  exact ⟨A, B, a, b, b', ha, eq_of_beq hcreated, hb, eq_of_beq hpassed, hb', eq_of_beq hfailed⟩

/-! ## Runs one after the other -/

/-- What comes after a step that is taken on a condition finds a property that the step keeps. -/
theorem exists_kept_of_when {α : Type} {P : World → Prop} {b : Bool} {x : Host Unit} {k : Host α} {w : World}
    {a : α × World} (hw : P w) (hx : ∀ {w₁}, x w = some ((), w₁) → P w₁)
    (h : (if b then x >>= fun _ => k else k) w = some a) : ∃ w₁, P w₁ ∧ k w₁ = some a := by
  split_ifs at h
  · obtain ⟨⟨⟩, w₁, hstep, h⟩ := Host.bind_eq_some.mp h
    exact ⟨w₁, hx hstep, h⟩
  · exact ⟨w, hw, h⟩

/-- **A run leaves no text behind.** -/
theorem run_collects {r r' : Runner} {case : Case} {clears : Bool} {done : Conclusion} {w w' : World}
    (h : r.run case clears w = some ((done, r'), w')) : w'.written = [] := by
  unfold Runner.run at h
  obtain ⟨x, w₁, -, h⟩ := Host.bind_eq_some.mp h
  obtain ⟨⟨failure, p, x'⟩, w₂, -, h⟩ := Host.bind_eq_some.mp h
  dsimp only at h
  obtain ⟨⟨⟩, w₃, -, h⟩ := Host.bind_eq_some.mp h
  obtain ⟨output, w₄, houtput, h⟩ := Host.bind_eq_some.mp h
  have htaken : w₄.written = [] := by
    cases houtput
    rfl
  obtain ⟨w₅, hwritten, h⟩ := exists_kept_of_when (P := fun w => w.written = []) htaken
    (fun hset => by
      cases hset
      exact htaken) h
  cases failure with
  | some f =>
    cases h
    exact hwritten
  | none =>
    cases h
    exact hwritten

/-- **A test case looks the same in two worlds** that hold the same wherever it can get at, if they have written
the same and count tasks from the same number on. -/
theorem view_of_same {r r' : Runner} (hconfig : r'.config = r.config) {case : Case} {w w' : World}
    (hidle : w.running = none) (hidle' : w'.running = none) (hholds : w.Holds (.space, case.space))
    (hle : ∀ s, w.count s ≤ w'.count s) (hsame : ∀ p, w.Reaches (.space, case.space) p → w.SameAt w' p.1 p.2)
    (hwritten : w'.written = w.written) (hcreated : w'.created = w.created) (clears : Bool) :
    (r'.run case clears w').map (viewRun r' case.space) = (r.run case clears w).map (viewRun r case.space) := by
  let L := reachLink w w' case.space hholds hle
  have hspace : L.Pairs .space case.space case.space := .inl ⟨Relation.ReflTransGen.refl, rfl⟩
  have hruns := run_twins hconfig case.region hspace clears w w'
    (.of_none (reach_twins hholds hle hsame hwritten hcreated) hidle hidle')
  change Option.Rel _ (r.run case clears w) (r'.run case clears w') at hruns
  generalize r.run case clears w = x at hruns ⊢
  generalize r'.run case clears w' = y at hruns ⊢
  cases hruns with
  | none => rfl
  | some hended => exact congrArg some (hended.1.viewRun hended.2.toTwins hspace)

/-- What a run leaves behind: everything that its test case cannot get at, a count of its tasks, and no loop
that is driven. -/
theorem run_keeps {r r' : Runner} {case : Case} {clears : Bool} {done : Conclusion} {w w' : World}
    (hidle : w.running = none) (hholds : w.Holds (.space, case.space))
    (h : r.run case clears w = some ((done, r'), w')) :
    w'.TwinsAt (reachLink w w case.space hholds fun _ => Nat.le_refl _) none w' := by
  have hself : w.Twins (reachLink w w case.space hholds fun _ => Nat.le_refl _) w :=
    reach_twins hholds _ (fun _ _ => .refl) rfl rfl
  exact run_self (.inl ⟨Relation.ReflTransGen.refl, rfl⟩) (.of_none hself hidle hidle) h

/-- What is seen of a test case that is run alone, by a new runner whose interpreter has not done anything but
count some tasks. -/
def viewAlone (c : Config) (case : Case) (clears : Bool) (w : World) (n : Nat) : Option RunView :=
  ((Runner.new c).run case clears (w.counting n)).map (viewRun (.new c) case.space)

/-- An interpreter that has not done anything at all has counted no tasks. -/
theorem viewAlone_zero (c : Config) (case : Case) (clears : Bool) (w : World) :
    viewAlone c case clears w 0 =
      ((Runner.start c >>= fun r => r.run case clears) w).map (viewRun (.new c) case.space) := rfl

/-- **What is seen of a test case does not depend on the one before,** but for the number of its tasks: the
test case looks as if it were run alone after they were counted. -/
theorem runs_independent {r r₁ : Runner} {A B : Case} {clearsA clearsB : Bool} {done : Conclusion} {w w₁ : World}
    (hidle : w.running = none) (hA : w.Holds (.space, A.space)) (hB : w.Holds (.space, B.space))
    (hapart : w.Apart (.space, A.space) (.space, B.space))
    (hrun : r.run A clearsA w = some ((done, r₁), w₁)) :
    (r₁.run B clearsB w₁).map (viewRun r₁ B.space) = viewAlone r.config B clearsB w w₁.created ∧
      w₁.created + w.tasks.size = w.created + w₁.tasks.size := by
  have hkept := run_keeps hidle hA hrun
  obtain ⟨-, -, -, hconfig, -, -⟩ := run_trials hrun
  have hcount : w₁.created + w.tasks.size = w.created + w₁.tasks.size := hkept.counted
  refine ⟨?_, hcount⟩
  -- What is within reach of the second test case is out of reach of the first one, or not mutable.
  have hsame (p : Place) (hown : w.Reaches (.space, B.space) p) : w.SameAt w₁ p.1 p.2 :=
    hkept.leaves (hB _ hown) fun hmutable hown' => hapart p hmutable hown' hown
  refine view_of_same (r := .new r.config) (w := w.counting w₁.created) hconfig hidle hkept.running ?_ ?_ ?_
    (run_collects hrun) rfl clearsB
  · intro p hown
    rw [World.count_counting]
    exact hB p (World.reaches_counting.mp hown)
  · intro s
    rw [World.count_counting]
    exact hkept.count_le s
  · exact fun p hown => (hsame p (World.reaches_counting.mp hown)).counting _

/-- A test case is run after another one that has left a task pending, and looks as if it were run alone after
one task was counted. -/
theorem runs_independent_pending : ∃ (A B : Case) (done : Conclusion) (r₁ : Runner) (w₁ : World),
    twoSpaces.running = none ∧ twoSpaces.Holds (.space, A.space) ∧ twoSpaces.Holds (.space, B.space) ∧
      twoSpaces.Apart (.space, A.space) (.space, B.space) ∧
      (Runner.new suspendingConfig).run A false twoSpaces = some ((done, r₁), w₁) ∧ w₁.created = 1 ∧
      (r₁.run B false w₁).map (viewRun r₁ B.space) = viewAlone suspendingConfig B false twoSpaces 1 := by
  obtain ⟨A, B, ⟨⟨done, r₁⟩, w₁⟩, -, -, hrun, hcreated, -⟩ := shown_fails_after_pending
  have hsame : (r₁.run ⟨B, 1⟩ false w₁).map (viewRun r₁ 1) =
      viewAlone suspendingConfig ⟨B, 1⟩ false twoSpaces w₁.created :=
    (runs_independent rfl (twoSpaces_holds 0) (twoSpaces_holds 1) twoSpaces_apart hrun).1
  rw [show w₁.created = 1 from hcreated] at hsame
  exact ⟨⟨A, 0⟩, ⟨B, 1⟩, done, r₁, w₁, rfl, twoSpaces_holds 0, twoSpaces_holds 1, twoSpaces_apart, hrun, hcreated,
    hsame⟩

/-- **What is seen of a test case depends on the number of tasks counted before:** there are test cases that
share nothing, and the second one does not look as if it were run by a new interpreter. -/
theorem runs_share_count : ∃ (A B : Case) (done : Conclusion) (r₁ : Runner) (w₁ : World),
    twoSpaces.running = none ∧ twoSpaces.Holds (.space, A.space) ∧ twoSpaces.Holds (.space, B.space) ∧
      twoSpaces.Apart (.space, A.space) (.space, B.space) ∧
      (Runner.new suspendingConfig).run A false twoSpaces = some ((done, r₁), w₁) ∧
      (r₁.run B false w₁).map (viewRun r₁ B.space) ≠
        ((Runner.start suspendingConfig >>= fun r => r.run B false) twoSpaces).map
          (viewRun (.new suspendingConfig) B.space) := by
  obtain ⟨A, B, ⟨⟨done, r₁⟩, w₁⟩, b, b', hrun, -, hb, hpassed, hb', hfailed⟩ := shown_fails_after_pending
  refine ⟨⟨A, 0⟩, ⟨B, 1⟩, done, r₁, w₁, rfl, twoSpaces_holds 0, twoSpaces_holds 1, twoSpaces_apart, hrun, ?_⟩
  rw [← viewAlone_zero]
  intro hsame
  unfold viewAlone at hsame
  rw [hb, hb'] at hsame
  have htally := congrArg (fun v => v.result.toOption) (Option.some.inj hsame)
  dsimp only at htally
  rw [viewRun_tally, viewRun_tally, hpassed, hfailed] at htally
  exact absurd htally (by decide)

end Test

end Transcript
