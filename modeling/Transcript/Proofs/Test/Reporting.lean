import Transcript.Proofs.Except
import Transcript.Proofs.Lang.Circular
import Transcript.Proofs.Test.Handling

/-!
# What reporting has to do with outcomes

Some settings of a run only decide what is reported: whether examples are announced, in which form a
difference is shown, and whether failures after the first are shown at all. Nothing that an example does
or that is counted looks at them. So two runs that differ in them run the same statements in the same
worlds, and each example ends in the same way in both, told by another failure at most.

There is one exception. A failure that is shown has to be told, and the report of an exception with an
argument that lies in itself never comes out. A run that shows the failure has no end then; one that
passes over it in silence goes on.

Results:
* `accepts_of_sameButReports`: whether an output matches does not depend on what is reported.
* `judge_tells`: what a statement did is judged in the same way, unless that cannot be told.
* `afterVerdict_alike`, `runExamples_tells`: counts, ends and worlds of two runs.
* `run_tells`: whole runs, and what one of them has to tell that the other one has passed over.
* `reporting_inert_unless_circular`: what this leaves of the influence of reporting.
-/

namespace Transcript

/-! ## Flags for reports -/

/-- Whether a flag decides about nothing but how failures are reported. -/
def Flag.isReport : Flag → Bool
  | .reportUdiff | .reportCdiff | .reportNdiff | .reportOnlyFirstFailure => true
  | _ => false

/-- **Sets that differ in flags for reports only.** -/
def FlagSet.SameButReports (a b : FlagSet) : Prop := ∀ f : Flag, f.isReport = false → b.has f = a.has f

namespace FlagSet.SameButReports

variable {a b : FlagSet}

theorem of_reports {fs : List Flag} (hfs : ∀ f ∈ fs, f.isReport = true) :
    FlagSet.empty.SameButReports (.ofList fs) := by
  intro f hf
  have hmem : f ∉ fs := fun hmem => Bool.false_ne_true (hf.symm.trans (hfs f hmem))
  exact (List.contains_eq_mem f fs).trans (decide_eq_false hmem)

/-- Overrides keep it so: what they say of a flag holds in both. -/
theorem apply (h : a.SameButReports b) (o : Overrides) : (o.apply a).SameButReports (o.apply b) := by
  intro f hf
  rw [Overrides.has_apply, Overrides.has_apply, h f hf]

theorem hasAny (h : a.SameButReports b) {fs : List Flag} (hfs : ∀ f ∈ fs, f.isReport = false) :
    b.hasAny fs = a.hasAny fs := by
  unfold FlagSet.hasAny
  induction fs with
  | nil => rfl
  | cons f fs ih =>
    rw [List.forall_mem_cons] at hfs
    rw [List.any_cons, List.any_cons, h f hfs.1, ih hfs.2]

end FlagSet.SameButReports

namespace Compare

variable {a b : FlagSet}

theorem acceptsPlain_of_sameButReports (h : a.SameButReports b) (want got : List Char) :
    acceptsPlain want got b = acceptsPlain want got a := by
  unfold acceptsPlain
  rw [h .dontAcceptTrueForOne rfl, h .dontAcceptBlankline rfl, h .normalizeWhitespace rfl,
    h .ellipsis rfl]

/-- **Whether an output matches its expectation** does not depend on what is reported. -/
theorem accepts_of_sameButReports (h : a.SameButReports b) (want got : List Char) :
    accepts want got b = accepts want got a := by
  have hany : b.hasAny [.allowUnicode, .allowBytes, .number] =
      a.hasAny [.allowUnicode, .allowBytes, .number] := h.hasAny (by decide)
  have hprefixes (text : List Char) : dropAllowedPrefixes b text = dropAllowedPrefixes a text := by
    unfold dropAllowedPrefixes
    rw [h .allowUnicode rfl, h .allowBytes rfl]
  unfold accepts
  rw [hany, h .number rfl, hprefixes, hprefixes, acceptsPlain_of_sameButReports h,
    acceptsPlain_of_sameButReports h]

end Compare

/-! ## Counts -/

/-- **Counts that differ in skipped examples only:** the second ones lack at most so many of them. -/
structure Counts.Spares (n : Nat) (s t : Counts) : Prop where
  /-- As many have failed. -/
  failed : t.failed = s.failed
  /-- As many were run. -/
  attempted : t.attempted = s.attempted
  /-- No more were skipped, -/
  le : t.skipped ≤ s.skipped
  /-- and at most so many fewer. -/
  ge : s.skipped ≤ t.skipped + n

theorem Counts.Spares.refl (t : Counts) : t.Spares 0 t := ⟨rfl, rfl, Nat.le_refl _, Nat.le_refl _⟩

theorem Counts.Spares.mono {n m : Nat} {s t : Counts} (h : s.Spares n t) (hnm : n ≤ m) : s.Spares m t :=
  ⟨h.failed, h.attempted, h.le, Nat.le_trans h.ge (Nat.add_le_add_left hnm _)⟩

/-- Counts that lack nothing are the same. -/
theorem Counts.Spares.eq {s t : Counts} (h : s.Spares 0 t) : t = s := by
  have hskipped : t.skipped = s.skipped := Nat.le_antisymm h.le h.ge
  obtain ⟨failed, attempted, skipped⟩ := t
  cases h.failed
  cases h.attempted
  cases hskipped
  rfl

/-- Two tallies are kept of counts that differ in skipped examples only. -/
def Tally.Spares (n : Nat) (s t : Tally) : Prop := ∃ a b : Counts, a.Spares n b ∧ s = a.tally ∧ t = b.tally

/-- Tallies of counts that lack nothing are the same. -/
theorem Tally.Spares.eq {s t : Tally} (h : s.Spares 0 t) : t = s := by
  obtain ⟨a, b, hab, rfl, rfl⟩ := h
  exact congrArg Counts.tally hab.eq

namespace Test

open Lang

theorem acceptsMessage_of_sameButReports {a b : FlagSet} (h : a.SameButReports b)
    (want message : List Char) : acceptsMessage want message b = acceptsMessage want message a := by
  unfold acceptsMessage
  rw [Compare.accepts_of_sameButReports h, Compare.accepts_of_sameButReports h,
    h .ignoreExceptionDetail rfl]

/-! ## Examples that end alike -/

/-- **Examples that end alike:** both as expected, both by an interruption, or both by a failure. -/
inductive Verdict.Alike : Verdict → Verdict → Prop
  | success : Alike .success .success
  | interrupt : Alike .interrupt .interrupt
  | failure (f g : Failure) : Alike (.failure f) (.failure g)

/-- What is compared with the expected message, by the message of the exception. -/
def comparedMessage (exc : Exc) (message : List Char) : List Char :=
  (messageLines exc.kind ((exc.place.map placeLines).getD [] ++ [kindLine exc.kind message])).flatten

/-- The verdict on an exception whose report is known, by what is compared with the expected message. -/
def verdictOn (location : Location) (e : Session.Example) (flags : FlagSet) (output : List Char) (exc : Exc)
    (compared traceback : List Char) : Verdict :=
  match e.message with
  | none => .failure (.unexpected location e exc traceback)
  | some want =>
    if acceptsMessage want compared flags then .success
    else .failure (.mismatch location e (output ++ traceback) flags)

/-- Verdicts on exceptions differ in what they report only. -/
theorem verdictOn_alike {a b : FlagSet} (h : a.SameButReports b) (location : Location) (e : Session.Example)
    (output : List Char) (exc exc' : Exc) (compared traceback traceback' : List Char) :
    (verdictOn location e a output exc compared traceback).Alike
      (verdictOn location e b output exc' compared traceback') := by
  unfold verdictOn
  cases e.message with
  | none => exact .failure _ _
  | some want =>
    dsimp only
    rw [acceptsMessage_of_sameButReports h]
    split
    · exact .success
    · exact .failure _ _

/-- **An exception that has a message** is judged by it. -/
theorem judge_exception {exc : Exc} (hkind : exc.kind ≠ .keyboardInterrupt) {w : World} {m : List Char}
    (hm : w.message? exc.toRaised = some m) (location : Location) (e : Session.Example) (filename : String)
    (flags : FlagSet) (quiet : Bool) (output : List Char) :
    ∃ traceback, judge location e filename flags quiet ⟨output, some exc⟩ w =
      some (verdictOn location e flags output exc (comparedMessage exc m) traceback, w) := by
  obtain ⟨traceback, ht⟩ : ∃ t, tracebackUnless quiet exc filename w = some (t, w) := by
    unfold tracebackUnless
    split
    · exact ⟨[], rfl⟩
    · rw [Exc.traceback_apply, hm]
      exact ⟨_, rfl⟩
  have hlines : exc.reportLines w = some ((exc.place.map placeLines).getD [] ++ [kindLine exc.kind m], w) := by
    rw [Exc.reportLines_apply, hm]
    rfl
  refine ⟨traceback, ?_⟩
  unfold judge verdictOn comparedMessage
  dsimp only
  rw [if_neg hkind, Host.bind_of_some ht]
  cases e.message with
  | none => rfl
  | some want =>
    dsimp only
    rw [Host.bind_of_some hlines]
    split
    · rfl
    · rfl

/-- **An exception without a message** is judged only where nothing has to be told of it: it was not expected,
and its failure is not to be shown. -/
theorem judge_of_endless {exc : Exc} (hkind : exc.kind ≠ .keyboardInterrupt) {w : World}
    (hm : w.message? exc.toRaised = none) (location : Location) (e : Session.Example) (filename : String)
    (flags : FlagSet) (quiet : Bool) (output : List Char) :
    judge location e filename flags quiet ⟨output, some exc⟩ w =
      if quiet && e.message.isNone then some (.failure (.unexpected location e exc []), w) else none := by
  have ht : tracebackUnless quiet exc filename w = if quiet then some ([], w) else none := by
    unfold tracebackUnless
    split
    · rfl
    · rw [Exc.traceback_apply, hm]
      rfl
  have hlines : exc.reportLines w = none := by
    rw [Exc.reportLines_apply, hm]
    rfl
  unfold judge
  dsimp only
  rw [if_neg hkind]
  cases quiet with
  | false => exact Host.bind_of_none ht
  | true =>
    rw [Host.bind_of_some ht]
    cases e.message with
    | none => rfl
    | some want => exact Host.bind_of_none hlines

/-! ## Exceptions that are passed over -/

/-- **An exception that a run passes over in silence,** with the world in which it was raised. -/
structure Hushed where
  /-- The exception. -/
  exc : Exc
  /-- The world. -/
  world : World

/-- Whether a way down from an argument of the exception meets a value that lies in itself. -/
def Hushed.IsCircular (p : Hushed) : Prop := ∃ a ∈ p.exc.args, p.world.Circular a

/-- **What can be told:** the exceptions with a message are those without circular arguments. -/
theorem Hushed.message?_eq_none {p : Hushed} : p.world.message? p.exc.toRaised = none ↔ p.IsCircular := by
  rw [← not_iff_not, ← ne_eq, Option.ne_none_iff_isSome, World.isSome_message?]
  simp only [World.founded_iff, IsCircular, not_exists, not_and]

/-- The exception of an example in which none was expected. -/
def Verdict.exception? : Verdict → Option Exc
  | .failure (.unexpected _ _ exc _) => some exc
  | _ => none

/-- What a run that may be quiet passes over at an example, where another one tells it. -/
def hushedAt (quiet quiet' : Bool) (v : Verdict) (w : World) : List Hushed :=
  if quiet && !quiet' then v.exception?.toList.map (⟨·, w⟩) else []

theorem hushedAt_of_expected {v : Verdict} (hv : v.exception? = none) (quiet quiet' : Bool) (w : World) :
    hushedAt quiet quiet' v w = [] := by
  unfold hushedAt
  rw [hv]
  exact ite_self _

/-- It is the exception that the verdict is about. -/
theorem mem_hushedAt {quiet quiet' : Bool} {v : Verdict} {w : World} {p : Hushed}
    (hp : p ∈ hushedAt quiet quiet' v w) : v.exception? = some p.exc ∧ p.world = w := by
  unfold hushedAt at hp
  split at hp
  · obtain ⟨exc, hexc, rfl⟩ := List.mem_map.mp hp
    exact ⟨Option.mem_toList.mp hexc, rfl⟩
  · cases hp

theorem exception?_verdictOn {location : Location} {e : Session.Example} {flags : FlagSet}
    {output compared traceback : List Char} {exc exc' : Exc}
    (h : (verdictOn location e flags output exc compared traceback).exception? = some exc') : exc' = exc := by
  unfold verdictOn at h
  split at h
  · cases h
    rfl
  · split at h
    · cases h
    · cases h

/-- **The exceptions that a run passes over in silence,** where a run with other flags for reports tells
them. -/
def hushed (c d : Config) (case : Case) :
    Nat → List Session.Example → Executor → Bool → Host (List Hushed)
  | _, [], _, _ => return []
  | index, e :: es, x, failed => do
    let flags := e.overrides.apply c.flags
    if flags.has .skip then hushed c d case (index + 1) es x failed
    else
      let quiet := flags.has .reportOnlyFirstFailure && failed
      let quiet' := (e.overrides.apply d.flags).has .reportOnlyFirstFailure && failed
      let (v, x) ← runExample case index e flags quiet x
      let here := hushedAt quiet quiet' v (← get)
      let t : Trial := ⟨e, v⟩
      if t.isLast c failed then return here
      else return here ++ (← hushed c d case (index + 1) es x (failed || t.isFailure))

/-- The same for all examples of a test case, from getting ready on. -/
def hushedIn (c d : Config) (case : Case) : Host (List Hushed) := do
  let x ← Executor.start c.execution
  hushed c d case 0 case.region.examples x false

/-- **A computation beside one that has passed over some exceptions.** It tells them if it can, and comes to
a related result in the same world; otherwise it comes to none. -/
inductive Tells {α β : Type} (R : α → β → Prop) (passed : List Hushed) (r : α × World) :
    Option (β × World) → Prop
  | told (h : ∀ p ∈ passed, ¬ p.IsCircular) {b : β} (hb : R r.1 b) : Tells R passed r (some (b, r.2))
  | endless {p : Hushed} (hp : p ∈ passed) (h : p.IsCircular) : Tells R passed r none

namespace Tells

variable {α β γ δ : Type} {R : α → β → Prop} {S : γ → δ → Prop}

/-- Nothing was passed over. -/
theorem of_related {a : α} {b : β} (h : R a b) (w : World) : Tells R [] (a, w) (some (b, w)) :=
  .told (List.forall_mem_nil _) h

theorem of_agree {x : Host α} {y : Host β} {a : α} {w w' : World} (h : Host.Agree R x y)
    (hx : x w = some (a, w')) : Tells R [] (a, w') (y w) := by
  have hw := h w
  rw [hx] at hw
  generalize y w = o at hw ⊢
  cases hw with
  | @some _ r hr =>
    obtain ⟨b, w₁⟩ := r
    obtain ⟨hab, rfl⟩ := hr
    exact .of_related hab w₁

/-- **One computation after the other:** they tell what both have passed over. -/
theorem bind {passed passed' : List Hushed} {a : α} {y : Host β} {g : β → Host δ} {r : γ × World}
    {w w₁ : World} (h : Tells R passed (a, w₁) (y w)) (hg : ∀ b, R a b → Tells S passed' r (g b w₁)) :
    Tells S (passed ++ passed') r ((y >>= g) w) := by
  generalize hy : y w = o at h
  cases h with
  | @told hpassed b hb =>
    rw [Host.bind_of_some hy]
    have hrest := hg b hb
    generalize g b w₁ = o at hrest ⊢
    cases hrest with
    | told hpassed' hb => exact .told (List.forall_mem_append.mpr ⟨hpassed, hpassed'⟩) hb
    | endless hp hcircular => exact .endless (List.mem_append_right _ hp) hcircular
  | endless hp hcircular =>
    rw [Host.bind_of_none hy]
    exact .endless (List.mem_append_left _ hp) hcircular

/-- Nothing is passed over any more. -/
theorem bind_related {passed : List Hushed} {a : α} {y : Host β} {g : β → Host δ} {r : γ × World}
    {w w₁ : World} (h : Tells R passed (a, w₁) (y w)) (hg : ∀ b, R a b → Tells S [] r (g b w₁)) :
    Tells S passed r ((y >>= g) w) := by
  rw [← List.append_nil passed]
  exact h.bind hg

end Tells

/-- **What a statement did is judged in the same way,** whatever is reported of it and under which flags
for reports, unless it is an exception that only one of both has to tell, and cannot. -/
theorem judge_tells {a b : FlagSet} (h : a.SameButReports b) {location : Location} {e : Session.Example}
    {filename : String} {quiet : Bool} (quiet' : Bool) {attempt : Attempt} {v : Verdict} {w w' : World}
    (hv : judge location e filename a quiet attempt w = some (v, w')) :
    w' = w ∧ Tells Verdict.Alike (hushedAt quiet quiet' v w) (v, w)
      (judge location e filename b quiet' attempt w) := by
  have halike {v v' : Verdict} (hexpected : v.exception? = none) (hv' : v.Alike v') :
      Tells Verdict.Alike (hushedAt quiet quiet' v w) (v, w) (some (v', w)) := by
    rw [hushedAt_of_expected hexpected]
    exact .of_related hv' w
  obtain ⟨output, raised⟩ := attempt
  cases raised with
  | none =>
    unfold judge at hv ⊢
    dsimp only at hv ⊢
    rw [Compare.accepts_of_sameButReports h]
    split at hv
    · next haccepts =>
      rw [if_pos haccepts]
      cases hv
      exact ⟨rfl, halike rfl .success⟩
    · next haccepts =>
      rw [if_neg haccepts]
      cases hv
      exact ⟨rfl, halike rfl (.failure _ _)⟩
  | some exc =>
    by_cases hkind : exc.kind = .keyboardInterrupt
    · unfold judge at hv ⊢
      dsimp only at hv ⊢
      rw [if_pos hkind] at hv ⊢
      cases hv
      exact ⟨rfl, halike rfl .interrupt⟩
    · cases hm : w.message? exc.toRaised with
      | some m =>
        obtain ⟨traceback, hjudge⟩ := judge_exception hkind hm location e filename a quiet output
        obtain ⟨traceback', hjudge'⟩ := judge_exception hkind hm location e filename b quiet' output
        rw [hjudge] at hv
        cases hv
        rw [hjudge']
        refine ⟨rfl, .told (fun p hp hcircular => ?_) (verdictOn_alike h _ _ _ _ _ _ _ _)⟩
        -- What was passed over, if anything, is the exception itself, which has a message.
        obtain ⟨hexc, hworld⟩ := mem_hushedAt hp
        have hnone := Hushed.message?_eq_none.mpr hcircular
        rw [hworld, exception?_verdictOn hexc, hm] at hnone
        cases hnone
      | none =>
        rw [judge_of_endless hkind hm] at hv ⊢
        split at hv
        · next hquiet =>
          cases hv
          obtain ⟨rfl, hmessage⟩ := Bool.and_eq_true_iff.mp hquiet
          rw [hmessage, Bool.and_true]
          refine ⟨rfl, ?_⟩
          cases quiet' with
          | true => exact .of_related (.failure _ _) w
          | false =>
            have hcircular : Hushed.IsCircular ⟨exc, w⟩ := Hushed.message?_eq_none.mp hm
            exact .endless List.mem_cons_self hcircular
        · cases hv

/-- **An example ends in the same way,** whatever is reported of it, unless it raises an exception that only
one of two runs has to tell, and cannot. -/
theorem runExample_tells {a b : FlagSet} (h : a.SameButReports b) {case : Case} {index : Nat}
    {e : Session.Example} {quiet : Bool} (quiet' : Bool) {x x' : Executor} {v : Verdict} {w w' : World}
    (hran : runExample case index e a quiet x w = some ((v, x'), w')) :
    Tells (fun r s => r.1.Alike s.1 ∧ s.2 = r.2) (hushedAt quiet quiet' v w') ((v, x'), w')
      (runExample case index e b quiet' x w) := by
  unfold runExample at hran ⊢
  obtain ⟨⟨o, x₁⟩, w₁, hstatement, hran⟩ := Host.bind_eq_some.mp hran
  obtain ⟨output, w₂, houtput, hran⟩ := Host.bind_eq_some.mp hran
  obtain ⟨v₁, w₃, hjudge, hran⟩ := Host.bind_eq_some.mp hran
  cases hran
  obtain ⟨rfl, htells⟩ := judge_tells h quiet' hjudge
  rw [Host.bind_of_some hstatement]
  dsimp only
  rw [Host.bind_of_some houtput]
  exact htells.bind_related fun v' hv => .of_related ⟨hv, rfl⟩ _

/-! ## Progress -/

namespace Progress

variable {n : Nat} {p q : Progress}

theorem spares_attempt (h : p.counts.Spares n q.counts) : p.attempt.counts.Spares n q.attempt.counts :=
  ⟨h.failed, congrArg (· + 1) h.attempted, h.le, h.ge⟩

theorem spares_fail (h : p.counts.Spares n q.counts) : p.fail.counts.Spares n q.fail.counts :=
  ⟨congrArg (· + 1) h.failed, h.attempted, h.le, h.ge⟩

theorem spares_skip (h : p.counts.Spares n q.counts) : p.skip.counts.Spares n q.skip.counts :=
  ⟨h.failed, h.attempted, Nat.succ_le_succ h.le, by
    change p.counts.skipped + 1 ≤ q.counts.skipped + 1 + n
    have := h.ge
    omega⟩

theorem spares_writeIf (h : p.counts.Spares n q.counts) (b b' : Bool) (text text' : List Char) :
    (p.writeIf b text).counts.Spares n (q.writeIf b' text').counts := by
  rw [counts_writeIf, counts_writeIf]
  exact h

end Progress

/-- What comes after an example that has not ended its run: the next one, unless there was a failure and
the first one is to be the last. -/
def proceed (flags : FlagSet) (p : Progress) : Next :=
  if 0 < p.counts.failed && flags.has .failFast then .stop p else .goOn p

/-- **After a failure** that does not end the run it is counted, whatever else is done with it. -/
theorem afterVerdict_failure {c : Config} (hc : c.handling ≠ .stop) (test : String) (flags : FlagSet)
    (quiet : Bool) (f : Failure) (p : Progress) :
    ∃ q : Progress, q.counts = p.counts ∧
      afterVerdict c test flags quiet (.failure f) p = proceed flags q.fail := by
  cases quiet with
  | true => exact ⟨p, rfl, rfl⟩
  | false =>
    unfold afterVerdict handle
    cases hhandling : c.handling with
    | report => exact ⟨p.write (f.report?.getD []), rfl, rfl⟩
    | stop => exact absurd hhandling hc
    | collect => exact ⟨{ p with kept := f :: p.kept }, rfl, rfl⟩

/-- **After examples that have ended alike,** two runs that do not end with a failure go on alike. -/
theorem afterVerdict_alike {c d : Config} (hc : c.handling ≠ .stop) (hd : d.handling ≠ .stop)
    (test : String) {a b : FlagSet} (hfast : b.has .failFast = a.has .failFast) (quiet quiet' : Bool)
    {v v' : Verdict} (hv : v.Alike v') {n : Nat} {p q : Progress} (h : p.counts.Spares n q.counts) :
    Next.Agree (fun p q => p.counts.Spares n q.counts) (afterVerdict c test a quiet v p)
      (afterVerdict d test b quiet' v' q) := by
  have hproceed {p q : Progress} (h : p.counts.Spares n q.counts) :
      Next.Agree (fun p q => p.counts.Spares n q.counts) (proceed a p) (proceed b q) := by
    unfold proceed
    rw [h.failed, hfast]
    split
    · exact .stop h
    · exact .goOn h
  cases hv with
  | success => exact hproceed (Progress.spares_writeIf h _ _ _ _)
  | interrupt => exact .abort _ h
  | failure f g =>
    obtain ⟨p', hp', hnext⟩ := afterVerdict_failure hc test a quiet f p
    obtain ⟨q', hq', hnext'⟩ := afterVerdict_failure hd test b quiet' g q
    rw [hnext, hnext']
    refine hproceed (Progress.spares_fail ?_)
    rw [hp', hq']
    exact h

/-! ## Runs -/

/-- **Ways of running test cases that differ in what is reported only.** -/
structure Config.SameButReports (c d : Config) : Prop where
  /-- The flags differ in those for reports only. -/
  flags : c.flags.SameButReports d.flags
  /-- The same is done with failing examples. -/
  handling : d.handling = c.handling
  /-- Statements are run in the same way. -/
  execution : d.execution = c.execution

theorem Config.SameButReports.symm {c d : Config} (h : c.SameButReports d) : d.SameButReports c :=
  ⟨fun f hf => (h.flags f hf).symm, h.handling.symm, h.execution.symm⟩

/-- **Runs of examples that end alike:** both with the same failure or both with none, with counts that
differ in so many skipped examples at most, and with the same that runs further statements. -/
def EndAlike (n : Nat) (r s : Option Failure × Progress × Executor) : Prop :=
  s.1 = r.1 ∧ r.2.1.counts.Spares n s.2.1.counts ∧ s.2.2 = r.2.2

section

variable {c d : Config} {case : Case} {index : Nat} {e : Session.Example} {es : List Session.Example}
  {x : Executor} {failed : Bool} {r : Option Failure × Progress × Executor} {w w' : World}

/-- **An example that is run,** in two runs that differ in what is reported only. What is left of the second run
is to be compared for all next steps that it may come to. -/
theorem runExamples_cons_tells (h : c.SameButReports d) (hc : c.handling ≠ .stop)
    (hskip : (e.overrides.apply c.flags).has .skip = false) {v : Verdict} {x₁ : Executor} {w₁ : World}
    (hv : runExample case index e (e.overrides.apply c.flags)
      ((e.overrides.apply c.flags).has .reportOnlyFirstFailure && failed) x w = some ((v, x₁), w₁))
    {p q : Progress} (hq : q.counts = p.attempt.counts) {next : Next}
    (hnext : afterVerdict c case.region.name (e.overrides.apply c.flags)
      ((e.overrides.apply c.flags).has .reportOnlyFirstFailure && failed) v q = next) {passed : List Hushed}
    (hrest : ∀ next', Next.Agree (fun p q => p.counts.Spares 0 q.counts) next next' →
      Tells (EndAlike 0) passed (r, w') (resume d case (index + 1) es x₁ next' w₁))
    {p' : Progress} (hfailed : decide (0 < p'.counts.failed) = failed) (hp' : p.counts.Spares 0 p'.counts) :
    Tells (EndAlike 0) (hushedAt ((e.overrides.apply c.flags).has .reportOnlyFirstFailure && failed)
        ((e.overrides.apply d.flags).has .reportOnlyFirstFailure && failed) v w₁ ++ passed) (r, w')
      (runExamples d case index (e :: es) x p' w) := by
  have hflags := h.flags.apply e.overrides
  have hd : d.handling ≠ .stop := by rwa [h.handling]
  rw [runExamples_cons]
  dsimp only
  rw [hflags .skip rfl, hskip, if_neg Bool.false_ne_true, hfailed]
  refine (runExample_tells hflags _ hv).bind ?_
  rintro ⟨v', x'⟩ ⟨hv', hx⟩
  dsimp only at hv' hx ⊢
  subst hx
  refine hrest _ (hnext ▸ afterVerdict_alike hc hd case.region.name (hflags .failFast rfl) _ _ hv' ?_)
  rw [hq, Progress.counts_writeIf]
  exact Progress.spares_attempt hp'

/-- **The examples of two runs** that differ in what is reported only: the second one ends alike if it can
tell the exceptions that the first one has passed over. -/
theorem runExamples_tells (h : c.SameButReports d) (hc : c.handling ≠ .stop) {p : Progress}
    (hfailed : decide (0 < p.counts.failed) = failed)
    (hran : runExamples c case index es x p w = some (r, w')) :
    ∃ passed w₁, hushed c d case index es x failed w = some (passed, w₁) ∧
      ∀ {p' : Progress}, p.counts.Spares 0 p'.counts →
        Tells (EndAlike 0) passed (r, w') (runExamples d case index es x p' w) := by
  induction es generalizing index x p failed w with
  | nil =>
    cases hran
    exact ⟨[], w', rfl, fun hp' => .of_related ⟨rfl, hp', rfl⟩ w'⟩
  | cons e es ih =>
    have hfailed' {p' : Progress} (hp' : p.counts.Spares 0 p'.counts) : decide (0 < p'.counts.failed) = failed := by
      rw [hp'.failed, hfailed]
    rcases runExamples_step hfailed hran with
      ⟨hskip, q, htally, -, hq, hran⟩ | ⟨hskip, v, x₁, w₁, q, hv, htally, -, hq, hran⟩
    · obtain ⟨passed, w₁, hpassed, htells⟩ := ih hq hran
      refine ⟨passed, w₁, (congrFun (if_pos hskip) w).trans hpassed, fun hp' => ?_⟩
      rw [runExamples_cons]
      dsimp only
      rw [h.flags.apply e.overrides .skip rfl, if_pos hskip]
      refine htells ?_
      rw [htally, Progress.counts_writeIf, Progress.counts_writeIf]
      exact Progress.spares_skip hp'
    · have hcomes : Comes c case.region.name failed ⟨e, v⟩ q _ := afterVerdict_comes hq v
      have hgoes := hcomes.goesOn
      generalize hnext : afterVerdict c _ _ _ v q = next at hran hgoes
      unfold hushed
      dsimp only
      rw [hskip, if_neg Bool.false_ne_true, Host.bind_of_some hv]
      dsimp only
      rcases hgoes with ⟨hlast, hends⟩ | ⟨hlast, p₁, rfl, hfailed₁⟩
      · -- The first run ends here, and so does the second one, if it comes so far.
        simp only [if_pos hlast]
        refine ⟨_, w₁, rfl, fun hp' => ?_⟩
        rw [← List.append_nil (hushedAt _ _ _ _)]
        refine runExamples_cons_tells h hc hskip hv htally hnext (fun next' hnext' => ?_) (hfailed' hp') hp'
        cases hnext' with
        | goOn hpq => exact absurd rfl (hends _)
        | stop hpq =>
          cases hran
          exact .of_related ⟨rfl, hpq, rfl⟩ w'
        | abort f hpq =>
          cases hran
          exact .of_related ⟨rfl, hpq, rfl⟩ w'
      · obtain ⟨passed, w₂, hpassed, htells⟩ := ih hfailed₁ hran
        simp only [if_neg (Bool.eq_false_iff.mp hlast)]
        refine ⟨_, w₂, Host.bind_eq_some.mpr ⟨w₁, w₁, rfl, Host.bind_eq_some.mpr ⟨passed, w₂, hpassed, rfl⟩⟩,
          fun hp' => ?_⟩
        refine runExamples_cons_tells h hc hskip hv htally hnext (fun next' hnext' => ?_) (hfailed' hp') hp'
        cases hnext' with
        | goOn hpq => exact htells hpq

end

/-- **Runs with the same outcome,** whatever they report. -/
structure SameOutcome (a b : (Conclusion × Runner) × World) : Prop where
  /-- They have the same result: the same counts, or both are interrupted. -/
  result : b.1.1.result = a.1.1.result
  /-- They leave the same world, and with it the same namespace. -/
  world : b.2 = a.2

/-- What a runner does after the examples of a test case. -/
def Runner.conclude (r : Runner) (case : Case) (clears : Bool) (a : Option Failure × Progress × Executor) :
    Host (Conclusion × Runner) := do
  a.2.2.finish
  let _ ← Host.takeOutput
  if clears && !a.1.any Failure.isOfExample then Host.setSpace case.space .empty
  let failures := r.failures ++ a.2.1.kept.reverse
  match a.1 with
  | some f => return (⟨.error f, a.2.1.report⟩, { r with failures })
  | none =>
    return (⟨.ok a.2.1.counts.tally, a.2.1.report⟩,
      { r with failures, ledger := r.ledger.record case.region.name a.2.1.counts.tally })

theorem Runner.run_eq (r : Runner) (case : Case) (clears : Bool) :
    r.run case clears = Executor.start r.config.execution >>= fun x =>
      runExamples r.config case 0 case.region.examples x .zero >>= r.conclude case clears := rfl

/-- **Runs conclude alike** whose examples have ended so. -/
theorem conclude_alike {n : Nat} {a b : Option Failure × Progress × Executor} (h : EndAlike n a b)
    {case case' : Case} (hspace : case'.space = case.space) (r s : Runner) (clears : Bool) :
    Host.Agree (fun a b => Except.Agree (Tally.Spares n) a.1.result b.1.result) (r.conclude case clears a)
      (s.conclude case' clears b) := by
  obtain ⟨failure, p, x⟩ := a
  obtain ⟨failure', q, x'⟩ := b
  obtain ⟨hfailure, htally, hx⟩ := h
  dsimp only at hfailure htally hx
  subst hfailure hx
  unfold Runner.conclude
  dsimp only
  rw [hspace]
  refine .after fun _ _ _ _ => .after fun _ _ _ _ => ?_
  cases failure' with
  | some f =>
    split
    · exact .after fun _ _ _ _ => .pure (.error f)
    · exact .pure (.error f)
  | none =>
    split
    · exact .after fun _ _ _ _ => .pure (.ok ⟨_, _, htally, rfl, rfl⟩)
    · exact .pure (.ok ⟨_, _, htally, rfl, rfl⟩)

/-- **Whole runs** that differ in what is reported only: the second one ends alike if it can tell the
exceptions that the first one has passed over. -/
theorem run_tells {r s : Runner} (h : r.config.SameButReports s.config) (hr : r.config.handling ≠ .stop)
    {case : Case} {clears : Bool} {a : Conclusion × Runner} {w w' : World}
    (hran : r.run case clears w = some (a, w')) :
    ∃ passed w₁, hushedIn r.config s.config case w = some (passed, w₁) ∧
      Tells (fun a b => Except.Agree (Tally.Spares 0) a.1.result b.1.result) passed (a, w')
        (s.run case clears w) := by
  rw [Runner.run_eq] at hran ⊢
  obtain ⟨x, w₁, hstart, hran⟩ := Host.bind_eq_some.mp hran
  obtain ⟨ended, w₂, hexamples, hran⟩ := Host.bind_eq_some.mp hran
  obtain ⟨passed, w₃, hpassed, htells⟩ := runExamples_tells h hr rfl hexamples
  refine ⟨passed, w₃, Host.bind_eq_some.mpr ⟨x, w₁, hstart, hpassed⟩, ?_⟩
  rw [h.execution, Host.bind_of_some hstart]
  exact (htells (.refl Progress.zero.counts)).bind_related fun b hb => .of_agree (conclude_alike hb rfl r s clears) hran

/-- Runs that end alike, with no skipped examples that only one of them has, have the same outcome. -/
theorem SameOutcome.of_agree {a b : Conclusion × Runner}
    (h : Except.Agree (Tally.Spares 0) a.1.result b.1.result) (w : World) : SameOutcome (a, w) (b, w) := by
  obtain ⟨⟨result, report⟩, r⟩ := a
  obtain ⟨⟨result', report'⟩, s⟩ := b
  refine ⟨?_, rfl⟩
  dsimp only at h ⊢
  cases h with
  | ok htally => exact congrArg Except.ok htally.eq
  | error f => rfl

/-- **Reporting does not influence outcomes, unless it has no end.** Whatever the test case, its namespace and
the way of running statements, where failures are reported or collected: beside a run that has an end, one
that differs from it in verbosity and in flags for reports only comes to the same counts or is interrupted
as well, and leaves the same world, just if no exception that the one has passed over in silence and the
other one has to tell has a circular argument. Otherwise it has no end. -/
theorem reporting_inert_unless_circular {r s : Runner} (h : r.config.SameButReports s.config)
    (hr : r.config.handling ≠ .stop) (case : Case) (clears : Bool) {w : World}
    {a : (Conclusion × Runner) × World} (ha : r.run case clears w = some a) :
    ∃ passed w', hushedIn r.config s.config case w = some (passed, w') ∧
      ((∀ p ∈ passed, ¬ p.IsCircular) ∧ Option.Rel SameOutcome (some a) (s.run case clears w) ∨
        (∃ p ∈ passed, p.IsCircular) ∧ s.run case clears w = none) := by
  obtain ⟨passed, w₁, hpassed, htells⟩ := run_tells h hr ha
  refine ⟨passed, w₁, hpassed, ?_⟩
  generalize s.run case clears w = o at htells ⊢
  cases htells with
  | told hnone hb => exact .inl ⟨hnone, .some (.of_agree hb _)⟩
  | endless hp hcircular => exact .inr ⟨⟨_, hp, hcircular⟩, rfl⟩

/-- Two examples fail, the second one by an exception. The one run announces the examples and shows the first
failure only, the other one shows both: they report different texts and come to the same counts. -/
theorem reporting_inert_unless_circular_told : ∃ case r s w a b p w',
    Config.SameButReports (Runner.config r) (Runner.config s) ∧ r.config.handling ≠ .stop ∧
    r.run case true w = some a ∧ s.run case true w = some b ∧
    hushedIn r.config s.config case w = some ([p], w') ∧ ¬ Hushed.IsCircular p ∧
    (Hushed.exc p).kind = .nameError ∧ SameOutcome a b ∧ a.1.1.result.toOption = some ⟨2, 2, 0⟩ ∧
    a.1.1.report ≠ b.1.1.report := by
  let r : Runner := .new ⟨.ofList [.reportNdiff, .reportOnlyFirstFailure], true, .report, .suspending⟩
  let s : Runner := .new ⟨.empty, false, .report, .suspending⟩
  let w := (World.empty.newSpace .empty).2
  have hfacts : (Region.ofText ">>> 1\n2\n>>> x = y\n".toList "t" "t.rst" 1).toOption.any
      (fun region => (r.run ⟨region, 0⟩ true w).any fun a => (s.run ⟨region, 0⟩ true w).any fun b =>
        (hushedIn r.config s.config ⟨region, 0⟩ w).any fun passed =>
          passed.1.map (·.exc.kind) == [.nameError] && a.1.1.result.toOption == some ⟨2, 2, 0⟩ &&
            a.1.1.report != b.1.1.report) = true := by
    decide +kernel
  obtain ⟨region, -, hfacts⟩ := (Option.any_eq_true _ _).mp hfacts
  obtain ⟨a, ha, hfacts⟩ := (Option.any_eq_true _ _).mp hfacts
  obtain ⟨b, hb, hfacts⟩ := (Option.any_eq_true _ _).mp hfacts
  obtain ⟨⟨passed, w'⟩, hpassed, hfacts⟩ := (Option.any_eq_true _ _).mp hfacts
  obtain ⟨hfacts, hreports⟩ := Bool.and_eq_true_iff.mp hfacts
  obtain ⟨hkinds, hresult⟩ := Bool.and_eq_true_iff.mp hfacts
  obtain ⟨p, rfl, hkind⟩ := List.map_eq_singleton_iff.mp (eq_of_beq hkinds)
  have hsame : r.config.SameButReports s.config :=
    .symm ⟨FlagSet.SameButReports.of_reports (by decide), rfl, rfl⟩
  have hr : r.config.handling ≠ .stop := fun h => nomatch h
  obtain ⟨passed, w₁, hpassed', houtcome⟩ := reporting_inert_unless_circular hsame hr ⟨region, 0⟩ true ha
  rw [hpassed] at hpassed'
  cases hpassed'
  rcases houtcome with ⟨hnone, houtcome⟩ | ⟨-, hendless⟩
  · rw [hb] at houtcome
    cases houtcome with
    | some houtcome =>
      exact ⟨⟨region, 0⟩, r, s, w, a, b, p, w', hsame, hr, ha, hb, hpassed, hnone p List.mem_cons_self, hkind,
        houtcome, eq_of_beq hresult, bne_iff_ne.mp hreports⟩
  · rw [hb] at hendless
    cases hendless

/-- The last of three examples raises an exception whose argument is a list that lies in itself. A run that
shows the first failure only comes to its end, and one that shows all failures does not. -/
theorem reporting_has_no_end :
    let r : Runner := .new ⟨.ofList [.reportOnlyFirstFailure], false, .report, .immediate⟩
    let s : Runner := .new ⟨.empty, false, .report, .immediate⟩
    let w := (World.empty.newSpace .empty).2
    r.config.SameButReports s.config ∧
      ∃ region, Region.ofText (">>> 1\n2\n>>> def f():\n...     a = []\n...     a.append(a)\n" ++
          "...     raise ValueError(a)\n>>> f()\n").toList "t" "t.rst" 1 = .ok region ∧
        (∃ a, r.run ⟨region, 0⟩ true w = some a ∧ a.1.1.result.toOption = some ⟨2, 3, 0⟩) ∧
        s.run ⟨region, 0⟩ true w = none ∧
        ¬ Option.Rel SameOutcome (r.run ⟨region, 0⟩ true w) (s.run ⟨region, 0⟩ true w) := by
  intro r s w
  have hfacts : (Region.ofText (">>> 1\n2\n>>> def f():\n...     a = []\n...     a.append(a)\n" ++
      "...     raise ValueError(a)\n>>> f()\n").toList "t" "t.rst" 1).toOption.any
      (fun region => ((r.run ⟨region, 0⟩ true w).any fun a => a.1.1.result.toOption == some ⟨2, 3, 0⟩) &&
        (s.run ⟨region, 0⟩ true w).isNone) = true := by
    decide +kernel
  obtain ⟨region, hregion, hfacts⟩ := (Option.any_eq_true _ _).mp hfacts
  obtain ⟨hquiet, htold⟩ := Bool.and_eq_true_iff.mp hfacts
  obtain ⟨a, ha, hresult⟩ := (Option.any_eq_true _ _).mp hquiet
  have hnone := Option.isNone_iff_eq_none.mp htold
  refine ⟨.symm ⟨FlagSet.SameButReports.of_reports (by decide), rfl, rfl⟩, region,
    Except.toOption_eq_some.mp hregion, ⟨a, ha, eq_of_beq hresult⟩, hnone, fun h => ?_⟩
  rw [ha, hnone] at h
  cases h

end Test

end Transcript
