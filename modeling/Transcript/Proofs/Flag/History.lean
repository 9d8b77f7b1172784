import Transcript.Proofs.Flag.Parts
import Transcript.Proofs.Test.Region

/-!
# Overrides and their history

Overrides come about by steps: flags are switched on or off, and overrides that came about in the same
way are merged in. What is kept of such a history is two sets of flags. They say of each flag the last
thing that the history says of it, so carrying them out is carrying out the steps one after the other.

Results:
* `overrides_consistent`: no flag is in both sets.
* `apply_overrides`: carrying out overrides is carrying out their history.
* `setting_overrides`: they keep the last word on each flag.
* `overrides_act_as_history`: all of this, and what it means for the examples of a directive.
-/

namespace Transcript

open Doc Test

/-! ## Sets that do not overlap -/

namespace Overrides

/-- **No flag is switched both on and off.** -/
def Consistent (o : Overrides) : Prop := ∀ f, ¬ (o.on.has f = true ∧ o.off.has f = true)

variable {o later : Overrides}

theorem consistent_empty : empty.Consistent := fun _ h => by cases h.1

theorem Consistent.enable (h : o.Consistent) (flags : FlagSet) : (o.enable flags).Consistent := by
  intro f hboth
  have hf := h f
  simp only [Overrides.enable, FlagSet.has_union, FlagSet.has_diff] at hboth
  cases hflags : flags.has f <;> simp_all

theorem Consistent.disable (h : o.Consistent) (flags : FlagSet) : (o.disable flags).Consistent := by
  intro f hboth
  have hf := h f
  simp only [Overrides.disable, FlagSet.has_union, FlagSet.has_diff] at hboth
  cases hflags : flags.has f <;> simp_all

/-- Merging keeps the sets apart, whatever is merged in. -/
theorem Consistent.merge (h : o.Consistent) (later : Overrides) : (o.merge later).Consistent := by
  rw [merge_eq]
  exact (h.enable later.on).disable later.off

/-! ### The word on a flag -/

theorem setting_empty (f : Flag) : empty.setting f = none := setting_eq empty f

theorem setting_enable (o : Overrides) (flags : FlagSet) (f : Flag) :
    (o.enable flags).setting f = if flags.has f then some true else o.setting f := by
  rw [setting_eq, setting_eq]
  cases hflags : flags.has f <;> simp [enable, hflags]

/-- Switching a flag off is the last word on it if it is not switched on as well. -/
theorem setting_disable (o : Overrides) (flags : FlagSet) (f : Flag) :
    (o.disable flags).setting f = if flags.has f then some false else o.setting f := by
  rw [setting_eq, setting_eq]
  cases hflags : flags.has f <;> simp [disable, hflags]

/-- What is merged in has the last word, if it has one. -/
theorem setting_merge (o : Overrides) (h : later.Consistent) (f : Flag) :
    (o.merge later).setting f = (later.setting f).or (o.setting f) := by
  have hf := h f
  rw [merge_eq, setting_disable, setting_enable, setting_eq later]
  cases hon : later.on.has f <;> cases hoff : later.off.has f <;> simp_all

/-- **A flag after overrides** is as the word on it says, and else as it was. -/
theorem Consistent.has_apply (h : o.Consistent) (base : FlagSet) (f : Flag) :
    (o.apply base).has f = (o.setting f).getD (base.has f) := by
  have hf := h f
  rw [Overrides.has_apply, setting_eq]
  cases hon : o.on.has f <;> cases hoff : o.off.has f <;> simp_all

/-! ## Histories -/

/-- **How overrides come about.** -/
inductive History
  /-- Nothing has been said. -/
  | start
  /-- Then some flags are switched on. -/
  | enable (before : History) (flags : FlagSet)
  /-- Then some flags are switched off. -/
  | disable (before : History) (flags : FlagSet)
  /-- Then overrides with a history of their own are merged in. -/
  | merge (before later : History)

namespace History

/-- The overrides that come about. -/
def overrides : History → Overrides
  | start => .empty
  | enable before flags => before.overrides.enable flags
  | disable before flags => before.overrides.disable flags
  | merge before later => before.overrides.merge later.overrides

/-- **The steps carried out one after the other** on a set of flags. -/
def perform : History → FlagSet → FlagSet
  | start, base => base
  | enable before flags, base => (before.perform base).union flags
  | disable before flags, base => (before.perform base).diff flags
  | merge before later, base => later.perform (before.perform base)

/-- What is said of sets of flags, the last thing first. -/
def said : History → List (FlagSet × Bool)
  | start => []
  | enable before flags => (flags, true) :: before.said
  | disable before flags => (flags, false) :: before.said
  | merge before later => later.said ++ before.said

/-- **The last word on a flag,** if it is mentioned at all. -/
def lastWord (h : History) (f : Flag) : Option Bool := (h.said.find? (·.1.has f)).map Prod.snd

/-- **The two sets never overlap.** -/
theorem overrides_consistent (h : History) : h.overrides.Consistent := by
  induction h with
  | start => exact Overrides.consistent_empty
  | enable before flags ih => exact ih.enable flags
  | disable before flags ih => exact ih.disable flags
  | merge before later ih => exact ih.merge later.overrides

/-- **Carrying out overrides is carrying out their history.** -/
theorem apply_overrides (h : History) (base : FlagSet) : h.overrides.apply base = h.perform base := by
  induction h generalizing base with
  | start => exact Overrides.apply_empty base
  | enable before flags ih => rw [overrides, perform, Overrides.apply_enable, ih]
  | disable before flags ih => rw [overrides, perform, Overrides.apply_disable, ih]
  | merge before later ih ih' => rw [overrides, perform, Overrides.apply_merge, ih, ih']

/-- **Overrides keep the last word on each flag.** -/
theorem setting_overrides (h : History) (f : Flag) : h.overrides.setting f = h.lastWord f := by
  induction h with
  | start => exact Overrides.setting_empty f
  | enable before flags ih =>
    rw [overrides, Overrides.setting_enable, ih, lastWord, lastWord, said, List.find?_cons]
    cases flags.has f <;> rfl
  | disable before flags ih =>
    rw [overrides, Overrides.setting_disable, ih, lastWord, lastWord, said, List.find?_cons]
    cases flags.has f <;> rfl
  | merge before later ih ih' =>
    rw [overrides, Overrides.setting_merge _ later.overrides_consistent, ih, ih', lastWord, lastWord,
      lastWord, said, List.find?_append]
    cases later.said.find? (·.1.has f) <;> rfl

/-- **Overrides act as their history.** The flags that they switch on and those that they switch off never
overlap. On every set of flags they do what the steps do one after the other, so that on each flag the
last word counts, and a flag that is not mentioned stays as it is. In particular every example of a
region is run with what it says itself, on top of what the directive around it says, on top of the
default. -/
theorem overrides_act_as_history (h : History) (base : FlagSet) :
    (∀ f, ¬ (h.overrides.on.has f = true ∧ h.overrides.off.has f = true)) ∧
      h.overrides.apply base = h.perform base ∧
      (∀ f, h.overrides.setting f = h.lastWord f) ∧
      (∀ f, (h.overrides.apply base).has f = (h.lastWord f).getD (base.has f)) ∧
      (∀ inline : History, (h.overrides.merge inline.overrides).apply base =
        inline.overrides.apply (h.overrides.apply base)) ∧
      ∀ {filename : String} {index : Nat} {n : Node} {r : Region}, regionOf filename index n = .ok r →
        ∃ es, Session.read n.session (regionName filename index n) = .ok es ∧
          r.examples.map (·.overrides.apply base) =
            es.map fun e => e.overrides.apply (n.attributes.overrides.apply base) := by
  refine ⟨h.overrides_consistent, h.apply_overrides base, h.setting_overrides, fun f => ?_, fun inline => ?_,
    fun {_ _ n _} hr => ?_⟩
  · rw [h.overrides_consistent.has_apply, h.setting_overrides]
  · exact apply_merge h.overrides inline.overrides base
  · obtain ⟨-, -, es, hread, hexamples⟩ := regionOf_eq_ok hr
    refine ⟨es, hread, ?_⟩
    rw [hexamples, List.map_map]
    exact List.map_congr_left fun e _ => apply_merge n.attributes.overrides e.overrides base

/-- Both groups are switched on and some flags off again, partly in overrides that are merged in. -/
def bothGroups : History :=
  .merge (.disable (.enable .start .comparison) (.ofList [.skip, .number]))
    (.disable (.enable .start .reporting) (.ofList [.ellipsis, .failFast]))

/-- A block whose directive skips its example, which does not want to be skipped. -/
def skippedBlock : Node :=
  { Node.make .literalBlock ">>> 1  # doctest: -SKIP +NUMBER\n1\n".toList 1 3 with
    attributes := { Attributes.none with overrides := ⟨.ofList [.skip, .ellipsis], .empty⟩ } }

theorem overrides_act_as_history_both : ∃ r es,
    regionOf "a.rst" 0 skippedBlock = .ok r ∧ Session.read skippedBlock.session "a.rst[0]" = .ok es ∧
      bothGroups.overrides.apply (.single .skip) = bothGroups.perform (.single .skip) ∧
      (bothGroups.perform (.single .skip)).toList =
        [.dontAcceptTrueForOne, .dontAcceptBlankline, .normalizeWhitespace, .ignoreExceptionDetail,
          .reportUdiff, .reportCdiff, .reportNdiff, .reportOnlyFirstFailure, .allowUnicode, .allowBytes] ∧
      r.examples.map (·.overrides.apply .empty) =
        es.map (fun e => e.overrides.apply (skippedBlock.attributes.overrides.apply .empty)) ∧
      r.examples.map (fun e => (e.overrides.apply .empty).toList) = [[.ellipsis, .number]] := by
  have hfound : (regionOf "a.rst" 0 skippedBlock).toOption.map
      (fun r => r.examples.map fun e => (e.overrides.apply .empty).toList) =
        some [[.ellipsis, .number]] := by decide +kernel
  obtain ⟨r, hr, hexamples⟩ := Option.map_eq_some_iff.mp hfound
  have hr := Except.toOption_eq_some.mp hr
  obtain ⟨-, hperform, -⟩ := overrides_act_as_history bothGroups (.single .skip)
  obtain ⟨-, -, -, -, -, hexample⟩ := overrides_act_as_history bothGroups .empty
  obtain ⟨es, hread, hflags⟩ := hexample hr
  exact ⟨r, es, hr, hread, hperform, by decide, hflags, hexamples⟩

end History

end Overrides

end Transcript
