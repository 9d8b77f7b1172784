import Mathlib.Data.List.Basic
import Transcript.Flag.Override

/-!
# Sets of flags and their named parts

The named parts of a set are its single flags. The two groups come last in the table, when nothing is
left of a set that its single flags have not covered. So overrides that are merged part by part are
merged as a whole.

Results:
* `parts_eq`: the named parts of a set.
* `merge_eq`: what merging does to both sets.
* `apply_merge`: merged overrides act one after the other.
-/

namespace Transcript

namespace FlagSet

/-- The entry of a single flag in the table. -/
def entry (f : Flag) : String × FlagSet := (f.name, single f)

theorem includes_single (a : FlagSet) (f : Flag) : a.includes (single f) = a.has f := by
  rw [Bool.eq_iff_iff, includes_iff]
  simp

theorem meets_single (a : FlagSet) (f : Flag) : a.meets (single f) = a.has f := by
  rw [Bool.eq_iff_iff, meets_iff]
  simp

/-- Of the entries of single flags, those of the set are its parts. Nothing is left for the entries after
them. -/
theorem partsFrom_entries (whole : FlagSet) (groups : List (String × FlagSet)) {fs : List Flag}
    (hfs : fs.Nodup) {left : FlagSet} (hleft : ∀ f, left.has f = (whole.has f && fs.contains f)) :
    partsFrom whole left (fs.map entry ++ groups) = (fs.filter whole.has).map entry := by
  induction fs generalizing left with
  | nil =>
    have hempty : left.isEmpty = true := isEmpty_iff.mpr fun f => by simp [hleft]
    cases groups with
    | nil => rfl
    | cons g gs =>
      obtain ⟨name, flags⟩ := g
      exact if_pos hempty
  | cons f fs ih =>
    obtain ⟨hf, hfs⟩ := List.nodup_cons.mp hfs
    have hhead : left.has f = whole.has f := by simp [hleft]
    rw [List.map_cons, List.cons_append, entry, partsFrom]
    split_ifs with hempty hpart
    · have hnone : ∀ g ∈ f :: fs, ¬ whole.has g = true := by
        intro g hg hwhole
        have hhas := (hleft g).symm.trans (isEmpty_iff.mp hempty g)
        rw [hwhole, List.contains_iff_mem.mpr hg] at hhas
        cases hhas
      rw [List.filter_eq_nil_iff.mpr hnone, List.map_nil]
    · rw [includes_single, meets_single, hhead, Bool.and_self] at hpart
      rw [List.filter_cons_of_pos hpart, List.map_cons]
      refine congrArg _ (ih hfs fun g => ?_)
      rw [has_diff, has_single, hleft, List.contains_cons]
      by_cases hg : g = f
      · subst hg
        simp [hf]
      · simp [beq_false_of_ne hg]
    · rw [includes_single, meets_single, hhead, Bool.and_self, Bool.not_eq_true] at hpart
      rw [List.filter_cons_of_neg (by simp [hpart])]
      refine ih hfs fun g => ?_
      rw [hleft, List.contains_cons]
      by_cases hg : g = f
      · subst hg
        simp [hpart]
      · simp [beq_false_of_ne hg]

/-- **The named parts of a set** are its single flags. -/
theorem parts_eq (a : FlagSet) : a.parts = a.toList.map entry := by
  have hleft : ∀ f, a.has f = (a.has f && Flag.all.contains f) := fun f => by
    rw [List.contains_iff_mem.mpr (Flag.mem_all f), Bool.and_true]
  exact partsFrom_entries a _ (by decide) hleft

theorem ofList_cons (f : Flag) (fs : List Flag) : ofList (f :: fs) = (single f).union (ofList fs) := by
  ext g
  exact List.contains_cons

/-- A set is made of its flags. -/
theorem ofList_toList (a : FlagSet) : ofList a.toList = a := by
  refine ext_has.mpr fun f => ?_
  change a.toList.contains f = a.has f
  rw [Bool.eq_iff_iff, List.contains_iff_mem, mem_toList]

end FlagSet

namespace Overrides

/-! ## Flags one by one -/

theorem enable_empty (o : Overrides) : o.enable .empty = o := by
  ext f <;> simp [enable]

theorem disable_empty (o : Overrides) : o.disable .empty = o := by
  ext f <;> simp [disable]

theorem enable_enable (o : Overrides) (a b : FlagSet) :
    (o.enable a).enable b = o.enable (a.union b) := by
  ext f <;> simp [enable, Bool.or_assoc, Bool.and_assoc]

theorem disable_disable (o : Overrides) (a b : FlagSet) :
    (o.disable a).disable b = o.disable (a.union b) := by
  ext f <;> simp [disable, Bool.or_assoc, Bool.and_assoc]

/-- Switching flags on one by one is switching all of them on. -/
theorem foldl_enable (fs : List Flag) (o : Overrides) :
    fs.foldl (fun o f => o.enable (.single f)) o = o.enable (.ofList fs) := by
  induction fs generalizing o with
  | nil => exact (enable_empty o).symm
  | cons f fs ih => rw [List.foldl_cons, ih, enable_enable, ← FlagSet.ofList_cons]

/-- Switching flags off one by one is switching all of them off. -/
theorem foldl_disable (fs : List Flag) (o : Overrides) :
    fs.foldl (fun o f => o.disable (.single f)) o = o.disable (.ofList fs) := by
  induction fs generalizing o with
  | nil => exact (disable_empty o).symm
  | cons f fs ih => rw [List.foldl_cons, ih, disable_disable, ← FlagSet.ofList_cons]

/-- **Merging** switches on what the later overrides switch on, and then off what they switch off. -/
theorem merge_eq (o later : Overrides) : o.merge later = (o.enable later.on).disable later.off := by
  unfold merge
  rw [FlagSet.parts_eq, FlagSet.parts_eq, List.foldl_map, List.foldl_map]
  change later.off.toList.foldl (fun o f => o.disable (.single f))
    (later.on.toList.foldl (fun o f => o.enable (.single f)) o) = _
  rw [foldl_enable, foldl_disable, FlagSet.ofList_toList, FlagSet.ofList_toList]

/-- **Merged overrides** act one after the other. -/
theorem apply_merge (o later : Overrides) (base : FlagSet) :
    (o.merge later).apply base = later.apply (o.apply base) := by
  rw [merge_eq, apply_disable, apply_enable]
  rfl

end Overrides

end Transcript
