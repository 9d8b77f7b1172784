import Transcript.Proofs.File.Visits
import Transcript.Proofs.Test.Independence
import Transcript.Proofs.Test.Region

/-!
# Bindings that go over

The test cases of a file begin with copies of the same bindings, each in a namespace of its own. Where namespaces
are not cleared, the bindings that a test case has left are put over those of the next one. Nothing that was run
before can get at a namespace that is still to be run, so it holds what it was made with until then. A test case
therefore begins with all that the one before has left, new, rebound or as it was. But a name that was deleted there
is bound again if all test cases begin with it.

Results:
* `readCases_spaces`: the namespaces of the test cases of a file.
* `reached_older`, `later_not_reached`: what they lead to.
* `Visits.twins`: visits leave alone what their test cases cannot get at.
* `space_untouched`: the namespace of the next test case.
* `bindings_carried_over`: what a test case begins with.
* `deleted_name_returns`: it may be more than the one before has left.
-/

namespace Transcript

open Lang

namespace Lang

/-! ## New namespaces -/

/-- A world with new namespaces is extended, also for an interpreter that has not run yet. -/
theorem World.extended_withSpaces (w : World) (n : Nat) (b : Bindings Value) :
    w.Extended (w.withSpaces n b).freshInterpreter where
  same s r hr := by
    cases s with
    | space => exact Array.getElem?_append_left hr
    | list | dict | function | coroutine | task => rfl
    | loop | identity => trivial
  count_le s := by
    cases s with
    | space =>
      change w.spaces.size ≤ (w.withSpaces n b).spaces.size
      rw [w.size_withSpaces]
      exact Nat.le_add_right _ _
    | list | dict | function | coroutine | task | loop | identity => exact Nat.le_refl _

end Lang

namespace Test

/-- **The bindings that test cases begin with** lead to what exists, if the given ones do. -/
theorem startingBindings_holds {globals extra : Option (Bindings Value)} {b : Bindings Value} {w w' : World}
    (hglobals : ∀ p ∈ boundPlaces (globals.getD .empty), w.Holds p)
    (hextra : ∀ p ∈ boundPlaces (extra.getD .empty), w.Holds p)
    (h : startingBindings globals extra w = some (b, w')) :
    (∀ p ∈ boundPlaces b, w'.Holds p) ∧ w'.running = w.running := by
  have hgiven (p : Place) (hp : p ∈ boundPlaces ((globals.getD .empty).update (extra.getD .empty))) : w.Holds p :=
    (mem_boundPlaces_update hp).elim (hglobals p) (hextra p)
  unfold startingBindings at h
  dsimp only at h
  split at h
  · cases h
    exact ⟨hgiven, rfl⟩
  · cases h
    -- One identity is used up for the name of the program.
    refine ⟨fun p hp => ?_, rfl⟩
    rcases mem_boundPlaces_insert hp with hp | hp
    · cases List.mem_singleton.mp hp
      refine World.holds_of_closed (List.mem_singleton_self _) (fun p hp q hq => ?_) fun p hp => ?_
      · rw [List.mem_singleton.mp hp] at hq
        cases hq
      · rw [List.mem_singleton.mp hp]
        exact Nat.lt_succ_self _
    · exact (World.Extended.identity w).holds (hgiven p hp)

end Test

namespace File

open Test

/-! ## Test cases that share nothing new -/

/-- **The namespaces of the test cases of a file** are new ones, one after the other, that all hold the bindings
which test cases begin with. -/
theorem readCases_spaces {read : List Char → Except ReadError (List Char)} {o : Options} {content : Content}
    {path : List Char} {cases : List Case} {w w₁ : World}
    (h : readCases read o content path w = some (.ok cases, w₁)) :
    ∃ b w₀, startingBindings o.globals o.extra w = some (b, w₀) ∧ w₁ = w₀.withSpaces cases.length b ∧
      cases.map Case.space = (List.range cases.length).map (w₀.spaces.size + ·) := by
  obtain ⟨source, text, -, -, h⟩ := readCases_eq_ok h
  unfold casesOf at h
  cases content with
  | document =>
    obtain ⟨found, w₂, hfound, h⟩ := Host.bind_eq_some.mp h
    unfold findCases findCasesWith at hfound
    cases hregions : regions text (some (documentName o source)) .empty with
    | error e =>
      rw [hregions] at hfound
      cases hfound
      cases h
    | ok rs =>
      rw [hregions] at hfound
      obtain ⟨b, w₀, hb, hfound⟩ := Host.bind_eq_some.mp hfound
      obtain ⟨cases', w₃, hcases, hfound⟩ := Host.bind_eq_some.mp hfound
      cases hfound
      cases h
      have hspaces := casesOf_spaces b rs w₀
      rw [hcases] at hspaces
      have hspaces : cases.map Case.space = (List.range rs.length).map (w₀.spaces.size + ·) :=
        Option.some.inj hspaces
      have hlength : cases.length = rs.length := by
        have hlengths := congrArg List.length hspaces
        rwa [List.length_map, List.length_map, List.length_range] at hlengths
      rw [Test.casesOf_eq] at hcases
      refine ⟨b, w₀, hb, ?_, ?_⟩
      · rw [hlength]
        exact (congrArg Prod.snd (Option.some.inj hcases)).symm
      · rw [hlength]
        exact hspaces
  | session =>
    obtain ⟨b, w₀, hb, h⟩ := Host.bind_eq_some.mp h
    cases hregion : Region.ofText text (documentName o source) (documentName o source) 1 with
    | error e =>
      rw [hregion] at h
      cases h
    | ok region =>
      rw [hregion] at h
      cases h
      exact ⟨b, w₀, hb, by simp [World.withSpaces], rfl⟩

section

variable {w₀ : World} {cases : List Case} {b : Bindings Value} {c : Case}
  (hspaces : cases.map Case.space = (List.range cases.length).map (w₀.spaces.size + ·))

include hspaces

theorem exists_index (hc : c ∈ cases) : ∃ i < cases.length, w₀.spaces.size + i = c.space := by
  have hmem : c.space ∈ (List.range cases.length).map (w₀.spaces.size + ·) := by
    rw [← hspaces]
    exact List.mem_map_of_mem hc
  obtain ⟨i, hi, hspace⟩ := List.mem_map.mp hmem
  exact ⟨i, List.mem_range.mp hi, hspace⟩

/-- Each namespace holds the bindings which test cases begin with. -/
theorem space_made (b : Bindings Value) (hc : c ∈ cases) :
    (w₀.withSpaces cases.length b).space c.space = b := by
  obtain ⟨i, hi, hspace⟩ := exists_index hspaces hc
  rw [← hspace]
  exact w₀.space_withSpaces b hi

variable (hb : ∀ p ∈ boundPlaces b, w₀.Holds p)

include hb

/-- **What a namespace leads to:** apart from itself, nothing but what is older than all of them. -/
theorem reached_older (hc : c ∈ cases) {q : Lang.Place}
    (hq : (w₀.withSpaces cases.length b).freshInterpreter.Reaches (.space, c.space) q) :
    q = (.space, c.space) ∨ q.2 < w₀.count q.1 := by
  refine (w₀.extended_withSpaces cases.length b).reaches_space (fun p hp => hb p ?_) hq
  exact (congrArg (p ∈ boundPlaces ·) (space_made hspaces b hc)).mp hp

/-- All of it exists. -/
theorem cases_held (hc : c ∈ cases) :
    (w₀.withSpaces cases.length b).freshInterpreter.Holds (.space, c.space) := by
  intro q hq
  rcases reached_older hspaces hb hc hq with rfl | hlt
  · obtain ⟨i, hi, hspace⟩ := exists_index hspaces hc
    change c.space < (w₀.withSpaces cases.length b).spaces.size
    rw [w₀.size_withSpaces, ← hspace]
    exact Nat.add_lt_add_left hi _
  · exact Nat.lt_of_lt_of_le hlt ((w₀.extended_withSpaces cases.length b).count_le q.1)

/-- **No namespace leads to a later one.** -/
theorem later_not_reached {earlier later : List Case} (hcases : cases = earlier ++ later) {d : Case}
    (hc : c ∈ earlier) (hd : d ∈ later) :
    ¬ (w₀.withSpaces cases.length b).freshInterpreter.Reaches (.space, c.space) (.space, d.space) := by
  intro hreach
  have hmem : c ∈ cases ∧ d ∈ cases := by
    rw [hcases]
    exact ⟨List.mem_append_left _ hc, List.mem_append_right _ hd⟩
  rcases reached_older hspaces hb hmem.1 hreach with heq | hold
  · have hnodup : (cases.map Case.space).Nodup := by
      rw [hspaces]
      exact List.nodup_range.map fun i j hij => Nat.add_left_cancel hij
    rw [hcases, List.map_append] at hnodup
    have hsame : d.space = c.space := (Prod.mk.inj heq).2
    have hlater : c.space ∈ later.map Case.space := by
      rw [← hsame]
      exact List.mem_map_of_mem hd
    exact List.disjoint_of_nodup_append hnodup (List.mem_map_of_mem hc) hlater
  · obtain ⟨i, -, hspace⟩ := exists_index hspaces hmem.2
    refine absurd hold (Nat.not_lt_of_le ?_)
    rw [← hspace]
    exact Nat.le_add_right _ _

end

/-! ## Visits leave alone what they cannot get at -/

/-- **The link of some test cases,** which get at what is reached from their namespaces. -/
def casesLink (w : World) (cases : List Case) (h : ∀ c ∈ cases, w.Holds (.space, c.space)) : Link where
  own s r := ∃ c ∈ cases, w.Reaches (.space, c.space) (s, r)
  left := w
  right := w
  own_left := fun ⟨c, hc, hr⟩ => h c hc _ hr
  own_right := fun ⟨c, hc, hr⟩ => h c hc _ hr

theorem cases_twins {w : World} {cases : List Case} (h : ∀ c ∈ cases, w.Holds (.space, c.space)) :
    w.Twins (casesLink w cases h) w :=
  twins_of_same (L := casesLink w cases h) (fun _ _ ⟨c, hc, hr⟩ _ hp => ⟨c, hc, hr.tail hp⟩)
    (fun _ _ _ => .refl) rfl rfl

theorem carryOver_self {L : Link} {c : Case} {carried : Option Ref} (hc : L.own .space c.space)
    (hcarried : ∀ r ∈ carried, L.own .space r) {w w' : World} (hw : w.TwinsAt L none w)
    (h : carryOver c carried w = some ((), w')) : w'.TwinsAt L none w' := by
  cases carried with
  | none =>
    cases h
    exact hw
  | some r =>
    cases h
    have hpair : L.Pairs .space c.space c.space := .inl ⟨hc, rfl⟩
    have hbound := (hw.toTwins.space hpair).update (hw.toTwins.space (.inl ⟨hcarried r rfl, rfl⟩))
    exact hw.of_twins (hw.toTwins.setSpace hpair hbound) rfl rfl rfl rfl (Nat.le_refl _)

/-- **Visits keep a world its own twin,** if what their test cases can get at is part of the link. -/
theorem Visits.twins {L : Link} {clears : Bool} {s s' : Stage} {vs : List Visit} (h : Visits clears s vs s')
    (hown : ∀ v ∈ vs, L.own .space v.case.space) (hcarried : ∀ r ∈ s.carried, L.own .space r)
    (hw : s.world.TwinsAt L none s.world) : s'.world.TwinsAt L none s'.world := by
  induction h with
  | refl s => exact hw
  | @step c cs carried r r' w w₁ w₂ vs done t s hcarry hran _ _ ih =>
    obtain ⟨hc, hown⟩ := List.forall_mem_cons.mp hown
    refine ih hown (fun r hr => ?_) (run_self (.inl ⟨hc, rfl⟩) (carryOver_self hc hcarried hw hcarry) hran)
    cases clears with
    | true => cases hr
    | false =>
      cases hr
      exact hc

/-- **The namespace of the next test case** holds what it was made with until the test case is visited. -/
theorem space_untouched {w w₀ : World} {cases rest : List Case} {b : Bindings Value} {vs : List Visit} {d : Case}
    {clears : Bool} {carried : Option Ref} {r r' : Runner} (hidle : w₀.running = none)
    (hspaces : cases.map Case.space = (List.range cases.length).map (w₀.spaces.size + ·))
    (hb : ∀ p ∈ boundPlaces b, w₀.Holds p)
    (hvisits : Visits clears ⟨cases, none, r, (w₀.withSpaces cases.length b).freshInterpreter⟩ vs
      ⟨d :: rest, carried, r', w⟩) : w.space d.space = b ∧ d.space < w.spaces.size := by
  have hcases : cases = vs.map Visit.case ++ d :: rest := hvisits.cases_eq
  have hd : d ∈ cases := by
    rw [hcases]
    exact List.mem_append_right _ List.mem_cons_self
  have hheld (c : Case) (hc : c ∈ vs.map Visit.case) :
      (w₀.withSpaces cases.length b).freshInterpreter.Holds (.space, c.space) := by
    refine cases_held hspaces hb ?_
    rw [hcases]
    exact List.mem_append_left _ hc
  let L := casesLink (w₀.withSpaces cases.length b).freshInterpreter (vs.map Visit.case) hheld
  have htwins := hvisits.twins (L := L)
    (fun v hv => ⟨v.case, List.mem_map_of_mem hv, .refl⟩) nofun (.of_none (cases_twins hheld) hidle hidle)
  have hout : ¬ L.own .space d.space := fun ⟨c, hc, hreach⟩ =>
    later_not_reached hspaces hb hcases hc List.mem_cons_self hreach
  have hlt := cases_held hspaces hb hd _ .refl
  have hsame : w.spaces[d.space]? = (w₀.withSpaces cases.length b).spaces[d.space]? :=
    htwins.toTwins.leaves hlt fun _ => hout
  refine ⟨?_, Nat.lt_of_lt_of_le hlt (htwins.toTwins.count_le .space)⟩
  rw [← space_made hspaces b hd]
  exact congrArg (·.getD .empty) hsame

/-! ## What a test case begins with -/

/-- **What a test case begins with** if namespaces are not cleared: the bindings that the test case before has left,
put over those that all test cases begin with. These are the ones that were left, new, rebound or as they were, if
and only if every name that all test cases begin with is still bound at the end of the test case before. -/
theorem bindings_carried_over {read : List Char → Except ReadError (List Char)} {o : Options} {content : Content}
    {path : List Char} {cases rest : List Case} {vs : List Visit} {u : Visit} {d : Case} {carried : Option Ref}
    {r : Runner} {w w₁ w₂ : World} (hclears : o.clears = false) (hidle : w.running = none)
    (hglobals : ∀ p ∈ boundPlaces (o.globals.getD .empty), w.Holds p)
    (hextra : ∀ p ∈ boundPlaces (o.extra.getD .empty), w.Holds p)
    (hread : readCases read o content path w = some (.ok cases, w₁))
    (hvisits : Visits o.clears ⟨cases, none, .new o.config, w₁.freshInterpreter⟩ (vs ++ [u])
      ⟨d :: rest, carried, r, w₂⟩) :
    ∃ b w₀ w₃, startingBindings o.globals o.extra w = some (b, w₀) ∧ carryOver d carried w₂ = some ((), w₃) ∧
      w₃.space d.space = b.update u.ended ∧
      (w₃.space d.space = u.ended ↔ ∀ name, b.contains name → u.ended.contains name) := by
  obtain ⟨b, w₀, hb, rfl, hspaces⟩ := readCases_spaces hread
  obtain ⟨hheld, hrunning⟩ := startingBindings_holds hglobals hextra hb
  obtain ⟨hspace, hlt⟩ := space_untouched (hrunning.trans hidle) hspaces hheld hvisits
  obtain ⟨hcarried, hended⟩ := hvisits.last
  rw [hclears] at hcarried
  have hbegun : (w₂.setSpace d.space ((w₂.space d.space).update (w₂.space u.case.space))).space d.space =
      b.update u.ended := by
    rw [World.space_setSpace_self _ _ _ hlt, hspace, hended]
  refine ⟨b, w₀, _, hb, ?_, hbegun, ?_⟩
  · rw [show carried = some u.case.space from hcarried]
    rfl
  · rw [hbegun]
    exact Bindings.update_eq_right_iff b u.ended

/-- The standard options, but for namespaces, which are not cleared. -/
def keepingOptions : Options := { Options.standard with clears := false }

/-- A document whose first test case binds a name, binds another one, deletes that again, and rebinds the name of the
program. -/
def rebinding : List Char :=
  ">>> a = 1\n>>> b = 2\n>>> del b\n>>> __name__ = a\n\nText.\n\n>>> __name__\n1\n".toList

/-- The second test case begins with what the first one has left. -/
theorem bindings_carried_over_rebound : ∃ cases w₁ u d carried r w₂ w₃,
    keepingOptions.clears = false ∧ World.empty.running = none ∧
      readCases (fun _ => .ok rebinding) keepingOptions .document "a.rst".toList .empty = some (.ok cases, w₁) ∧
      Visits keepingOptions.clears ⟨cases, none, .new keepingOptions.config, w₁.freshInterpreter⟩ [u]
        ⟨[d], carried, r, w₂⟩ ∧
      u.ended.keys = ["__name__", "a"] ∧ carryOver d carried w₂ = some ((), w₃) ∧ w₃.space d.space = u.ended := by
  obtain ⟨cases, w₁, vs, s, hread, hvs, hcheck⟩ :=
    visits_of_regions keepingOptions rebinding "a.rst".toList "a.rst" 1
      (fun vs s => vs.length == 1 && s.cases.length == 1 &&
        vs.all fun u => u.ended.keys == ["__name__", "a"] && u.ended.contains "__name__")
      (w := .empty) rfl (by decide) (by decide +kernel)
  obtain ⟨hlengths, hended⟩ := Bool.and_eq_true_iff.mp hcheck
  obtain ⟨hvisited, hleft⟩ := Bool.and_eq_true_iff.mp hlengths
  obtain ⟨u, rfl⟩ := List.length_eq_one_iff.mp (eq_of_beq hvisited)
  obtain ⟨hkeys, hname⟩ := Bool.and_eq_true_iff.mp (List.all_eq_true.mp hended u (List.mem_singleton_self u))
  obtain ⟨stillRun, carried, r, w₂⟩ := s
  obtain ⟨d, rfl⟩ : ∃ d, stillRun = [d] := List.length_eq_one_iff.mp (eq_of_beq hleft)
  have hfirst : Visits keepingOptions.clears ⟨cases, none, .new keepingOptions.config, w₁.freshInterpreter⟩
      ([] ++ [u]) ⟨[d], carried, r, w₂⟩ := hvs
  obtain ⟨b, w₀, w₃, hb, hcarried, -, hsame⟩ := bindings_carried_over rfl rfl
    (fun p hp => absurd hp List.not_mem_nil) (fun p hp => absurd hp List.not_mem_nil) hread hfirst
  refine ⟨cases, w₁, u, d, carried, r, w₂, w₃, rfl, rfl, hread, hvs, eq_of_beq hkeys, hcarried,
    hsame.mpr fun name hbound => ?_⟩
  -- All test cases begin with the name of the program only.
  have hb' : b = Bindings.empty.insert nameBinding (.str 0 "__main__".toList) :=
    (congrArg Prod.fst (Option.some.inj hb)).symm
  by_cases hnamed : nameBinding = name
  · subst hnamed
    exact hname
  · rw [hb'] at hbound
    unfold Bindings.contains at hbound
    rw [Bindings.get?_insert_of_ne _ _ hnamed] at hbound
    cases hbound

/-- A document whose first test case deletes the name of the program. -/
def deletingName : List Char :=
  (">>> del __name__\n\nText.\n\n>>> __name__\nTraceback (most recent call last):\n" ++
    "NameError: name '__name__' is not defined\n").toList

/-- **A name that was deleted returns:** the second test case does not begin with what the first one has left. -/
theorem deleted_name_returns : ∃ cases w₁ u v s,
    keepingOptions.clears = false ∧
      readCases (fun _ => .ok deletingName) keepingOptions .document "a.rst".toList .empty = some (.ok cases, w₁) ∧
      Visits keepingOptions.clears ⟨cases, none, .new keepingOptions.config, w₁.freshInterpreter⟩ [u, v] s ∧
      s.cases = [] ∧ u.ended.contains "__name__" = false ∧ v.started.contains "__name__" = true ∧
      v.started ≠ u.ended := by
  obtain ⟨cases, w₁, vs, s, hread, hvs, hcheck⟩ :=
    visits_of_regions keepingOptions deletingName "a.rst".toList "a.rst" 2
      (fun vs s => vs.length == 2 && s.cases.isEmpty &&
        vs.head?.all (fun u => !u.ended.contains "__name__") && vs.getLast?.all (·.started.contains "__name__"))
      (w := .empty) rfl (by decide) (by decide +kernel)
  obtain ⟨hcheck, hstarted⟩ := Bool.and_eq_true_iff.mp hcheck
  obtain ⟨hlengths, hended⟩ := Bool.and_eq_true_iff.mp hcheck
  obtain ⟨hvisited, hleft⟩ := Bool.and_eq_true_iff.mp hlengths
  obtain ⟨u, v, rfl⟩ := List.length_eq_two.mp (eq_of_beq hvisited)
  have hended : u.ended.contains "__name__" = false := (Bool.not_eq_true' _).mp hended
  have hstarted : v.started.contains "__name__" = true := hstarted
  refine ⟨cases, w₁, u, v, s, rfl, hread, hvs, List.isEmpty_iff.mp hleft, hended, hstarted, fun h => ?_⟩
  rw [h, hended] at hstarted
  cases hstarted

end File

end Transcript
