import Transcript.Proofs.Doc.Part
import Transcript.Proofs.Except
import Transcript.Test.Region

/-!
# Regions and their nodes

The regions of a document are those of its nodes that hold a session, one for each.

Results:
* `regionOf_eq`: what a region has of its node.
* `mem_regionsOf`, `exists_mem_regionsOf`: the regions are those of the nodes.
* `findCasesWith_eq`, `findCases_eq`: the test cases are those of the regions.
-/

namespace Transcript

open Doc Lang

/-! ## The namespaces of test cases -/

namespace Lang

/-- A world with so many new namespaces, which all hold the same bindings. -/
def World.withSpaces (w : World) (n : Nat) (b : Bindings Value) : World :=
  { w with spaces := w.spaces ++ (List.replicate n b).toArray }

theorem World.space_withSpaces (w : World) (b : Bindings Value) {n i : Nat} (h : i < n) :
    (w.withSpaces n b).space (w.spaces.size + i) = b := by
  unfold World.space World.withSpaces
  dsimp only
  rw [Array.getElem?_append_right (Nat.le_add_right _ _), Nat.add_sub_cancel_left, List.getElem?_toArray,
    List.getElem?_replicate, if_pos h]
  rfl

theorem World.size_withSpaces (w : World) (n : Nat) (b : Bindings Value) :
    (w.withSpaces n b).spaces.size = w.spaces.size + n := by
  simp [withSpaces]

/-- Namespaces that are there stay as they are. -/
theorem World.space_withSpaces_of_lt {w : World} (b : Bindings Value) (n : Nat) {r : Ref}
    (h : r < w.spaces.size) : (w.withSpaces n b).space r = w.space r := by
  unfold World.space World.withSpaces
  dsimp only
  rw [Array.getElem?_append_left h]

end Lang

namespace Test

theorem isVerbatim_of_isRegion {n : Node} (h : isRegion n = true) : n.isVerbatim = true := by
  unfold isRegion at h
  unfold Node.isVerbatim
  split at h <;> simp_all

theorem regionOf_eq (filename : String) (index : Nat) (n : Node) :
    regionOf filename index n =
      match Session.read n.session (regionName filename index n) with
      | .error cause =>
        .error (.unreadable (regionName filename index n) (n.firstLine + cause.line - 1) cause)
      | .ok es =>
        .ok ⟨regionName filename index n, filename, n.line.getD 1, n.firstLine,
          es.map fun e => { e with overrides := n.attributes.overrides.merge e.overrides },
          n.attributes.groups, n.attributes.testKind, n.attributes.skipIf, n.session⟩ := by
  have hsession : n.attributes.test.getD n.text = n.session := rfl
  unfold regionOf Region.ofText
  dsimp only
  rw [hsession]
  cases Session.read n.session (regionName filename index n) with
  | error cause => rfl
  | ok es => rfl

/-- **The region of a node** begins where its text does. -/
theorem regionOf_eq_ok {filename : String} {index : Nat} {n : Node} {r : Region}
    (h : regionOf filename index n = .ok r) :
    r.contentLine = n.firstLine ∧ r.text = n.session ∧
      ∃ es, Session.read n.session (regionName filename index n) = .ok es ∧
        r.examples = es.map fun e => { e with overrides := n.attributes.overrides.merge e.overrides } := by
  rw [regionOf_eq] at h
  split at h
  · cases h
  · rename_i es hread
    cases h
    exact ⟨rfl, rfl, es, hread, rfl⟩

/-- The error of a node whose session cannot be read. -/
theorem regionOf_eq_error {filename : String} {index : Nat} {n : Node} {e : FindError}
    (h : regionOf filename index n = .error e) :
    ∃ cause, Session.read n.session (regionName filename index n) = .error cause ∧
      e = .unreadable (regionName filename index n) (n.firstLine + cause.line - 1) cause := by
  rw [regionOf_eq] at h
  split at h
  · rename_i cause hread
    cases h
    exact ⟨cause, hread, rfl⟩
  · cases h

section

variable {filename : String} {nodes : List Node}

theorem mem_filter_of_zipIdx {x : Node × Nat} (h : x ∈ (nodes.filter isRegion).zipIdx) :
    x.1 ∈ nodes ∧ isRegion x.1 = true :=
  List.mem_filter.mp (List.fst_mem_of_mem_zipIdx h)

/-- A region is the region of a node. -/
theorem mem_regionsOf {rs : List Region} (h : regionsOf filename nodes = .ok rs) {r : Region}
    (hr : r ∈ rs) :
    ∃ n ∈ nodes, isRegion n = true ∧ ∃ index, regionOf filename index n = .ok r := by
  obtain ⟨regions, hmap, hsort⟩ := Except.bind_eq_ok.mp h
  cases hsort
  obtain ⟨⟨n, i⟩, hn, hregion⟩ := Except.mem_of_mapM_eq_ok hmap (List.mem_mergeSort.mp hr)
  obtain ⟨hmem, hn⟩ := mem_filter_of_zipIdx hn
  exact ⟨n, hmem, hn, i, hregion⟩

/-- Each node that holds a session has a region. -/
theorem exists_mem_regionsOf {rs : List Region} (h : regionsOf filename nodes = .ok rs) {n : Node}
    (hn : n ∈ nodes) (hregion : isRegion n = true) :
    ∃ r ∈ rs, ∃ index, regionOf filename index n = .ok r := by
  obtain ⟨regions, hmap, hsort⟩ := Except.bind_eq_ok.mp h
  cases hsort
  obtain ⟨i, hi⟩ := List.mem_iff_getElem?.mp (List.mem_filter.mpr ⟨hn, hregion⟩)
  have hmem : (n, i) ∈ (nodes.filter isRegion).zipIdx := List.mk_mem_zipIdx_iff_getElem?.mpr hi
  obtain ⟨r, hr, hof⟩ := Except.exists_of_mapM_eq_ok hmap hmem
  exact ⟨r, List.mem_mergeSort.mpr hr, i, hof⟩

/-- Where regions cannot be found, the session of a node cannot be read. -/
theorem regionsOf_eq_error {e : FindError} (h : regionsOf filename nodes = .error e) :
    ∃ n ∈ nodes, isRegion n = true ∧ ∃ index, regionOf filename index n = .error e := by
  rcases Except.bind_eq_error.mp h with h | ⟨regions, -, hsort⟩
  · obtain ⟨⟨n, i⟩, hn, hregion⟩ := Except.mapM_eq_error h
    obtain ⟨hmem, hn⟩ := mem_filter_of_zipIdx hn
    exact ⟨n, hmem, hn, i, hregion⟩
  · cases hsort

end

/-- **The test cases of a text** are those of its regions. -/
theorem findCasesWith_eq {d : Directives} {text : List Char} {name : Option String}
    {globals extra : Option (Bindings Value)} {w w' : World} {result : Except FindError (List Case)}
    (h : findCasesWith d text name globals extra w = some (result, w')) :
    result.map (List.map Case.region) = regions text name d := by
  unfold findCasesWith at h
  cases hr : regions text name d with
  | error e =>
    rw [hr] at h
    cases h
    rfl
  | ok rs =>
    rw [hr] at h
    obtain ⟨⟨b, w₁⟩, -, h⟩ := Option.bind_eq_some_iff.mp h
    obtain ⟨⟨cases, w₂⟩, hcases, h⟩ := Option.bind_eq_some_iff.mp h
    cases h
    rw [casesOf_eq] at hcases
    cases hcases
    simp [Except.map, Function.comp_def]

theorem findCases_eq {text : List Char} {name : Option String} {globals extra : Option (Bindings Value)}
    {w w' : World} {result : Except FindError (List Case)}
    (h : findCases text name globals extra w = some (result, w')) :
    result.map (List.map Case.region) = regions text name .empty := findCasesWith_eq h

end Test

end Transcript
