import Transcript.Proofs.Doc.Outline
import Transcript.Proofs.Flag.Parts
import Transcript.Proofs.Test.Region

/-!
# The places of test cases

Every node that holds a session becomes one region. Regions are sorted by name, those of one name by line,
and those of one name and line stay in the order of the document. Every test case has a namespace of its own,
which is a copy of given bindings.

Results:
* `regionsOf_placing`: the places of the regions of nodes.
* `regionsOnce_eq`: in a tree, there is no need to tell the nodes that have been seen.
* `findCases_eq_ok`: the test cases of a text are those of its document.
* `regions_outline`, `exists_case_of_directive`: the regions of a text are those of its outline.
* `space_carryOut`: what a series of changes does to one namespace.
* `findCases_placed`: the test cases of a text, their places and their namespaces.
* `casesIn_placed`: the test cases of a document, likewise.
-/

namespace Transcript

open Doc Lang

/-! ## Changes of namespaces -/

namespace Lang

/-- **A change of a namespace:** a name is bound to a value, or is no longer bound. -/
structure Change where
  /-- The namespace. -/
  space : Ref
  /-- The name. -/
  name : String
  /-- Its new value, if it has one. -/
  value? : Option Value

/-- What a change does to the bindings of its namespace. -/
def Change.rebind (b : Bindings Value) (c : Change) : Bindings Value :=
  match c.value? with
  | some v => b.insert c.name v
  | none => b.erase c.name

/-- Carries out a change. -/
def World.carryOut (w : World) (c : Change) : World := w.setSpace c.space (c.rebind (w.space c.space))

/-- **A series of changes** does to a namespace what those of them do that are about it. -/
theorem World.space_carryOut {w : World} {r : Ref} (hr : r < w.spaces.size) (changes : List Change) :
    (changes.foldl World.carryOut w).space r =
      (changes.filter (·.space == r)).foldl Change.rebind (w.space r) := by
  induction changes generalizing w with
  | nil => rfl
  | cons c changes ih =>
    have hsize : r < (w.carryOut c).spaces.size := by
      simpa [carryOut, setSpace] using hr
    rw [List.foldl_cons, ih hsize, List.filter_cons]
    by_cases hc : c.space = r
    · subst hc
      rw [carryOut, w.space_setSpace_self _ _ hr, beq_self_eq_true, if_pos rfl, List.foldl_cons]
    · rw [carryOut, w.space_setSpace_of_ne _ hc, beq_false_of_ne hc, if_neg Bool.false_ne_true]

/-- **Namespaces of their own,** which hold the same bindings: they are different ones, and each of them is
changed by what is done in it, and by nothing else. -/
structure World.Separate (w : World) (b : Bindings Value) (spaces : List Ref) : Prop where
  /-- No namespace is there twice. -/
  nodup : spaces.Nodup
  /-- Only changes in a namespace count for it. -/
  space_eq : ∀ changes : List Change, ∀ r ∈ spaces, (changes.foldl World.carryOut w).space r =
    (changes.filter (·.space == r)).foldl Change.rebind b

/-- Different namespaces with the same bindings are namespaces of their own. -/
theorem World.separate_of_space {w : World} {b : Bindings Value} {spaces : List Ref} (hnodup : spaces.Nodup)
    (hspaces : ∀ r ∈ spaces, r < w.spaces.size ∧ w.space r = b) : w.Separate b spaces := by
  refine ⟨hnodup, fun changes r hr => ?_⟩
  obtain ⟨hsize, hspace⟩ := hspaces r hr
  rw [space_carryOut hsize, hspace]

/-- A copy of bindings is a namespace that holds them. -/
theorem World.space_of_mem_copies {w : World} (n : Nat) (b : Bindings Value) {r : Ref}
    (hr : r ∈ (List.range n).map (w.spaces.size + ·)) :
    r < (w.withSpaces n b).spaces.size ∧ (w.withSpaces n b).space r = b := by
  obtain ⟨i, hi, rfl⟩ := List.mem_map.mp hr
  have hi := List.mem_range.mp hi
  rw [w.size_withSpaces]
  exact ⟨Nat.add_lt_add_left hi _, w.space_withSpaces _ hi⟩

theorem World.nodup_copies (w : World) (n : Nat) : ((List.range n).map (w.spaces.size + ·)).Nodup :=
  List.nodup_range.map fun _ _ h => Nat.add_left_cancel h

/-- **Copies of bindings** are namespaces of their own. -/
theorem World.separate_copies (w : World) (n : Nat) (b : Bindings Value) :
    (w.withSpaces n b).Separate b ((List.range n).map (w.spaces.size + ·)) :=
  separate_of_space (w.nodup_copies n) fun _ hr => w.space_of_mem_copies n b hr

/-- **A namespace and its copies** are namespaces of their own. -/
theorem World.separate_withSpaces {w : World} {given : Ref} (hgiven : given < w.spaces.size) (n : Nat) :
    (w.withSpaces n (w.space given)).Separate (w.space given)
      (given :: (List.range n).map (w.spaces.size + ·)) := by
  refine separate_of_space (List.nodup_cons.mpr ⟨fun hmem => ?_, w.nodup_copies n⟩) fun r hr => ?_
  · obtain ⟨i, -, hi⟩ := List.mem_map.mp hmem
    exact Nat.not_lt.mpr (Nat.le_add_right w.spaces.size i) (hi ▸ hgiven)
  · rcases List.mem_cons.mp hr with rfl | hr
    · rw [w.size_withSpaces]
      exact ⟨Nat.lt_add_right _ hgiven, space_withSpaces_of_lt _ _ hgiven⟩
    · exact w.space_of_mem_copies n _ hr

end Lang

namespace Test

/-! ## Regions of nodes -/

/-- **An example over the flags of its block:** nothing else of it is changed, and what its own flags say comes
last. -/
structure LiesOver (o : Overrides) (e e' : Session.Example) : Prop where
  /-- Only the flags are changed. -/
  eq : e' = { e with overrides := e'.overrides }
  /-- Flags of the block are set first. -/
  apply_eq : ∀ base, e'.overrides.apply base = e.overrides.apply (o.apply base)

/-- **The region of a node,** whose place among the nodes that hold a session is known. -/
structure Region.IsOf (filename : String) (index : Nat) (n : Node) (r : Region) : Prop where
  /-- It is named by its first group or by its place. -/
  name_eq : r.name = regionName filename index n
  /-- It is in the document. -/
  filename_eq : r.filename = filename
  /-- It begins where the node does. -/
  line_eq : r.line = n.line.getD 1
  /-- So does its text. -/
  contentLine_eq : r.contentLine = n.firstLine
  /-- Its text is what is run of the node. -/
  text_eq : r.text = n.session
  /-- Its examples are those of the text, with the flags of the node underneath. -/
  examples_eq : ∃ es, Session.read n.session r.name = .ok es ∧
    List.Forall₂ (LiesOver n.attributes.overrides) es r.examples
  /-- It is in the groups of the node. -/
  groups_eq : r.groups = n.attributes.groups
  /-- It plays the part of the node. -/
  kind_eq : r.kind = n.attributes.testKind
  /-- It is skipped where the node is. -/
  skipIf_eq : r.skipIf = n.attributes.skipIf

theorem liesOver_merge (o : Overrides) (e : Session.Example) :
    LiesOver o e { e with overrides := o.merge e.overrides } := ⟨rfl, o.apply_merge e.overrides⟩

theorem isOf_regionOf {filename : String} {index : Nat} {n : Node} {r : Region}
    (h : regionOf filename index n = .ok r) : r.IsOf filename index n := by
  rw [regionOf_eq] at h
  split at h
  · cases h
  · rename_i es hread
    cases h
    refine ⟨rfl, rfl, rfl, rfl, rfl, ⟨es, hread, ?_⟩, rfl, rfl, rfl⟩
    rw [List.forall₂_map_right_iff, List.forall₂_same]
    exact fun e _ => liesOver_merge _ e

/-- **A region before another one:** by name, then by line, then by place. -/
def Precedes (a b : Region × Nat) : Prop :=
  a.1.name < b.1.name ∨ a.1.name = b.1.name ∧
    (a.1.line < b.1.line ∨ a.1.line = b.1.line ∧ a.2 < b.2)

/-- **Regions in their order,** each beside the place of its node among all nodes that hold a session. -/
structure IsPlacing (filename : String) (nodes : List Node) (placed : List (Region × Nat)) : Prop where
  /-- There is one for each place. -/
  perm : (placed.map Prod.snd).Perm (List.range nodes.length)
  /-- It is the region of the node in this place. -/
  isOf : ∀ r i, (r, i) ∈ placed → ∃ n, nodes[i]? = some n ∧ r.IsOf filename i n
  /-- They are sorted. -/
  sorted : placed.Pairwise Precedes

theorem precedes_of_zipIdxLE {a b : Region × Nat} (h : List.zipIdxLE Region.comesBefore a b = true)
    (hne : a.2 ≠ b.2) : Precedes a b := by
  unfold List.zipIdxLE at h
  split at h
  · rename_i hab
    rcases (Region.comesBefore_iff _ _).mp hab with hname | ⟨hname, hline⟩
    · exact .inl hname
    · refine .inr ⟨hname, ?_⟩
      rcases Nat.lt_or_eq_of_le hline with hlt | heq
      · exact .inl hlt
      · have hba : b.1.comesBefore a.1 = true :=
          (Region.comesBefore_iff _ _).mpr (.inr ⟨hname.symm, Nat.le_of_eq heq.symm⟩)
        rw [if_pos hba, decide_eq_true_eq] at h
        exact .inr ⟨heq, Nat.lt_of_le_of_ne h hne⟩
  · cases h

/-- **The places of the regions of nodes.** -/
theorem regionsOf_placing {filename : String} {nodes : List Node} {rs : List Region}
    (h : regionsOf filename nodes = .ok rs) :
    ∃ placed, placed.map Prod.fst = rs ∧ IsPlacing filename (nodes.filter isRegion) placed := by
  obtain ⟨regions, hmap, hsort⟩ := Except.bind_eq_ok.mp h
  cases hsort
  have hlength : regions.length = (nodes.filter isRegion).length := by
    rw [Except.length_of_mapM_eq_ok hmap, List.length_zipIdx]
  have hperm := List.mergeSort_perm regions.zipIdx (List.zipIdxLE Region.comesBefore)
  have hplaces : ((regions.zipIdx.mergeSort (List.zipIdxLE Region.comesBefore)).map Prod.snd).Perm
      (List.range (nodes.filter isRegion).length) := by
    rw [← hlength, List.range_eq_range', ← List.zipIdx_map_snd 0 regions]
    exact hperm.map Prod.snd
  refine ⟨_, List.mergeSort_zipIdx, hplaces, fun r i hr => ?_, ?_⟩
  · have hi := List.mk_mem_zipIdx_iff_getElem?.mp (hperm.mem_iff.mp hr)
    obtain ⟨⟨n, j⟩, hn, hregion⟩ := Except.getElem?_of_mapM_eq_ok hmap hi
    rw [List.getElem?_zipIdx, Option.map_eq_some_iff] at hn
    obtain ⟨m, hm, hpair⟩ := hn
    cases hpair
    rw [Nat.zero_add] at hregion
    exact ⟨_, hm, isOf_regionOf hregion⟩
  · have hsorted := List.pairwise_mergeSort (List.zipIdxLE_trans Region.comesBefore_trans)
      (List.zipIdxLE_total Region.comesBefore_total) regions.zipIdx
    have hdistinct := List.pairwise_map.mp (hplaces.nodup_iff.mpr List.nodup_range)
    exact (hsorted.and hdistinct).imp fun h => precedes_of_zipIdxLE h.1 h.2

/-! ## Regions of documents -/

/-- **The nodes that hold a session,** in the order of the document. -/
def regionIds (d : Document) : List NodeId := d.traverse.filter fun id => isRegion (d.node id)

/-- **No node is lost.** -/
theorem mem_regionIds {d : Document} (hd : d.IsTree) {id : NodeId} :
    id ∈ regionIds d ↔ id < d.size ∧ isRegion (d.node id) = true := by
  rw [regionIds, List.mem_filter, hd.mem_traverse]

/-- **No node comes twice.** -/
theorem nodup_regionIds {d : Document} (hd : d.IsTree) : (regionIds d).Nodup := hd.nodup_traverse.filter _

theorem filter_traverse (d : Document) :
    (d.traverse.map d.node).filter isRegion = (regionIds d).map d.node := List.filter_map

/-- **The first visits** among visits to nodes, each of which has a number. A node that has been seen is passed
over, but all visits are counted. -/
def firstVisits (seen : List NodeId) : List (NodeId × Nat) → List (NodeId × Nat)
  | [] => []
  | v :: vs => if v.1 ∈ seen then firstVisits seen vs else v :: firstVisits (v.1 :: seen) vs

theorem firstVisits_of_nodup {seen : List NodeId} {vs : List (NodeId × Nat)} (hnodup : (vs.map Prod.fst).Nodup)
    (hnew : ∀ v ∈ vs, v.1 ∉ seen) : firstVisits seen vs = vs := by
  induction vs generalizing seen with
  | nil => rfl
  | cons v vs ih =>
    obtain ⟨hv, hvs⟩ := List.nodup_cons.mp hnodup
    rw [firstVisits, if_neg (hnew v List.mem_cons_self), ih hvs]
    intro u hu hseen
    rcases List.mem_cons.mp hseen with hsame | hseen
    · exact hv (hsame ▸ List.mem_map_of_mem hu)
    · exact hnew u (List.mem_cons_of_mem v hu) hseen

/-- **The regions of a document,** in which a node is taken when it is met first. -/
def regionsOnce (name : String) (d : Document) : Except FindError (List Region) := do
  let regions ← (firstVisits [] (regionIds d).zipIdx).mapM fun (id, i) => regionOf name i (d.node id)
  return regions.mergeSort Region.comesBefore

/-- Where no node is met twice, all visits are first ones. -/
theorem regionsOnce_eq {d : Document} (h : d.traverse.Nodup) (name : String) :
    regionsOnce name d = regionsIn name d := by
  have hvisits : firstVisits [] (regionIds d).zipIdx = (regionIds d).zipIdx := by
    refine firstVisits_of_nodup ?_ fun _ _ => List.not_mem_nil
    rw [List.zipIdx_map_fst]
    exact h.filter _
  unfold regionsOnce regionsIn regionsOf
  rw [hvisits, filter_traverse, List.zipIdx_map, List.mapM_map]
  rfl

@[simp] theorem isRegion_leaf (n : Node) : isRegion n.leaf = isRegion n := rfl

/-- Regions do not depend on where their nodes are. -/
theorem regionsOf_map_leaf (filename : String) (nodes : List Node) :
    regionsOf filename (nodes.map Node.leaf) = regionsOf filename nodes := by
  have hfilter : (nodes.map Node.leaf).filter isRegion = (nodes.filter isRegion).map Node.leaf :=
    List.filter_map
  unfold regionsOf
  rw [hfilter, List.zipIdx_map, List.mapM_map]
  rfl

/-- **The regions of a text** are those of its outline. -/
theorem regions_outline (text : List Char) (name : String) (d : Directives) : regions text (some name) d =
    regionsOf name (outlineLeaves d.setup (outline (Format.ofName name.toList) d.setup text)) := by
  obtain ⟨horder, hleaves⟩ := ofText_outline (Format.ofName name.toList) text (some name) d.setup
  have hroot : isRegion Node.root = false := rfl
  unfold regions regionsIn
  dsimp only
  rw [← regionsOf_map_leaf, List.map_map, Function.comp_def, horder.map_leaf_traverse, hleaves]
  unfold regionsOf
  rw [List.filter_cons_of_neg (Bool.eq_false_iff.mp hroot)]

/-- A tested block holds a session. -/
@[simp] theorem isRegion_block (meets? : List Char → Option Bool) (inv : Invocation) (kind : TestKind) :
    isRegion (inv.block meets? kind) = true := by
  cases kind with
  | test =>
    unfold Invocation.block
    by_cases hhide : inv.hasOption "hide" = true
    · simp [isRegion, Node.make, hhide]
    · simp [isRegion, Node.make, hhide]
  | setup => rfl
  | cleanup => rfl

/-- **Every directive for a tested block** has a region. -/
theorem exists_region_of_directive {text : List Char} {name : String} {d : Directives} {rs : List Region}
    (h : regions text (some name) d = .ok rs) {inv : Invocation} {kind : TestKind}
    (hinv : .directive inv ∈ outline (Format.ofName name.toList) d.setup text)
    (hkind : d.setup.get? inv.name = some (.test kind)) :
    ∃ r ∈ rs, ∃ index, r.IsOf name index (inv.block d.meets? kind) := by
  rw [regions_outline] at h
  have hmem : (inv.block d.meets? kind).leaf ∈
      outlineLeaves d.setup (outline (Format.ofName name.toList) d.setup text) := by
    refine List.mem_flatMap.mpr ⟨_, hinv, ?_⟩
    rw [Entry.leaves, becomes_test hkind, d.meets?_setup]
    exact List.mem_singleton_self _
  obtain ⟨r, hr, index, hof⟩ := exists_mem_regionsOf h hmem (by simp)
  exact ⟨r, hr, index, isOf_regionOf hof⟩

/-! ## Test cases -/

/-- **The test cases of a document** that has a name, each with a copy of given bindings. -/
def casesIn (name : String) (d : Document) (b : Bindings Value) : Host (Except FindError (List Case)) := do
  match regionsOnce name d with
  | .error e => return .error e
  | .ok rs => return .ok (← casesOf b rs)

theorem casesOf_eq_some {b : Bindings Value} {rs : List Region} {w w' : World} {cases : List Case}
    (h : casesOf b rs w = some (cases, w')) :
    cases.map Case.region = rs ∧ cases.map Case.space = (List.range rs.length).map (w.spaces.size + ·) ∧
      w' = w.withSpaces rs.length b := by
  have hspaces := casesOf_spaces b rs w
  rw [h] at hspaces
  rw [casesOf_eq] at h
  cases h
  exact ⟨by simp [Function.comp_def], Option.some.inj hspaces, rfl⟩

theorem casesIn_eq_ok {name : String} {d : Document} {b : Bindings Value} {w w' : World} {cases : List Case}
    (h : casesIn name d b w = some (.ok cases, w')) :
    ∃ rs, regionsOnce name d = .ok rs ∧ casesOf b rs w = some (cases, w') := by
  unfold casesIn at h
  cases hregions : regionsOnce name d with
  | error e =>
    rw [hregions] at h
    cases h
  | ok rs =>
    rw [hregions] at h
    obtain ⟨cases', w₁, hcases, h⟩ := Host.bind_eq_some.mp h
    cases h
    exact ⟨rs, rfl, hcases⟩

theorem casesIn_of_regionsOnce {name : String} {d : Document} {rs : List Region}
    (h : regionsOnce name d = .ok rs) (b : Bindings Value) (w : World) :
    ∃ cases w', casesIn name d b w = some (.ok cases, w') := by
  unfold casesIn
  rw [h]
  exact ⟨_, _, Host.bind_eq_some.mpr ⟨_, _, casesOf_eq b rs w, rfl⟩⟩

/-- **The test cases of a text** are those of its document, which begin with the bindings for the text. -/
theorem findCases_eq_ok {text : List Char} {name : String} {globals extra : Option (Bindings Value)}
    {w w' : World} {cases : List Case} :
    findCases text (some name) globals extra w = some (.ok cases, w') ↔
      ∃ b w₁, startingBindings globals extra w = some (b, w₁) ∧
        casesIn name (.ofText (Format.ofName name.toList) text name (Directives.setup .empty)) b w₁ =
          some (.ok cases, w') := by
  obtain ⟨horder, -⟩ := ofText_outline (Format.ofName name.toList) text (some name) (Directives.setup .empty)
  have honce : regionsOnce name (.ofText (Format.ofName name.toList) text name (Directives.setup .empty)) =
      regions text (some name) .empty :=
    regionsOnce_eq (horder.traverse_eq ▸ List.nodup_range) name
  unfold findCases findCasesWith casesIn
  rw [honce]
  cases regions text (some name) .empty with
  | error e =>
    constructor
    · intro h
      cases h
    · rintro ⟨b, w₁, -, h⟩
      cases h
  | ok rs =>
    dsimp only
    rw [Host.bind_eq_some]

theorem findCases_of_regions {text : List Char} {name : Option String} {rs : List Region}
    (h : regions text name .empty = .ok rs) (globals extra : Option (Bindings Value)) (w : World) :
    ∃ cases w', findCases text name globals extra w = some (.ok cases, w') := by
  obtain ⟨b, w₁, hb⟩ : ∃ b w₁, startingBindings globals extra w = some (b, w₁) := by
    unfold startingBindings
    split
    · exact ⟨_, _, rfl⟩
    · exact ⟨_, _, rfl⟩
  unfold findCases findCasesWith
  rw [h]
  exact ⟨_, _, Host.bind_eq_some.mpr ⟨b, w₁, hb, Host.bind_eq_some.mpr ⟨_, _, casesOf_eq b rs w₁, rfl⟩⟩⟩

section

variable {meets? : List Char → Option Bool}

/-- The name of the directive for tests. -/
theorem get?_of_doctest {name : String} (h : name = "doctest") :
    (Directives.setup ⟨.empty, meets?⟩).get? name = some (.test .test) := by
  rw [h]
  rfl

/-- **Every directive for tests** has a test case. -/
theorem exists_case_of_directive {text : List Char} {name : String} {globals extra : Option (Bindings Value)}
    {w w' : World} {cases : List Case}
    (h : findCasesWith ⟨.empty, meets?⟩ text (some name) globals extra w = some (.ok cases, w')) {inv : Invocation}
    (hinv : .directive inv ∈ outline (Format.ofName name.toList) (Directives.setup ⟨.empty, meets?⟩) text)
    (hname : inv.name = "doctest") :
    ∃ case ∈ cases, ∃ index, case.region.IsOf name index (inv.block meets? .test) := by
  obtain ⟨r, hr, index, hof⟩ :=
    exists_region_of_directive (findCasesWith_eq h).symm hinv (get?_of_doctest hname)
  obtain ⟨case, hcase, rfl⟩ := List.mem_map.mp hr
  exact ⟨case, hcase, index, hof⟩

end

/-- Where each node is gone through once, each node that holds a session has a test case in its place, with a copy
of the bindings. -/
theorem casesIn_placing {name : String} {d : Document} (hd : d.traverse.Nodup) {b : Bindings Value} {w w' : World}
    {cases : List Case} (h : casesIn name d b w = some (.ok cases, w')) :
    (∃ placed, placed.map Prod.fst = cases.map Case.region ∧
      IsPlacing name ((regionIds d).map d.node) placed) ∧
    ∃ n, cases.map Case.space = (List.range n).map (w.spaces.size + ·) ∧ w' = w.withSpaces n b := by
  obtain ⟨rs, hregions, hcases⟩ := casesIn_eq_ok h
  rw [regionsOnce_eq hd] at hregions
  obtain ⟨placed, hplaced, hplacing⟩ := regionsOf_placing hregions
  obtain ⟨hregion, hspaces, hw'⟩ := casesOf_eq_some hcases
  rw [filter_traverse] at hplacing
  exact ⟨⟨placed, hplaced.trans hregion.symm, hplacing⟩, rs.length, hspaces, hw'⟩

/-- **The test cases of a text.** Each node that holds a session has one of them, in its place, and they have
namespaces of their own, which hold the bindings for the text. -/
theorem findCases_placed {text : List Char} {name : String} {d : Document}
    (hd : d = .ofText (Format.ofName name.toList) text name (Directives.setup .empty))
    {globals extra : Option (Bindings Value)} {w w' : World} {cases : List Case}
    (h : findCases text (some name) globals extra w = some (.ok cases, w')) :
    regionIds d = (List.range d.size).filter (fun id => isRegion (d.node id)) ∧
    (∃ placed, placed.map Prod.fst = cases.map Case.region ∧
      IsPlacing name ((regionIds d).map d.node) placed) ∧
    ∃ b w₁, startingBindings globals extra w = some (b, w₁) ∧ w'.Separate b (cases.map Case.space) := by
  obtain ⟨b, w₁, hb, h⟩ := findCases_eq_ok.mp h
  obtain ⟨horder, -⟩ := ofText_outline (Format.ofName name.toList) text (some name) (Directives.setup .empty)
  rw [← hd] at h horder
  obtain ⟨hplaced, n, hspaces, rfl⟩ := casesIn_placing (horder.traverse_eq ▸ List.nodup_range) h
  refine ⟨by rw [regionIds, horder.traverse_eq], hplaced, b, w₁, hb, ?_⟩
  rw [hspaces]
  exact w₁.separate_copies n b

/-- **The test cases of a document.** Each node that holds a session has one of them, in its place; they are
sorted. Whatever names are bound or removed afterwards in the namespaces of the test cases or in the one that was
given, each of them is the one that was given, with the changes that were made in it. -/
theorem casesIn_placed {name : String} {d : Document} (hd : d.IsBuilt) {given : Ref} {w w' : World}
    (hgiven : given < w.spaces.size) {cases : List Case}
    (h : casesIn name d (w.space given) w = some (.ok cases, w')) :
    ((regionIds d).Nodup ∧ ∀ id, id ∈ regionIds d ↔ id < d.size ∧ isRegion (d.node id) = true) ∧
    (∃ placed, placed.map Prod.fst = cases.map Case.region ∧
      IsPlacing name ((regionIds d).map d.node) placed) ∧
    w'.Separate (w.space given) (given :: cases.map Case.space) := by
  obtain ⟨hplaced, n, hspaces, rfl⟩ := casesIn_placing hd.isTree.nodup_traverse h
  refine ⟨⟨nodup_regionIds hd.isTree, fun id => mem_regionIds hd.isTree⟩, hplaced, ?_⟩
  rw [hspaces]
  exact World.separate_withSpaces hgiven n

/-- A document of two blocks with a session, the second of which comes first by its name. -/
def twoBlocks : Document :=
  ((Document.new none).add Document.root (.atLine .doctestBlock ">>> a = 1\n".toList 1)).2.add Document.root
    { Node.atLine .literalBlock ">>> a  # doctest: -SKIP\n1\n".toList 3 with
      attributes := { Attributes.none with groups := ["alpha"], overrides := Overrides.empty.enable (.single .skip) } }
    |>.2

/-- A world with one namespace. -/
def oneSpace : World := (World.empty.newSpace (Bindings.empty.insert "b" .none)).2

theorem casesIn_placed_twoBlocks :
    (regionIds twoBlocks).length = 2 ∧
    ∃ cases w', casesIn "t.rst" twoBlocks (oneSpace.space 0) oneSpace = some (.ok cases, w') ∧
      ((regionIds twoBlocks).Nodup ∧ ∀ id, id ∈ regionIds twoBlocks ↔
        id < twoBlocks.size ∧ isRegion (twoBlocks.node id) = true) ∧
      (∃ placed, placed.map Prod.fst = cases.map Case.region ∧
        IsPlacing "t.rst" ((regionIds twoBlocks).map twoBlocks.node) placed) ∧
      w'.Separate (oneSpace.space 0) (0 :: cases.map Case.space) := by
  have hbuilt : twoBlocks.IsBuilt := .add (.add (.new none) (by decide) rfl) (by decide) rfl
  have hfound : (regionsOnce "t.rst" twoBlocks).toOption.isSome = true := by decide +kernel
  obtain ⟨rs, hrs⟩ := Option.isSome_iff_exists.mp hfound
  obtain ⟨cases, w', h⟩ := casesIn_of_regionsOnce (Except.toOption_eq_some.mp hrs) (oneSpace.space 0) oneSpace
  exact ⟨by decide +kernel, cases, w', h, casesIn_placed hbuilt (by decide) h⟩

end Test

end Transcript
