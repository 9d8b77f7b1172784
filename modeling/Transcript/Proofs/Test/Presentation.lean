import Mathlib.Data.List.Forall2
import Mathlib.Order.Monotone.Basic
import Transcript.Proofs.Markdown.Draft
import Transcript.Proofs.Test.Handling
import Transcript.Proofs.Test.Placement

/-!
# How tests are shown

Some options of a directive say how a tested block is shown: whether it is hidden, and whether comments with
flags are left out. They decide which text a reader of the document sees. What is run is the body of the
directive as it stands.

Results:
* `sameTest_block`: the nodes of directives that differ in such options only stand for the same test.
* `regions_edited`, `findCases_edited`: the test cases of texts that differ in such options only.
* `edited_draft`: such texts.
* `presentation_inert`: what is run does not depend on how it is shown.
-/

namespace Transcript

open Doc Lang

namespace Doc

/-! ## Directives that differ in how they are shown -/

/-- **The options that say how a tested block is shown.** -/
def presentation : List String := ["hide", "trim-doctest-flags", "no-trim-doctest-flags"]

/-- The options that say something else. -/
def Invocation.otherOptions (inv : Invocation) : List (String × List Char) :=
  inv.options.filter fun o => !presentation.contains o.1

/-- **Directives that only differ in how their block is shown,** and in the lines they are on. -/
structure Invocation.SameButShown (inv inv' : Invocation) : Prop where
  /-- They have the same name. -/
  name_eq : inv'.name = inv.name
  /-- They have the same argument. -/
  argument_eq : inv'.argument = inv.argument
  /-- They have the same body. -/
  content_eq : inv'.content = inv.content
  /-- They have the same other options. -/
  options_eq : inv'.otherOptions = inv.otherOptions

namespace Invocation.SameButShown

variable {inv inv' : Invocation} (h : inv.SameButShown inv')
include h

theorem option?_eq (key : String) (hkey : key ∉ presentation) :
    inv'.option? key = inv.option? key := by
  have hother (i : Invocation) : i.option? key = (i.otherOptions.find? (·.1 == key)).map Prod.snd := by
    unfold option? otherOptions
    rw [List.find?_filter]
    refine congrArg _ (congrArg (List.find? · i.options) (funext fun o => ?_))
    by_cases ho : o.1 = key
    · simp [ho, hkey]
    · simp [ho]
  rw [hother, hother, h.options_eq]

theorem overrides_eq (meets? : List Char → Option Bool) : inv'.overrides meets? = inv.overrides meets? := by
  unfold overrides isBarred requirement? flagOptions
  rw [h.option?_eq "version" (by decide), h.option?_eq "pyversion" (by decide),
    h.option?_eq "options" (by decide)]

end Invocation.SameButShown

/-- **Nodes that stand for the same test,** the lines of which have gone to other ones. -/
structure Node.SameTest (f : Nat → Nat) (n n' : Node) : Prop where
  /-- They run the same text. -/
  session_eq : n'.session = n.session
  /-- They are in the same groups. -/
  groups_eq : n'.attributes.groups = n.attributes.groups
  /-- They have the same flags. -/
  overrides_eq : n'.attributes.overrides = n.attributes.overrides
  /-- They play the same part. -/
  testKind_eq : n'.attributes.testKind = n.attributes.testKind
  /-- They are skipped on the same condition. -/
  skipIf_eq : n'.attributes.skipIf = n.attributes.skipIf
  /-- The line of the construct. -/
  line_eq : n'.line.getD 1 = f (n.line.getD 1)
  /-- The line of the text. -/
  firstLine_eq : n'.firstLine = f n.firstLine

/-- **Blocks that differ in how they are shown** stand for the same test. -/
theorem sameTest_block {inv inv' : Invocation} (h : inv.SameButShown inv') {f : Nat → Nat}
    (hline : inv'.line = f inv.line) (hcontent : inv'.contentLine = f inv.contentLine)
    (meets? : List Char → Option Bool) (kind : TestKind) :
    (inv.block meets? kind).SameTest f (inv'.block meets? kind) := by
  have hskipIf := h.option?_eq "skipif" (by decide)
  have hgroups := congrArg groupsOf h.argument_eq
  have hsession : (inv'.block meets? kind).session = (inv.block meets? kind).session := by
    rw [Invocation.session_block, Invocation.session_block, h.content_eq]
  cases kind with
  | test => exact ⟨hsession, hgroups, h.overrides_eq meets?, rfl, hskipIf, hline, hcontent⟩
  | setup => exact ⟨hsession, hgroups, rfl, rfl, hskipIf, hline, hcontent⟩
  | cleanup => exact ⟨hsession, hgroups, rfl, rfl, hskipIf, hline, hcontent⟩

end Doc

namespace Test

/-! ## Regions -/

/-- A region, the lines of which have gone to other ones. -/
def Region.moved (f : Nat → Nat) (r : Region) : Region :=
  { r with line := f r.line, contentLine := f r.contentLine }

/-- A test case, the lines of which have gone to other ones. -/
def Case.moved (f : Nat → Nat) (c : Case) : Case := { c with region := c.region.moved f }

/-- **Errors of the same kind** in texts that begin on other lines. -/
inductive FindError.Moved (f : Nat → Nat) : FindError → FindError → Prop
  | noName : Moved f .noName .noName
  | unreadable (name : String) (first : Nat) (cause : Session.Error) :
      Moved f (.unreadable name (first + cause.line - 1) cause) (.unreadable name (f first + cause.line - 1) cause)

/-- **Nodes that stand for the same test** have the same region. -/
theorem regionOf_sameTest {f : Nat → Nat} {n n' : Node} (h : n.SameTest f n') (filename : String) (index : Nat) :
    Except.Related (FindError.Moved f) (fun r r' => r' = r.moved f) (regionOf filename index n)
      (regionOf filename index n') := by
  have hname : regionName filename index n' = regionName filename index n := by
    unfold regionName
    rw [h.groups_eq]
  rw [regionOf_eq, regionOf_eq, hname, h.session_eq]
  cases Session.read n.session (regionName filename index n) with
  | error cause =>
    dsimp only
    rw [h.firstLine_eq]
    exact .error (.unreadable _ _ cause)
  | ok es =>
    dsimp only
    rw [h.line_eq, h.firstLine_eq, h.overrides_eq, h.groups_eq, h.testKind_eq, h.skipIf_eq]
    exact .ok rfl

/-- The regions of nodes, each of which stands for the same test as another one. -/
theorem mapM_regionOf_sameTest {f : Nat → Nat} (filename : String) {nodes nodes' : List Node}
    (h : List.Forall₂ (Node.SameTest f) nodes nodes') (i : Nat) :
    Except.Related (FindError.Moved f) (fun rs rs' => rs' = rs.map (Region.moved f))
      ((nodes.zipIdx i).mapM fun (n, i) => regionOf filename i n)
      ((nodes'.zipIdx i).mapM fun (n, i) => regionOf filename i n) := by
  induction h generalizing i with
  | nil => exact .ok rfl
  | cons hn _ ih =>
    rw [List.zipIdx_cons, List.zipIdx_cons, List.mapM_cons, List.mapM_cons]
    refine (regionOf_sameTest hn filename i).bind fun r r' hr => (ih (i + 1)).bind fun rs rs' hrs => ?_
    rw [hr, hrs]
    exact .ok rfl

/-- Where no two lines change places, regions are in the same order. -/
theorem comesBefore_moved {f : Nat → Nat} (hf : StrictMono f) (r s : Region) :
    (r.moved f).comesBefore (s.moved f) = r.comesBefore s := by
  unfold Region.comesBefore Region.moved
  simp only [hf.le_iff_le]

theorem regionsOf_sameTest {f : Nat → Nat} (hf : StrictMono f) (filename : String) {nodes nodes' : List Node}
    (h : List.Forall₂ (Node.SameTest f) (nodes.filter isRegion) (nodes'.filter isRegion)) :
    Except.Related (FindError.Moved f) (fun rs rs' => rs' = rs.map (Region.moved f))
      (regionsOf filename nodes) (regionsOf filename nodes') := by
  refine (mapM_regionOf_sameTest filename h 0).bind fun rs rs' hrs => .ok ?_
  rw [hrs]
  exact (List.map_mergeSort fun r _ s _ => (comesBefore_moved hf r s).symm).symm

end Test

namespace Doc

/-! ## Texts -/

/-- **An entry of an outline after a text was edited:** options that say how a block is shown were added or taken
away. Lines have gone to other ones. The body of a directive that holds a part of the document may be another
one, since this part is in the outline, too. -/
inductive Entry.Edited (d : Directives) (f : Nat → Nat) : Entry → Entry → Prop
  | node {n : Node} {line contentLine : Nat} (hline : n.line = some line)
      (hcontent : n.contentLine = some contentLine) :
      Edited d f (.node n) (.node { n with line := some (f line), contentLine := some (f contentLine) })
  | directive {inv inv' : Invocation} (h : inv.SameButShown inv') (hline : inv'.line = f inv.line)
      (hcontent : inv'.contentLine = f inv.contentLine) : Edited d f (.directive inv) (.directive inv')
  | part {inv inv' : Invocation} (hpart : d.get? inv.name = some .tab ∨ d.get? inv.name = some .evalRst)
      (hname : inv'.name = inv.name) : Edited d f (.directive inv) (.directive inv')

open Test

/-- A container holds no session. -/
theorem filter_part {d : Directives} {inv : Invocation}
    (h : d.get? inv.name = some .tab ∨ d.get? inv.name = some .evalRst) :
    (Entry.leaves d (.directive inv)).filter isRegion = [] := by
  rw [Entry.leaves]
  unfold Directives.becomes
  rcases h with h | h
  · rw [h]
    cases Text.allBlank inv.content with
    | true => rfl
    | false => rfl
  · rw [h]
    cases Text.allBlank inv.content with
    | true => rfl
    | false => rfl

/-- One node in place of another one. -/
theorem filter_singleton {f : Nat → Nat} {n n' : Node} (h : n.SameTest f n') (hregion : isRegion n' = isRegion n) :
    List.Forall₂ (Node.SameTest f) ([n.leaf].filter isRegion) ([n'.leaf].filter isRegion) := by
  rw [List.filter_singleton, List.filter_singleton, isRegion_leaf, isRegion_leaf, hregion]
  cases isRegion n with
  | true =>
    exact .cons ⟨h.session_eq, h.groups_eq, h.overrides_eq, h.testKind_eq, h.skipIf_eq, h.line_eq, h.firstLine_eq⟩ .nil
  | false => exact .nil

/-- **The tests of an entry** are the same after such an edit. -/
theorem Entry.Edited.filter {d : Directives} {f : Nat → Nat} {e e' : Entry} (h : e.Edited d f e') :
    List.Forall₂ (Node.SameTest f) ((e.leaves d).filter isRegion) ((e'.leaves d).filter isRegion) := by
  cases h with
  | @node n line contentLine hline hcontent =>
    refine filter_singleton ⟨rfl, rfl, rfl, rfl, rfl, ?_, ?_⟩ rfl
    · rw [hline]
      rfl
    · unfold Node.firstLine
      rw [hcontent]
      rfl
  | part hpart hname =>
    rw [filter_part hpart, filter_part (hname.symm ▸ hpart)]
    exact .nil
  | @directive inv inv' h hline hcontent =>
    have hname := h.name_eq
    cases hkind : d.get? inv.name with
    | none =>
      rw [Entry.leaves, Entry.leaves]
      unfold Directives.becomes
      rw [hname, hkind]
      exact .nil
    | some kind =>
      cases kind with
      | test kind =>
        rw [Entry.leaves, Entry.leaves, becomes_test hkind, becomes_test (hname ▸ hkind)]
        exact filter_singleton (sameTest_block h hline hcontent d.meets? kind) (by simp)
      | tab =>
        rw [filter_part (.inl hkind), filter_part (.inl (hname ▸ hkind))]
        exact .nil
      | evalRst =>
        rw [filter_part (.inr hkind), filter_part (.inr (hname ▸ hkind))]
        exact .nil
      | codeBlock =>
        rw [Entry.leaves, Entry.leaves]
        unfold Directives.becomes
        rw [hname, hkind, h.content_eq, h.argument_eq, hline, hcontent]
        exact filter_singleton ⟨rfl, rfl, rfl, rfl, rfl, rfl, rfl⟩ rfl

theorem outlineLeaves_edited {d : Directives} {f : Nat → Nat} {es es' : List Entry}
    (h : List.Forall₂ (Entry.Edited d f) es es') :
    List.Forall₂ (Node.SameTest f) ((outlineLeaves d es).filter isRegion)
      ((outlineLeaves d es').filter isRegion) := by
  rw [outlineLeaves, outlineLeaves, List.filter_flatMap, List.filter_flatMap]
  exact List.rel_flatMap h fun _ _ he => he.filter

end Doc

namespace Test

/-- The entries of the outline of a text with a name. -/
abbrev entries (name : String) (text : List Char) : List Entry :=
  outline (Format.ofName name.toList) (Directives.setup .empty) text

/-- **The regions of a text after such an edit** are the same, in the same order. -/
theorem regions_edited {name : String} {text text' : List Char} {f : Nat → Nat} (hf : StrictMono f)
    (h : List.Forall₂ (Entry.Edited (Directives.setup .empty) f) (entries name text) (entries name text')) :
    Except.Related (FindError.Moved f) (fun rs rs' => rs' = rs.map (Region.moved f))
      (regions text (some name) .empty) (regions text' (some name) .empty) := by
  rw [regions_outline, regions_outline]
  exact regionsOf_sameTest hf name (outlineLeaves_edited h)

/-- **The same test cases** are found, but for their lines: in the same order and in the same namespaces, or the
same is wrong with them. -/
abbrev SameCases (f : Nat → Nat) (x y : Host (Except FindError (List Case))) : Prop :=
  Host.Agree (Except.Related (FindError.Moved f) fun cases cases' => cases' = cases.map (Case.moved f)) x y

theorem casesOf_moved (f : Nat → Nat) (b : Bindings Value) (rs : List Region) :
    Host.Agree (fun cases cases' => cases' = cases.map (Case.moved f)) (casesOf b rs)
      (casesOf b (rs.map (Region.moved f))) := by
  intro w
  rw [casesOf_eq, casesOf_eq, List.zipIdx_map, List.length_map]
  refine .some ⟨?_, rfl⟩
  dsimp only
  rw [List.map_map, List.map_map]
  rfl

/-- **The test cases of a text after such an edit** are the same. -/
theorem findCases_edited {name : String} {text text' : List Char} {f : Nat → Nat} (hf : StrictMono f)
    (h : List.Forall₂ (Entry.Edited (Directives.setup .empty) f) (entries name text) (entries name text'))
    (globals extra : Option (Bindings Value)) :
    SameCases f (findCases text (some name) globals extra) (findCases text' (some name) globals extra) := by
  have hregions := regions_edited hf h
  unfold findCases findCasesWith
  generalize regions text (some name) .empty = found at hregions ⊢
  generalize regions text' (some name) .empty = found' at hregions ⊢
  cases hregions with
  | error he => exact .pure (.error he)
  | ok hrs =>
    rw [hrs]
    exact .after fun b _ _ _ => .bind (casesOf_moved f b _) fun _ _ hcases => .pure (.ok hcases)

end Test

/-! ## Texts of one directive -/

section

variable {w : Draft} (hw : w.WellFormed) {d : Directives} {kind : TestKind}
  (hkind : d.get? w.name = some (.test kind))
include hw hkind

/-- The outline of a directive with an indented body. -/
theorem Rst.outline_draft {k : Nat} (hk : 0 < k) (pad first : Nat) :
    Rst.outline d (source w k pad) first = [.directive (w.invocation first)] := by
  have hb : (⟨first, ['.', '.', ' '] ++ headline w⟩ : Line).isBlank = false := rfl
  have hbecomes : d.becomes (w.invocation first) = _ := becomes_test hkind
  have hnil (fuel : Nat) : linesOutline d fuel [] = [] := by
    cases fuel with
    | zero => rfl
    | succ fuel => rfl
  unfold outline stepsFor
  rw [numberedLines_source hw]
  dsimp only
  rw [linesOutline, List.dropWhile_cons_of_neg (by rw [hb]; exact Bool.false_ne_true)]
  dsimp only
  rw [nextBlock_draft hw hk first]
  dsimp only
  rw [hnil, List.flatMap_singleton, List.append_nil, pieceOutline, hbecomes]

/-- The outline of a directive between fences. -/
theorem Markdown.outline_draft (first : Nat) :
    Markdown.outline d (source w) first = [.directive (w.invocation first)] := by
  have hbecomes : d.becomes (w.invocation first) = _ := becomes_test hkind
  unfold outline
  rw [textOutline, chunks_source hw, List.flatMap_singleton]
  dsimp only
  rw [hbecomes]

end

namespace Doc

/-- **The text of a directive** in a format, its body behind so many spaces where it is indented. -/
def Draft.sourceIn (w : Draft) (format : Format) (k : Nat) : List Char :=
  match format with
  | .rst => Rst.source w k 0
  | .markdown => Markdown.source w

/-- What a directive says without the options for how its block is shown. -/
def Draft.bare (w : Draft) : Draft :=
  { w with options := w.options.filter fun o => !presentation.contains (String.ofList o.1) }

theorem Draft.WellFormed.bare {w : Draft} (hw : w.WellFormed) : w.bare.WellFormed :=
  { hw with
    keys := fun o ho => hw.keys o (List.mem_of_mem_filter ho)
    values := fun o ho => hw.values o (List.mem_of_mem_filter ho) }

/-- It says the same otherwise. -/
theorem Draft.sameButShown_bare (w : Draft) (line : Nat) :
    (w.bare.invocation line).SameButShown (w.invocation line) where
  name_eq := rfl
  argument_eq := rfl
  content_eq := rfl
  options_eq := by
    unfold Invocation.otherOptions Draft.bare Draft.invocation
    dsimp only
    rw [List.filter_map, List.filter_map, List.filter_filter]
    simp [Function.comp_def]

/-- Where lines go if so many are put behind the first one. -/
def pushed (k line : Nat) : Nat := if line ≤ 1 then line else line + k

theorem strictMono_pushed (k : Nat) : StrictMono (pushed k) := by
  intro a b hab
  unfold pushed
  split_ifs
  · exact hab
  · omega
  · omega
  · omega

end Doc

namespace Test

/-- The outline of the text of a directive. -/
theorem entries_draft {w : Draft} (hw : w.WellFormed) (hname : w.name = "doctest") (name : String) {k : Nat}
    (hk : 0 < k) : entries name (w.sourceIn (Format.ofName name.toList) k) = [.directive (w.invocation 1)] := by
  have hkind : (Directives.setup .empty).get? w.name = some (.test .test) := get?_of_doctest hname
  unfold entries Draft.sourceIn
  cases Format.ofName name.toList with
  | rst => exact Rst.outline_draft hw hkind hk 0 1
  | markdown => exact Markdown.outline_draft hw hkind 1

/-- **The text of a directive to which options for how it is shown are added,** at whatever places. -/
theorem edited_draft {w w' : Draft} (hw : w.WellFormed) (hw' : w'.WellFormed) (hname : w.name = "doctest")
    (hsame : (w.invocation 1).SameButShown (w'.invocation 1)) (hlength : w.options.length ≤ w'.options.length)
    (name : String) {k : Nat} (hk : 0 < k) :
    List.Forall₂ (Entry.Edited (Directives.setup .empty) (pushed (w'.options.length - w.options.length)))
      (entries name (w.sourceIn (Format.ofName name.toList) k))
      (entries name (w'.sourceIn (Format.ofName name.toList) k)) := by
  rw [entries_draft hw hname name hk, entries_draft hw' (hsame.name_eq.trans hname) name hk]
  have hcontent : (w'.invocation 1).contentLine =
      pushed (w'.options.length - w.options.length) (w.invocation 1).contentLine := by
    unfold pushed Draft.invocation
    dsimp only
    rw [if_neg (by omega)]
    omega
  exact .cons (.directive hsame rfl hcontent) .nil

/-! ## What is run -/

/-- **What is run does not depend on how it is shown.** Every directive for tests, whatever its argument, its
options and its body, becomes a node that holds a session, and what is run of it is the body as it stands. It has a
test case in every text. And where options that say how blocks are shown are added to directives of a text, or
taken away if the texts are exchanged, its test cases stay the same but for their lines. In particular, this is so
for the text of a directive in each format, wherever such options are put between the other ones. -/
theorem presentation_inert :
    (∀ (d : Directives) (inv : Invocation), d.get? inv.name = some (.test .test) → ∀ doc : Document,
      ∃ n, (d.expand inv doc).1 = some (.node n) ∧ n.session = inv.content ∧ isRegion n = true) ∧
    (∀ (name : String) (text : List Char) (inv : Invocation), .directive inv ∈ entries name text →
      inv.name = "doctest" → ∀ (globals extra : Option (Bindings Value)) (w w' : World) (cases : List Case),
        findCases text (some name) globals extra w = some (.ok cases, w') →
        ∃ case ∈ cases, case.region.text = inv.content ∧
          ∃ index, case.region.IsOf name index (inv.block Version.ofLanguage.meets? .test)) ∧
    (∀ (name : String) (text text' : List Char) (f : Nat → Nat), StrictMono f →
      List.Forall₂ (Entry.Edited (Directives.setup .empty) f) (entries name text) (entries name text') →
      ∀ globals extra : Option (Bindings Value),
        SameCases f (findCases text (some name) globals extra) (findCases text' (some name) globals extra)) ∧
    ∀ (name : String) (draft draft' : Draft) (k : Nat), draft.WellFormed → draft'.WellFormed →
      draft.name = "doctest" → (draft.invocation 1).SameButShown (draft'.invocation 1) →
      draft.options.length ≤ draft'.options.length → 0 < k → ∀ globals extra : Option (Bindings Value),
        SameCases (pushed (draft'.options.length - draft.options.length))
          (findCases (draft.sourceIn (Format.ofName name.toList) k) (some name) globals extra)
          (findCases (draft'.sourceIn (Format.ofName name.toList) k) (some name) globals extra) := by
  refine ⟨fun d inv hkind doc => ?_, fun name text inv hinv hname globals extra w w' cases h => ?_,
    fun name text text' f hf h globals extra => findCases_edited hf h globals extra,
    fun name draft draft' k hw hw' hname hsame hlength hk globals extra => ?_⟩
  · obtain ⟨-, -, hbecomes⟩ := expand_becomes d inv doc
    exact ⟨inv.block d.meets? .test, hbecomes.trans (becomes_test hkind), inv.session_block d.meets? .test,
      isRegion_block d.meets? inv .test⟩
  · obtain ⟨case, hcase, index, hof⟩ := exists_case_of_directive h hinv hname
    exact ⟨case, hcase, hof.text_eq.trans (inv.session_block _ .test), index, hof⟩
  · exact findCases_edited (strictMono_pushed _) (edited_draft hw hw' hname hsame hlength name hk) globals extra

/-- The text of a test with an option for how it is shown, in the format that a name tells. -/
abbrev shownIn (name : String) : List Char := Markdown.testDraft.sourceIn (Format.ofName name.toList) 3

/-- The text without this option. -/
abbrev bareIn (name : String) : List Char := Markdown.testDraft.bare.sourceIn (Format.ofName name.toList) 3

theorem presentation_inert_testDraft : ∀ name ∈ ["t.rst", "t.md"],
    (∃ n, ((Directives.setup .empty).expand (Markdown.testDraft.invocation 1) (.new none)).1 = some (.node n) ∧
      n.session = ">>> one\n\n  1".toList ∧ isRegion n = true) ∧
    (∃ cases w', findCases (shownIn name) (some name) none none .empty = some (.ok cases, w') ∧
      ∃ case ∈ cases, case.region.text = ">>> one\n\n  1".toList ∧
        ∃ index, case.region.IsOf name index
          ((Markdown.testDraft.invocation 1).block Version.ofLanguage.meets? .test)) ∧
    (StrictMono (pushed 1) ∧
      List.Forall₂ (Entry.Edited (Directives.setup .empty) (pushed 1)) (entries name (bareIn name))
        (entries name (shownIn name)) ∧
      SameCases (pushed 1) (findCases (bareIn name) (some name) none none)
        (findCases (shownIn name) (some name) none none)) ∧
    (Markdown.testDraft.bare.invocation 1).SameButShown (Markdown.testDraft.invocation 1) ∧
    SameCases (pushed (Markdown.testDraft.options.length - Markdown.testDraft.bare.options.length))
      (findCases (bareIn name) (some name) none none) (findCases (shownIn name) (some name) none none) := by
  intro name hmem
  have hw := Markdown.wellFormed_testDraft
  have hsame := Markdown.testDraft.sameButShown_bare 1
  have hlength : Markdown.testDraft.bare.options.length ≤ Markdown.testDraft.options.length := by decide +kernel
  have hedited := edited_draft hw.bare hw rfl hsame hlength name (show 0 < 3 by decide)
  have hlines : Markdown.testDraft.options.length - Markdown.testDraft.bare.options.length = 1 := by decide +kernel
  rw [hlines] at hedited
  refine ⟨?_, ?_, ⟨strictMono_pushed 1, hedited,
    presentation_inert.2.2.1 name _ _ (pushed 1) (strictMono_pushed 1) hedited none none⟩, hsame,
    presentation_inert.2.2.2 name _ _ 3 hw.bare hw rfl hsame hlength (by decide) none none⟩
  · exact presentation_inert.1 (Directives.setup .empty) (Markdown.testDraft.invocation 1) rfl (.new none)
  · have hfound : ∀ name ∈ ["t.rst", "t.md"],
        (regions (shownIn name) (some name) .empty).toOption.isSome = true := by decide +kernel
    obtain ⟨rs, hrs⟩ := Option.isSome_iff_exists.mp (hfound name hmem)
    obtain ⟨cases, w', h⟩ := findCases_of_regions (Except.toOption_eq_some.mp hrs) none none .empty
    have hinv : .directive (Markdown.testDraft.invocation 1) ∈ entries name (shownIn name) := by
      rw [entries_draft hw rfl name (show 0 < 3 by decide)]
      exact List.mem_singleton_self _
    exact ⟨cases, w', h, presentation_inert.2.1 name _ _ hinv rfl none none .empty w' cases h⟩

end Test

end Transcript
