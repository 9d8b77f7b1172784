import Transcript.Proofs.Doc.Outline
import Transcript.Proofs.Session.Position
import Transcript.Proofs.Test.Region

/-!
# Where tests stand

Test cases and errors tell lines of the document. However the document is cut into blocks, and
however deep a block is nested, what they say is found on these lines.

Results:
* `hasText_of_isRegion`: the session of a region stands where the region says.
* `findCases_lines`: the line of an example shows its statement behind a prompt, and the line of an
  error shows what it complains about.
-/

namespace Transcript.Doc

open Text

/-- **The line of a text** with a number, counted from one, without blanks at its end and tabs. -/
def lineAt? (text : List Char) : Nat → Option (List Char)
  | 0 => none
  | i + 1 => ((lines text)[i]?).map fun line => expandTabs (trimEnd line)

/-- Lines know their numbers. -/
theorem lineAt?_of_mem {text : List Char} {l : Line} (h : l ∈ numberedLines text 1) :
    lineAt? text l.number = some l.text := by
  obtain ⟨⟨line, i⟩, hline, rfl⟩ := List.mem_map.mp h
  have hi := List.mk_mem_zipIdx_iff_getElem?.mp hline
  dsimp only
  rw [Nat.add_comm 1 i, lineAt?, hi, Option.map_some]

/-- What a text from the document says about a line is found on the line of the document. -/
theorem HasText.lineAt? {text session : List Char} {first i : Nat} {t s : List Char}
    (h : HasText (numberedLines text 1) session first) (ht : (segments session)[i]? = some t)
    (hne : s ≠ []) (hs : s <:+ t) :
    ∃ shown, Doc.lineAt? text (first + i) = some shown ∧ s <:+ shown := by
  have hne' : t ≠ [] := by
    rintro rfl
    exact hne (List.eq_nil_of_suffix_nil hs)
  obtain ⟨p, hp, hnumber, hsuffix⟩ := h i t ht hne'
  refine ⟨p.text, ?_, hs.trans hsuffix⟩
  rw [← hnumber]
  exact lineAt?_of_mem hp

end Transcript.Doc

namespace Transcript.Test

open Doc Text Lang

/-- **The session of a region** stands where the region says. -/
theorem hasText_of_isRegion {text : List Char} {source : Option String} {d : Directives} {n : Node}
    (hn : n ∈ (Document.ofText .rst text source d).traverse.map (Document.ofText .rst text source d).node)
    (hr : isRegion n = true) : HasText (numberedLines text 1) n.session n.firstLine := by
  obtain ⟨horder, hleaves⟩ := ofText_outline .rst text source d
  have hmem := List.mem_map_of_mem (f := Node.leaf) hn
  rw [List.map_map, Function.comp_def, horder.map_leaf_traverse, hleaves] at hmem
  rcases List.mem_cons.mp hmem with hroot | hmem
  · have hr' : isRegion n.leaf = true := hr
    rw [hroot] at hr'
    cases hr'
  · exact ((Rst.leaves_fit d _).1 _ (Rst.areLines_numberedLines text 1) _ hmem).text (isVerbatim_of_isRegion hr)

/-- A text that comes from a document has no tabs. -/
theorem tab_not_mem_of_hasText {text session : List Char} {first : Nat}
    (h : HasText (numberedLines text 1) session first) : ∀ s ∈ segments session, '\t' ∉ s :=
  fun _ hs => (h.isPlain (Rst.areLines_numberedLines text 1).plain hs).tab_not_mem

/-- The line of an example shows its statement. -/
theorem read_prompt_lineAt? {text session : List Char} {first : Nat}
    (h : HasText (numberedLines text 1) session first) {name : String} {es : List Session.Example}
    (hread : Session.read session name = .ok es) {e : Session.Example} (he : e ∈ es) :
    ∃ shown statement, lineAt? text (first + e.line) = some shown ∧
      (segments e.source).head? = some statement ∧
      trimEnd (['>', '>', '>', ' '] ++ statement) <:+ shown := by
  obtain ⟨prompt, statement, hprompt, hhead, hsuffix⟩ := Session.read_prompt_line hread he
  obtain ⟨s, hs, hprompt'⟩ := Session.suffix_of_dedentedLines (tab_not_mem_of_hasText h) hprompt
  have hplain : IsPlain prompt :=
    (h.isPlain (Rst.areLines_numberedLines text 1).plain (List.mem_of_getElem? hs)).suffix hprompt'
  have hend : trimEnd (['>', '>', '>', ' '] ++ statement) <:+ prompt ∧
      trimEnd (['>', '>', '>', ' '] ++ statement) ≠ [] := by
    rcases hsuffix with ⟨rfl, hsuffix⟩ | hsuffix
    · exact ⟨hsuffix, by decide⟩
    · rw [trimEnd_of_getLast? (hplain.suffix hsuffix).trimmed]
      exact ⟨hsuffix, List.cons_ne_nil _ _⟩
  obtain ⟨shown, hshown, hshown'⟩ := h.lineAt? hs hend.2 (hend.1.trans hprompt')
  exact ⟨shown, statement, hshown, hhead, hshown'⟩

/-- The line of an error shows what it complains about. -/
theorem read_error_lineAt? {text session : List Char} {first : Nat}
    (h : HasText (numberedLines text 1) session first) {name : String} {cause : Session.Error}
    (hread : Session.read session name = .error cause) {offending : List Char}
    (ho : cause.offending? = some offending) :
    ∃ shown, lineAt? text (first + cause.line - 1) = some shown ∧ trimEnd offending <:+ shown := by
  obtain ⟨i, hline, hi, hne⟩ := Session.read_error_line hread ho
  obtain ⟨s, hs, hsuffix⟩ := Session.suffix_of_dedentedLines (tab_not_mem_of_hasText h) hi
  have hplain : IsPlain offending :=
    (h.isPlain (Rst.areLines_numberedLines text 1).plain (List.mem_of_getElem? hs)).suffix hsuffix
  rw [hline, ← Nat.add_assoc, Nat.add_sub_cancel, trimEnd_of_getLast? hplain.trimmed]
  exact h.lineAt? hs hne hsuffix

/-- **The lines of a document that tests and errors tell.** Where the test cases of a text are found,
the line of each example ends with a prompt and the first line of its statement. Where they are not,
because a line of a session is not as it has to be, the line of the error ends with this line. -/
theorem findCases_lines {text : List Char} {name : String} {globals extra : Option (Bindings Value)}
    {w w' : World} {result : Except FindError (List Case)}
    (h : findCases text (some name) globals extra w = some (result, w'))
    (hformat : Format.ofName name.toList = .rst) :
    (∀ cases, result = .ok cases → ∀ c ∈ cases, ∀ e ∈ c.region.examples,
      ∃ shown statement, lineAt? text (c.region.lineOf e) = some shown ∧
        (segments e.source).head? = some statement ∧
        trimEnd (['>', '>', '>', ' '] ++ statement) <:+ shown) ∧
    ∀ region line cause offending, result = .error (.unreadable region line cause) →
      cause.offending? = some offending →
      ∃ shown, lineAt? text line = some shown ∧ trimEnd offending <:+ shown := by
  have hregions := findCases_eq h
  simp only [regions, regionsIn, hformat] at hregions
  refine ⟨?_, ?_⟩
  · rintro cases rfl c hc e he
    obtain ⟨n, hn, hr, index, hof⟩ := mem_regionsOf hregions.symm (List.mem_map_of_mem hc)
    obtain ⟨hline, -, es, hread, hes⟩ := regionOf_eq_ok hof
    rw [hes] at he
    obtain ⟨e', he', rfl⟩ := List.mem_map.mp he
    unfold Region.lineOf
    rw [hline]
    exact read_prompt_lineAt? (e := e') (hasText_of_isRegion hn hr) hread he'
  · rintro region line cause offending rfl ho
    obtain ⟨n, hn, hr, index, hof⟩ := regionsOf_eq_error hregions.symm
    obtain ⟨cause', hread, herr⟩ := regionOf_eq_error hof
    cases herr
    exact read_error_lineAt? (hasText_of_isRegion hn hr) hread ho

/-- A test in a directive in a list item. -/
def nestedTest : List Char :=
  "* item\n\n  .. doctest::\n     :hide:\n\n     >>> 1\n     1\n".toList

/-- A prompt without a blank behind it, in a literal block. -/
def brokenTest : List Char := "code::\n\n  >>> 1\n  >>>2\n".toList

/-- The line of each example of test cases. -/
def linesOf : Except FindError (List Case) → List (List Nat)
  | .ok cases => cases.map fun c => c.region.examples.map c.region.lineOf
  | .error _ => []

/-- The line of an error and what it complains about. -/
def complaintOf : Except FindError (List Case) → Option (Nat × List Char)
  | .error (.unreadable _ line cause) => cause.offending?.map (line, ·)
  | _ => none

theorem findCases_lines_nested :
    (∃ cases w', findCases nestedTest (some "t.rst") none none .empty = some (.ok cases, w') ∧
      linesOf (.ok cases) = [[6]] ∧
      ∀ c ∈ cases, ∀ e ∈ c.region.examples,
        ∃ shown statement, lineAt? nestedTest (c.region.lineOf e) = some shown ∧
          (segments e.source).head? = some statement ∧
          trimEnd (['>', '>', '>', ' '] ++ statement) <:+ shown) ∧
    ∃ region cause w', findCases brokenTest (some "t.rst") none none .empty =
        some (.error (.unreadable region 4 cause), w') ∧
      cause.offending? = some ">>>2".toList ∧
      ∃ shown, lineAt? brokenTest 4 = some shown ∧ trimEnd ">>>2".toList <:+ shown := by
  have hformat : Format.ofName "t.rst".toList = .rst := by decide +kernel
  constructor
  · have hlines : (findCases nestedTest (some "t.rst") none none .empty).map (linesOf ·.1) =
        some [[6]] := by decide +kernel
    obtain ⟨⟨result, w'⟩, h, hresult⟩ := Option.map_eq_some_iff.mp hlines
    cases result with
    | error e => cases hresult
    | ok cases => exact ⟨cases, w', h, hresult, (findCases_lines h hformat).1 cases rfl⟩
  · have hcomplaint : (findCases brokenTest (some "t.rst") none none .empty).map
        (complaintOf ·.1) = some (some (4, ">>>2".toList)) := by decide +kernel
    obtain ⟨⟨result, w'⟩, h, hresult⟩ := Option.map_eq_some_iff.mp hcomplaint
    rcases result with (_ | ⟨region, line, cause⟩) | cases
    · cases hresult
    · obtain ⟨offending, ho, hpair⟩ := Option.map_eq_some_iff.mp hresult
      cases hpair
      exact ⟨region, cause, w', h, ho, (findCases_lines h hformat).2 region 4 cause _ rfl ho⟩
    · cases hresult

end Transcript.Test
