import Transcript.Proofs.Compare.BlankLine
import Transcript.Proofs.Lang.Report
import Transcript.Proofs.Session.Prompt
import Transcript.Test.Runner

/-!
# Recorded sessions pass

What a statement shows is recorded: its output, or the report of the exception it ends with. A
session made of the statement behind prompts and the record, with markers for blank lines, is read
back as one example with the statement, and running it in the same state is a success.

Results:
* `Executor.runStatement_error`: what exceptions a statement can end with.
* `messageLines_flatten`: what is compared of the report of an exception.
* `judge_traceback`: the record of an exception is accepted as its expectation.
* `recorded_session_passes`: recorded sessions pass.
-/

namespace Transcript.Test

open Lang Text

/-! ## Exceptions of statements -/

theorem Executor.runCode_error {x x' : Executor} {code : Code} {space : Ref} {w w' : World}
    {e : Exc} (h : x.runCode code space w = some ((.error e, x'), w')) : e.place = none := by
  unfold Executor.runCode at h
  cases hev : evaluate code space w with
  | none =>
    simp [bind, StateT.bind, hev] at h
  | some r =>
    obtain ⟨o, w₁⟩ := r
    simp only [bind, StateT.bind, hev, Option.bind] at h
    cases o with
    | error e₁ =>
      cases h
      exact evaluate_error hev
    | ok v =>
      cases hco : code.isCoroutine with
      | false =>
        rw [hco] at h
        cases h
      | true =>
        rw [hco] at h
        cases x with
        | none => cases h
        | some l =>
          simp only [StateT.bind, bind, Option.bind] at h
          cases hc : l.complete v w₁ with
          | none =>
            rw [hc] at h
            cases h
          | some r =>
            obtain ⟨⟨o, l'⟩, w₂⟩ := r
            rw [hc] at h
            cases h
            exact OpenLoop.complete_error hc

/-- **An exception of a statement** has no place, unless the statement does not compile. -/
theorem Executor.runStatement_error {x x' : Executor} {source : List Char} {filename : String}
    {space : Ref} {w w' : World} {e : Exc}
    (h : x.runStatement source filename space w = some ((.error e, x'), w')) :
    e.IsOf filename := by
  unfold Executor.runStatement at h
  simp only [bind, StateT.bind, compileSource, Option.bind] at h
  cases hc : compile source filename .single x.isSome with
  | ok code =>
    rw [hc] at h
    exact .inl (Executor.runCode_error h)
  | error ce =>
    rw [hc] at h
    cases h
    exact .inr ⟨ce, _, compile_eq_error hc, rfl⟩

/-! ## What is compared of a report -/

theorem placeLines_head {p : SourcePlace} {l : List Char} (h : l ∈ placeLines p) :
    l.head? = some ' ' := by
  unfold placeLines at h
  dsimp only at h
  split_ifs at h
  · rw [List.mem_singleton] at h
    rw [h]
    simp [toString]
  · simp only [List.mem_cons, List.not_mem_nil, or_false] at h
    rcases h with rfl | rfl | rfl
    · simp [toString]
    · rfl
    · rfl

/-- **What is compared of a report** is the kind and the message. -/
theorem messageLines_flatten {e : Exc} {filename : String} (he : e.IsOf filename) {w : World}
    {m : List Char} (hm : w.message? e.toRaised = some m) :
    (messageLines e.kind ((e.place.map placeLines).getD [] ++ [kindLine e.kind m])).flatten =
      kindLine e.kind m := by
  unfold messageLines
  dsimp only
  rcases he with hp | ⟨ce, identity, hce, rfl⟩
  · rw [hp, Option.map_none, Option.getD_none, List.nil_append]
    split_ifs with hk
    · rw [Bool.and_eq_true, List.any_cons, List.any_nil, Bool.or_false] at hk
      rw [List.dropWhile_cons_of_neg (by rw [hk.2]; decide)]
      simp
    · simp
  · have hmessage : m = ce.message.toList := by
      rw [ce.message?_toExc identity w hce] at hm
      exact (Option.some.inj hm).symm
    have hne : m ≠ [] := by
      rw [hmessage]
      exact fun h => hce.message_ne (String.toList_eq_nil_iff.mp h)
    have hsub : ce.kind.isSubclass .syntaxError = true := by
      rcases hce.kind with h | h
      · rw [h]
        decide
      · rw [h]
        decide
    have hstart : (ce.kind.qualifiedName ++ ":").toList.isPrefixOf (kindLine ce.kind m) = true := by
      rw [List.isPrefixOf_iff_prefix, String.toList_append, kindLine, if_neg (by simpa using hne)]
      exact ⟨' ' :: (m ++ ['\n']), by simp⟩
    have hplace : ∀ l ∈ placeLines ce.place,
        (!(ce.kind.qualifiedName ++ ":").toList.isPrefixOf l) = true := by
      intro l hl
      obtain ⟨c, cs, hc, hcs⟩ := ce.kind.qualifiedName_eq
      obtain ⟨ls, rfl⟩ := List.head?_eq_some_iff.mp (placeLines_head hl)
      have hspace : c ≠ ' ' := by
        rintro rfl
        exact absurd hc (by decide)
      rw [String.toList_append, hcs, List.cons_append, List.isPrefixOf_cons_cons]
      simp [hspace]
    have hkind : (ce.toExc identity).kind = ce.kind := rfl
    have hplaces : ((ce.toExc identity).place.map placeLines).getD [] = placeLines ce.place := rfl
    rw [hkind, hplaces, if_pos, List.dropWhile_append_of_pos hplace,
      List.dropWhile_cons_of_neg (by rw [hstart]; decide)]
    · simp
    · rw [hsub, List.any_append, List.any_cons, hstart, Bool.true_or, Bool.or_true, Bool.and_true]

/-! ## Recording -/

/-- What a statement does, and what runs the next one. -/
def attempt (x : Executor) (source : List Char) (filename : String) (space : Ref) :
    Host (Attempt × Executor) := do
  let (o, x) ← x.runStatement source filename space
  let output ← Host.takeOutput
  return (⟨output, match o with
    | .ok _ => none
    | .error exc => some exc⟩, x)

/-- **The record of a statement:** what it shows, or the report of the exception it ends with.
There is none where it was interrupted. -/
def record (x : Executor) (source : List Char) (filename : String) (space : Ref) :
    Host (Option (List Char)) := do
  let (a, _) ← attempt x source filename space
  match a.raised with
  | none => return some a.output
  | some e => if e.kind = .keyboardInterrupt then return none else some <$> e.traceback filename

/-- **Lines that can stand below a statement:** they have no tabs, and none of them is taken for a
marker, a prompt or, at the beginning, for a continuation. -/
structure RecordLines (ls : List (List Char)) : Prop where
  /-- There are no tabs. -/
  tab_not_mem : ∀ l ∈ ls, '\t' ∉ l
  /-- Blank lines are made of spaces. -/
  spaces : ∀ l ∈ ls, allBlank l = true → l.all (· == ' ') = true
  /-- No line is a marker. -/
  not_marker : ∀ l ∈ ls, Compare.isMarkerLine l = false
  /-- No line is a prompt. -/
  not_prompt : ∀ l ∈ ls, Session.promptIndent? l = none
  /-- The first line is no continuation. -/
  first : ∀ l ∈ ls.head?, Session.isContinuation l = false

/-- **A record that can stand in a session:** its last line is ended, too. -/
structure Recordable (record : List Char) : Prop where
  /-- It is empty or ends its last line. -/
  ended : record = [] ∨ record.getLast? = some '\n'
  /-- Its lines can stand below a statement. -/
  lines : RecordLines (segments record)

instance (ls : List (List Char)) : Decidable (RecordLines ls) :=
  decidable_of_iff ((∀ l ∈ ls, '\t' ∉ l) ∧ (∀ l ∈ ls, allBlank l = true → l.all (· == ' ') = true) ∧
      (∀ l ∈ ls, Compare.isMarkerLine l = false) ∧ (∀ l ∈ ls, Session.promptIndent? l = none) ∧
      ∀ l ∈ ls.head?, Session.isContinuation l = false)
    ⟨fun ⟨h₁, h₂, h₃, h₄, h₅⟩ => ⟨h₁, h₂, h₃, h₄, h₅⟩,
      fun h => ⟨h.tab_not_mem, h.spaces, h.not_marker, h.not_prompt, h.first⟩⟩

instance (record : List Char) : Decidable (Recordable record) :=
  decidable_of_iff ((record = [] ∨ record.getLast? = some '\n') ∧ RecordLines (segments record))
    ⟨fun ⟨h, h'⟩ => ⟨h, h'⟩, fun h => ⟨h.ended, h.lines⟩⟩

theorem Recordable.exists_lines {record : List Char} (h : Recordable record) :
    ∃ ls, (∀ l ∈ ls, '\n' ∉ l) ∧ RecordLines ls ∧ record = endedLines ls := by
  obtain ⟨ls, hfeed, heq, hsegments⟩ := eq_endedLines h.ended
  have hlines := h.lines
  rw [hsegments] at hlines
  have mem {l : List Char} (hl : l ∈ ls) : l ∈ ls ++ [[]] := List.mem_append_left _ hl
  refine ⟨ls, hfeed, ⟨fun l hl => hlines.tab_not_mem l (mem hl), fun l hl => hlines.spaces l (mem hl),
    fun l hl => hlines.not_marker l (mem hl), fun l hl => hlines.not_prompt l (mem hl), ?_⟩, heq⟩
  intro l hl
  refine hlines.first l ?_
  rw [List.head?_append, Option.mem_def.mp hl]
  rfl

namespace RecordLines

variable {ls : List (List Char)} (hfeed : ∀ l ∈ ls, '\n' ∉ l) (h : RecordLines ls)
include hfeed h

/-- A record with markers can stand behind a statement. -/
theorem isShowable : Session.IsShowable (ls.map Compare.markedLine) where
  feed_not_mem := by
    intro l hl
    obtain ⟨m, hm, rfl⟩ := List.mem_map.mp hl
    exact Compare.feed_not_mem_markedLine (hfeed m hm)
  tab_not_mem := by
    intro l hl
    obtain ⟨m, hm, rfl⟩ := List.mem_map.mp hl
    unfold Compare.markedLine
    split_ifs
    · decide
    · exact h.tab_not_mem m hm
  isOutput := by
    intro l hl
    obtain ⟨m, hm, rfl⟩ := List.mem_map.mp hl
    unfold Session.isOutput
    rw [Compare.not_allBlank_markedLine (h.spaces m hm)]
    unfold Compare.markedLine
    split_ifs
    · decide
    · rw [h.not_prompt m hm]
      rfl
  first := by
    intro l hl
    rw [List.head?_map, Option.mem_def, Option.map_eq_some_iff] at hl
    obtain ⟨m, hm, rfl⟩ := hl
    unfold Compare.markedLine
    split_ifs
    · decide
    · exact h.first m hm

/-- A record is accepted for the record with markers. -/
theorem accepts {flags : FlagSet} (hflags : flags.has .dontAcceptBlankline = false) :
    Compare.accepts (endedLines (ls.map Compare.markedLine)) (endedLines ls) flags = true := by
  rw [← Compare.markBlankLines_endedLines hfeed]
  exact Compare.accepts_markBlankLines hfeed h.spaces h.not_marker hflags

end RecordLines

/-! ## Judging against the record -/

theorem isQuiet_markedLine {l : List Char} (h : IsQuiet l) : IsQuiet (Compare.markedLine l) := by
  unfold Compare.markedLine
  split_ifs
  · exact isQuiet_cons (by decide) _
  · exact h

/-- The lines of the kind and the message keep their beginning when they are marked. -/
theorem marked_kindLine (kind : ExceptionKind) (m : List Char) :
    ∃ ls c cs, (∀ l ∈ ls, '\n' ∉ l) ∧ kindLine kind m = endedLines ls ∧ isWord c = true ∧
      endedLines (ls.map Compare.markedLine) = c :: cs := by
  obtain ⟨c, cs, hc, hline⟩ := kindLine_eq kind m
  have hfeed : c ≠ '\n' := by
    rintro rfl
    exact absurd hc (by decide)
  have hspace : (c == ' ') = false := by
    rw [beq_eq_false_iff_ne]
    rintro rfl
    exact absurd hc (by decide)
  refine ⟨segments (c :: cs), c, (segments cs).headD [] ++
    '\n' :: endedLines ((segments cs).tail.map Compare.markedLine),
    fun l hl => feed_not_mem_of_mem_segments hl, ?_, hc, ?_⟩
  · rw [hline, endedLines_segments]
  · rw [segments_cons, if_neg hfeed, List.map_cons, endedLines_cons, Compare.markedLine, if_neg]
    · rfl
    · rw [List.all_cons, hspace, Bool.false_and]
      exact Bool.false_ne_true

/-- **The record of an exception is accepted** as what documents it. -/
theorem judge_traceback {e : Exc} {filename : String}
    (hname : ∀ l ∈ (segments filename.toList).tail, IsQuiet l) (he : e.IsOf filename)
    (hkind : e.kind ≠ .keyboardInterrupt) {w w' : World} {ls : List (List Char)}
    (h : e.traceback filename w = some (endedLines ls, w')) (hfeed : ∀ l ∈ ls, '\n' ∉ l)
    (hls : RecordLines ls) {flags : FlagSet} (hflags : flags.has .dontAcceptBlankline = false)
    {ex : Session.Example} (location : Location) (quiet : Bool) (output : List Char)
    (hex : ex.message = (Session.documentedMessage? (endedLines (ls.map Compare.markedLine))).map
      Session.endLine) :
    judge location ex filename flags quiet ⟨output, some e⟩ w = some (.success, w) := by
  obtain ⟨_, m, ⟨qs, hqs, rfl⟩, hm, rfl, hT⟩ := Exc.traceback_eq hname he h
  obtain ⟨ks, c, cs, hks, hkindLine, hc, hmarked⟩ := marked_kindLine e.kind m
  have hparts : ls = headingLine :: (qs ++ ks) := by
    refine endedLines_inj hfeed ?_ ?_
    · intro l hl
      rcases List.mem_cons.mp hl with rfl | hl
      · decide
      · exact (List.mem_append.mp hl).elim (fun h => (hqs l h).1) (hks l)
    · rw [hT, hkindLine, tracebackHeading_append, endedLines_cons, endedLines_append]
  have hmessage : ex.message = some (endedLines (ks.map Compare.markedLine)) := by
    have hquiet : ∀ l ∈ qs.map Compare.markedLine, '\n' ∉ l ∧ IsQuiet l := by
      intro l hl
      obtain ⟨q, hq, rfl⟩ := List.mem_map.mp hl
      exact ⟨Compare.feed_not_mem_markedLine (hqs q hq).1, isQuiet_markedLine (hqs q hq).2⟩
    have hends : (endedLines (ks.map Compare.markedLine)).getLast? = some '\n' := by
      refine endedLines_getLast? fun hnil => ?_
      rw [hnil] at hmarked
      cases hmarked
    have hheading : Compare.markedLine headingLine = headingLine := by decide
    rw [hex, hparts, List.map_cons, List.map_append, endedLines_cons, endedLines_append, hheading,
      hmarked, Session.documentedMessage?_traceback (show headingLine = _ from rfl)
        (fun l hl => (hquiet l hl).1) (fun l hl => (hquiet l hl).2) hc, Option.map_some, ← hmarked, Session.endLine, if_pos hends]
  have mem {l : List Char} (hl : l ∈ ks) : l ∈ ls := by
    rw [hparts]
    exact List.mem_cons_of_mem _ (List.mem_append_right qs hl)
  have haccepts : acceptsMessage (endedLines (ks.map Compare.markedLine)) (endedLines ks) flags =
      true := by
    unfold acceptsMessage
    rw [← Compare.markBlankLines_endedLines hks, Compare.accepts_markBlankLines hks
      (fun l hl => hls.spaces l (mem hl)) (fun l hl => hls.not_marker l (mem hl)) hflags,
      Bool.true_or]
  have hlines : (messageLines e.kind ((e.place.map placeLines).getD [] ++
      [kindLine e.kind m])).flatten = endedLines ks := by
    rw [messageLines_flatten he hm, hkindLine]
  obtain ⟨traceback, ht⟩ : ∃ t, tracebackUnless quiet e filename w' = some (t, w') := by
    unfold tracebackUnless
    split
    · exact ⟨[], rfl⟩
    · exact ⟨_, h⟩
  unfold judge
  simp only [hkind, if_false, hmessage, bind, StateT.bind, ht, Option.bind, Exc.reportLines_apply,
    hm, Option.map_some]
  rw [hlines, if_pos haccepts]
  rfl

theorem runExample_apply (case : Case) (index : Nat) (e : Session.Example) (flags : FlagSet)
    (quiet : Bool) (x : Executor) (w : World) :
    runExample case index e flags quiet x w =
      (attempt x e.source (statementName case.region.name index) case.space w).bind fun r =>
        (judge ⟨case.region.name, case.region.filename, case.region.lineOf e⟩ e
          (statementName case.region.name index) flags quiet r.1.1 r.2).bind fun v =>
            some ((v.1, r.1.2), v.2) := by
  unfold runExample attempt
  simp only [bind, StateT.bind, Option.bind]
  cases x.runStatement e.source (statementName case.region.name index) case.space w with
  | none => rfl
  | some r =>
    obtain ⟨⟨o, x'⟩, w₁⟩ := r
    rfl

theorem attempt_raised {x x' : Executor} {source : List Char} {filename : String} {space : Ref}
    {w w' : World} {a : Attempt} {e : Exc}
    (h : attempt x source filename space w = some ((a, x'), w')) (he : a.raised = some e) :
    e.IsOf filename := by
  unfold attempt at h
  simp only [bind, StateT.bind, Option.bind] at h
  cases hs : x.runStatement source filename space w with
  | none =>
    rw [hs] at h
    cases h
  | some r =>
    obtain ⟨⟨o, x₁⟩, w₁⟩ := r
    rw [hs] at h
    cases h
    cases o with
    | ok v => cases he
    | error exc =>
      cases he
      exact Executor.runStatement_error hs

/-- **What a record holds:** what the statement wrote, or the traceback of its exception. -/
theorem record_eq_some {x : Executor} {source : List Char} {filename : String} {space : Ref}
    {w w' : World} {T : List Char} (h : record x source filename space w = some (some T, w')) :
    ∃ a x' w₁, attempt x source filename space w = some ((a, x'), w₁) ∧
      (a.raised = none ∧ a.output = T ∨
        ∃ e w₂, a.raised = some e ∧ e.kind ≠ .keyboardInterrupt ∧
          e.traceback filename w₁ = some (T, w₂)) := by
  unfold record at h
  simp only [bind, StateT.bind, Option.bind] at h
  cases ha : attempt x source filename space w with
  | none =>
    rw [ha] at h
    cases h
  | some r =>
    obtain ⟨⟨⟨output, raised⟩, x'⟩, w₁⟩ := r
    rw [ha] at h
    refine ⟨_, x', w₁, rfl, ?_⟩
    cases raised with
    | none =>
      cases h
      exact .inl ⟨rfl, rfl⟩
    | some e =>
      dsimp only at h
      by_cases hkind : e.kind = .keyboardInterrupt
      · rw [if_pos hkind] at h
        cases h
      · rw [if_neg hkind] at h
        simp only [Functor.map, StateT.map] at h
        cases ht : e.traceback filename w₁ with
        | none =>
          rw [ht] at h
          cases h
        | some r =>
          obtain ⟨text, w₂⟩ := r
          rw [ht] at h
          cases h
          exact .inr ⟨e, w₂, rfl, hkind, ht⟩

/-- The file name of a statement is as quiet as the name of its test. -/
theorem isQuiet_statementName {name : String}
    (hname : ∀ l ∈ (segments name.toList).tail, IsQuiet l) :
    ∀ l ∈ (segments (statementName name 0).toList).tail, IsQuiet l := by
  have h : (statementName name 0).toList =
      "<doctest ".toList ++ (name.toList ++ "[0]>".toList) := by
    simp [statementName, toString, Nat.repr]
  rw [h]
  exact isQuiet_of_mem_tail hname (by decide) (by decide) (isQuiet_cons (by decide) _)

/-- **Running the statement of a record again** is a success. -/
theorem runExample_recorded (case : Case) {x : Executor} {source : List Char} {w w' : World}
    {T : List Char} {ls : List (List Char)}
    (hname : ∀ l ∈ (segments case.region.name.toList).tail, IsQuiet l)
    (hrecord : record x source (statementName case.region.name 0) case.space w = some (some T, w'))
    (hT : T = endedLines ls) (hfeed : ∀ l ∈ ls, '\n' ∉ l) (hls : RecordLines ls) {flags : FlagSet}
    (hflags : flags.has .dontAcceptBlankline = false) {e : Session.Example}
    (hsource : e.source = source) (hwant : e.want = endedLines (ls.map Compare.markedLine))
    (hmessage : e.message = (Session.documentedMessage? e.want).map Session.endLine) :
    ∃ x' w'', ∀ quiet, runExample case 0 e flags quiet x w = some ((.success, x'), w'') := by
  subst hT
  obtain ⟨⟨output, raised⟩, x', w₁, ha, hended⟩ := record_eq_some hrecord
  refine ⟨x', w₁, fun quiet => ?_⟩
  rw [runExample_apply, hsource, ha, Option.bind_some]
  rcases hended with ⟨hraised, houtput⟩ | ⟨exc, w₂, hraised, hkind, htraceback⟩
  · have haccepts : Compare.accepts e.want output flags = true := by
      rw [hwant, show output = endedLines ls from houtput]
      exact hls.accepts hfeed hflags
    cases hraised
    unfold judge
    dsimp only
    rw [if_pos haccepts]
    rfl
  · have hexc := attempt_raised ha hraised
    cases hraised
    rw [judge_traceback (isQuiet_statementName hname) hexc hkind htraceback hfeed hls hflags _ quiet output
      (by rw [hmessage, hwant])]
    rfl

/-- After a success the run goes on, or ends without a failure. -/
theorem runExamples_success {c : Config} {case : Case} {e : Session.Example} {x x' : Executor}
    {w w' : World} (hskip : (e.overrides.apply c.flags).has .skip = false)
    (h : ∀ quiet, runExample case 0 e (e.overrides.apply c.flags) quiet x w = some ((.success, x'), w'))
    (p : Progress) :
    ∃ p', runExamples c case 0 [e] x p w = some ((none, p', x'), w') ∧
      p'.counts = { p.counts with attempted := p.counts.attempted + 1 } := by
  have counts_writeIf (q : Progress) (b : Bool) (text : List Char) : (q.writeIf b text).counts = q.counts := by
    unfold Progress.writeIf
    split_ifs
    · rfl
    · rfl
  rw [runExamples]
  simp only [hskip, Bool.false_eq_true, if_false, bind, StateT.bind, h, Option.bind, afterVerdict]
  split_ifs
  · refine ⟨_, rfl, ?_⟩
    rw [counts_writeIf, counts_writeIf]
    rfl
  · refine ⟨_, rfl, ?_⟩
    rw [counts_writeIf, counts_writeIf]
    rfl

/-- The session of a statement and its record is read back. -/
theorem ofText_recorded {lines ls : List (List Char)} (hlines : Session.IsStatement lines .empty)
    (hfeed : ∀ l ∈ ls, '\n' ∉ l) (hls : RecordLines ls) (name filename : String) (line : Nat) :
    ∃ r e, Region.ofText (endedLines (Session.promptedLines lines) ++
        Compare.markBlankLines (endedLines ls)) name filename line = .ok r ∧
      r.name = name ∧ r.examples = [e] ∧ e.source = Session.endLine (joinLines lines) ∧
      e.want = endedLines (ls.map Compare.markedLine) ∧
      e.message = (Session.documentedMessage? e.want).map Session.endLine ∧
      e.overrides = .empty := by
  have hsession := Session.read_prompted hlines (hls.isShowable hfeed) name
  have hwant := Session.make_want_endedLines (joinLines lines) (ls.map Compare.markedLine)
    (Session.documentedMessage? (endedLines (ls.map Compare.markedLine))) 0 0 .empty
  rw [Compare.markBlankLines_endedLines hfeed, ← endedLines_append, Region.ofText, hsession]
  refine ⟨_, _, rfl, rfl, rfl, rfl, hwant, ?_, rfl⟩
  rw [hwant]
  rfl

/-- **Recorded sessions pass.** The statement of an example that was read from a session is run and
its record can stand in a session. The statement behind prompts and the record with markers are
then read back as one example with the statement, and running it in the same state is a success.
No line of the test's name but the first may start with a word character: it would be taken for the
message of an exception. -/
theorem recorded_session_passes {text : List Char} {title : String} {es : List Session.Example}
    {e₀ : Session.Example} (hread : Session.read text title = .ok es) (he₀ : e₀ ∈ es)
    (hlast : (segments e₀.source.dropLast).getLast? ≠ some [])
    (hoptions : Session.optionComments e₀.source = []) {c : Config}
    (hskip : c.flags.has .skip = false) (hblank : c.flags.has .dontAcceptBlankline = false)
    {name : String} (hname : ∀ l ∈ (segments name.toList).tail, IsQuiet l)
    {x : Executor} {space : Ref} {w w' : World} {T : List Char}
    (hrecord : record x e₀.source (statementName name 0) space w = some (some T, w'))
    (hT : Recordable T) (filename : String) (line : Nat) :
    ∃ r e, Region.ofText (Session.prompted e₀.source ++ Compare.markBlankLines T) name filename line =
        .ok r ∧
      r.examples = [e] ∧ e.source = e₀.source ∧
      ∀ p, ∃ p' x' w'', runExamples c ⟨r, space⟩ 0 r.examples x p w = some ((none, p', x'), w'') ∧
        p'.counts = { p.counts with attempted := p.counts.attempted + 1 } := by
  obtain ⟨hstatement, hsource, hprompted⟩ :=
    Session.isStatement_of_mem_read hread he₀ hlast hoptions
  obtain ⟨ls, hfeed, hls, hrecorded⟩ := hT.exists_lines
  obtain ⟨r, e, hr, rfl, hexamples, hes, hwant, hmessage, hoverrides⟩ :=
    ofText_recorded hstatement hfeed hls name filename line
  refine ⟨r, e, ?_, hexamples, hes.trans hsource.symm, fun p => ?_⟩
  · rw [hprompted, hrecorded]
    exact hr
  · have hflags : e.overrides.apply c.flags = c.flags := by rw [hoverrides, Overrides.apply_empty]
    obtain ⟨x', w'', hrun⟩ := runExample_recorded ⟨r, space⟩ hname hrecord hrecorded hfeed hls hblank
      (hes.trans hsource.symm) hwant hmessage
    rw [← hflags] at hskip hrun
    obtain ⟨p', hp, htally⟩ := runExamples_success hskip hrun p
    rw [hexamples]
    exact ⟨p', x', w'', hp, htally⟩

/-- What the statement `1/0` shows in a test of a name. -/
def divisionRecord (name : String) : List Char :=
  ("Traceback (most recent call last):\n  File \"<doctest " ++ name ++ "[0]>\", line 1, in <module>\n" ++
    "ZeroDivisionError: division by zero\n").toList

theorem read_division : ∃ e, Session.read ">>> 1/0\n".toList "t" = .ok [e] ∧
    e.source = "1/0\n".toList := by
  have hs : Session.IsStatement ["1/0".toList] .empty :=
    ⟨by decide, by decide, by decide, by decide, 0, "t",
      Session.readOptions_of_no_comment (by decide) 0 "t"⟩
  have ho : Session.IsShowable [] := ⟨by simp, by simp, by simp, by simp⟩
  exact ⟨_, Session.read_prompted hs ho "t", rfl⟩

/-- A division by zero is recorded with its traceback, and its session passes. -/
theorem recorded_division_passes :
    ∃ r e, Region.ofText (">>> 1/0\n".toList ++ divisionRecord "t") "t" "t.rst" 1 = .ok r ∧
      r.examples = [e] ∧ e.source = "1/0\n".toList ∧
      ∀ p, ∃ p' x' w'', runExamples ⟨.empty, false, .report, .immediate⟩ ⟨r, 0⟩ 0 r.examples none p
          World.empty = some ((none, p', x'), w'') ∧
        p'.counts = { p.counts with attempted := p.counts.attempted + 1 } := by
  obtain ⟨e₀, hread, hsource⟩ := read_division
  have hrecord : (record none "1/0\n".toList (statementName "t" 0) 0 World.empty).map (·.1) =
      some (some (divisionRecord "t")) := by decide +kernel
  obtain ⟨⟨T, w'⟩, hrun, hT⟩ := Option.map_eq_some_iff.mp hrecord
  have hrun' : record none e₀.source (statementName "t" 0) 0 World.empty =
      some (some (divisionRecord "t"), w') := by
    rw [hsource, hrun, show T = _ from hT]
  have hrecordable : Recordable (divisionRecord "t") := by decide +kernel
  have hname : ∀ l ∈ (segments "t".toList).tail, IsQuiet l := by
    intro l hl
    rw [show (segments "t".toList).tail = [] by decide] at hl
    exact absurd hl List.not_mem_nil
  have h := recorded_session_passes (c := ⟨.empty, false, .report, .immediate⟩) hread
    List.mem_cons_self (by rw [hsource]; decide) (by rw [hsource]; decide) rfl rfl hname hrun'
    hrecordable "t.rst" 1
  have hmarked : Compare.markBlankLines (divisionRecord "t") = divisionRecord "t" := by decide +kernel
  rw [hsource, hmarked] at h
  exact h

/-- **A name with a line that starts with a word character breaks recorded sessions:** the rest of
the line is taken for the message of the exception. -/
theorem recorded_division_fails :
    (∃ e, Session.read ">>> 1/0\n".toList "t" = .ok [e] ∧ e.source = "1/0\n".toList) ∧
      (segments "1/0\n".toList.dropLast).getLast? ≠ some [] ∧
      Session.optionComments "1/0\n".toList = [] ∧
      (record none "1/0\n".toList (statementName "a\nb" 0) 0 World.empty).map (·.1) =
        some (some (divisionRecord "a\nb")) ∧
      Recordable (divisionRecord "a\nb") ∧
      ((Region.ofText (Session.prompted "1/0\n".toList ++
          Compare.markBlankLines (divisionRecord "a\nb")) "a\nb" "t.rst" 1).toOption.bind fun r =>
        (runExamples ⟨.empty, false, .report, .immediate⟩ ⟨r, 0⟩ 0 r.examples none .zero
          World.empty).map fun q => (r.examples.map (·.source), q.1.2.1.counts.failed)) =
        some (["1/0\n".toList], 1) := by
  exact ⟨read_division, by decide, by decide, by decide +kernel, by decide +kernel, by decide +kernel⟩

end Transcript.Test
