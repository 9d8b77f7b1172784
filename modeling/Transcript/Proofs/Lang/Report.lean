import Transcript.Lang.Interpreter
import Transcript.Proofs.Except
import Transcript.Proofs.Text.Line
import Mathlib.Data.List.TakeWhile

/-!
# Reports of sources that do not compile

A source that does not compile has a syntax error with a message that is never empty and a place in
the source it was compiled as.

Results:
* `compile_eq_error`: what is known of the errors of compilation.
* `Exc.traceback_eq`: the lines that report an exception.
-/

namespace Transcript.Lang

open Text

/-! ## Messages -/

theorem LexProblem.message_ne (p : LexProblem) : p.message ≠ "" := by
  cases p <;> decide

theorem ScopeProblem.message_ne (p : ScopeProblem) : p.message ≠ "" := by
  cases p <;> decide

theorem append_ne_empty {s : String} (h : s ≠ "") (t : String) : s ++ t ≠ "" := by
  intro hst
  have hchars := congrArg String.toList hst
  rw [String.toList_append, String.toList_empty, List.append_eq_nil_iff] at hchars
  exact h (String.toList_inj.mp hchars.1)

theorem ParseProblem.message_ne (before : List Char) (p : ParseProblem) :
    (p.message before).1 ≠ "" := by
  cases p with
  | unexpected t =>
    unfold ParseProblem.message
    dsimp only
    split
    · split_ifs
      · simp
      · simp
    · split_ifs
      · simp
      · simp
    · simp
    · simp
  | repeatedArgument name =>
    unfold ParseProblem.message
    exact append_ne_empty (by simp) name
  | _ =>
    unfold ParseProblem.message
    simp

/-! ## Places -/

theorem feed_not_mem_takeWhile (s : List Char) : '\n' ∉ s.takeWhile (· != '\n') := by
  intro h
  simpa using List.mem_takeWhile_imp h

theorem placeAt_text (source : List Char) (filename : String) (offset : Nat) :
    '\n' ∉ (placeAt source filename offset).text := by
  unfold placeAt
  rw [List.mem_append, not_or, List.mem_reverse]
  exact ⟨feed_not_mem_takeWhile _, feed_not_mem_takeWhile _⟩

theorem placeOnLine_text (source : List Char) (filename : String) (line : Nat) (message : String) :
    '\n' ∉ (placeOnLine source filename line message).text := by
  unfold placeOnLine
  cases h : (lines source)[line - 1]? with
  | none => simp
  | some l => exact feed_not_mem_of_mem_lines (List.mem_of_getElem? h)

/-! ## Errors of compilation -/

/-- **What is known of an error of compilation.** -/
structure CompileError.IsGrammatical (e : CompileError) (filename : String) : Prop where
  /-- It is a syntax error. -/
  kind : e.kind = .syntaxError ∨ e.kind = .indentationError
  /-- It says something. -/
  message_ne : e.message ≠ ""
  /-- It points at the source. -/
  filename_eq : e.place.filename = filename
  /-- It points at one line. -/
  feed_not_mem : '\n' ∉ e.place.text

theorem statements_eq_error {source : List Char} {filename : String} {e : CompileError}
    (h : statements source filename = .error e) : e.IsGrammatical filename := by
  unfold statements at h
  split at h
  · cases h
    refine ⟨?_, LexProblem.message_ne _, rfl, placeAt_text _ _ _⟩
    dsimp only
    split_ifs
    · exact .inr rfl
    · exact .inl rfl
  · split at h
    · cases h
      refine ⟨?_, ParseProblem.message_ne _ _, rfl, placeAt_text _ _ _⟩
      generalize (ParseProblem.message _ _).2 = isIndentation
      split_ifs
      · exact .inr rfl
      · exact .inl rfl
    · cases h

theorem suits_eq_error {mode : Mode} {body : List Stmt} {source : List Char} {filename : String}
    {e : CompileError} (h : suits mode body source filename = .error e) :
    e.IsGrammatical filename := by
  unfold suits at h
  split at h
  · split at h
    · cases h
    · split at h
      · cases h
      · cases h
        exact ⟨.inl rfl, by simp, rfl, placeOnLine_text _ _ _ _⟩
  · split at h
    · cases h
    · cases h
      exact ⟨.inl rfl, by simp, rfl, placeAt_text _ _ _⟩
  · cases h

/-- **A source that does not compile** has a syntax error with a message and a place in it. -/
theorem compile_eq_error {source : List Char} {filename : String} {mode : Mode}
    {topLevelAwait : Bool} {e : CompileError}
    (h : compile source filename mode topLevelAwait = .error e) : e.IsGrammatical filename := by
  unfold compile at h
  rcases Except.bind_eq_error.mp h with h | ⟨body, -, h⟩
  · exact statements_eq_error h
  rcases Except.bind_eq_error.mp h with h | ⟨⟨⟩, -, h⟩
  · exact suits_eq_error h
  split at h
  · cases h
    exact ⟨.inl rfl, ScopeProblem.message_ne _, rfl, placeOnLine_text _ _ _ _⟩
  · dsimp only at h
    split_ifs at h
    · cases h
      exact ⟨.inl rfl, by simp, rfl, placeOnLine_text _ _ _ _⟩

/-! ## Reports -/

theorem Exc.reportLines_apply (e : Exc) (w : World) :
    e.reportLines w = (w.message? e.toRaised).map fun m =>
      ((e.place.map placeLines).getD [] ++ [kindLine e.kind m], w) := by
  unfold reportLines Host.message Host.ofOption
  cases h : w.message? e.toRaised with
  | none => simp [bind, StateT.bind, h]
  | some m =>
    simp only [bind, StateT.bind, h, Option.map_some]
    rfl

/-- The line that places an exception without a place of its own. -/
def modulePlace (filename : String) : List Char :=
  s!"  File \"{filename}\", line 1, in <module>\n".toList

theorem Exc.traceback_apply (e : Exc) (filename : String) (w : World) :
    e.traceback filename w = (w.message? e.toRaised).map fun m =>
      (tracebackHeading ++ (if e.place.isNone then modulePlace filename else []) ++
        ((e.place.map placeLines).getD [] ++ [kindLine e.kind m]).flatten, w) := by
  unfold traceback modulePlace
  have hlines := e.reportLines_apply w
  cases h : w.message? e.toRaised with
  | none =>
    rw [h] at hlines
    simp [bind, StateT.bind, hlines]
  | some m =>
    rw [h] at hlines
    cases hp : e.place with
    | none =>
      simp only [bind, StateT.bind, hlines, hp, Option.map_some, Option.map_none]
      rfl
    | some p =>
      simp only [bind, StateT.bind, hlines, hp, Option.map_some]
      rfl

theorem CompileError.message?_toExc (e : CompileError) (identity : Nat) (w : World)
    {filename : String} (h : e.IsGrammatical filename) :
    w.message? (e.toExc identity).toRaised = some e.message.toList := by
  have hkind : e.kind ≠ .keyError := by
    rcases h.kind with hk | hk
    · rw [hk]
      decide
    · rw [hk]
      decide
  unfold World.message? World.depthFor CompileError.toExc
  rw [Nat.add_succ, excMessage?]
  simp only [hkind, if_false]
  rfl

/-! ## Exceptions that reach the host -/

theorem Host.ofEval_error {α : Type} {x : Eval α} {w w' : World} {e : Exc}
    (h : Host.ofEval x w = some (.error e, w')) : e.place = none := by
  unfold Host.ofEval at h
  split at h
  · rename_i r w₁ _
    cases r with
    | ok v => cases h
    | error r =>
      cases h
      rfl
  · cases h
    rfl
  · cases h

/-- An exception of evaluated code has no place. -/
theorem evaluate_error {code : Code} {globals : Ref} {w w' : World} {e : Exc}
    (h : evaluate code globals w = some (.error e, w')) : e.place = none := by
  unfold evaluate at h
  split_ifs at h
  · exact Host.ofEval_error h
  · exact Host.ofEval_error h

/-- An exception of a value that was awaited has no place. -/
theorem OpenLoop.complete_error {l l' : OpenLoop} {v : Value} {w w' : World} {e : Exc}
    (h : l.complete v w = some ((.error e, l'), w')) : e.place = none := by
  unfold OpenLoop.complete at h
  cases hd : driveOn (runCoroutine plainly horizon) l.ref horizon (awaitValue plainly horizon v)
    l.threads w with
  | error why =>
    rw [hd] at h
    cases h
  | ok r =>
    obtain ⟨o, threads, w₁⟩ := r
    rw [hd] at h
    cases o with
    | ok v => cases h
    | error r =>
      cases h
      rfl

/-! ## The lines of a report -/

/-- A line that does not start with a word character. -/
def IsQuiet (line : List Char) : Prop := ∀ c ∈ line.head?, isWord c = false

theorem isQuiet_cons {c : Char} (h : isWord c = false) (cs : List Char) : IsQuiet (c :: cs) := by
  intro d hd
  rw [List.head?_cons, Option.mem_some] at hd
  rw [← hd]
  exact h

theorem IsQuiet.append {s t : List Char} (hs : IsQuiet s) (ht : IsQuiet t) : IsQuiet (s ++ t) := by
  cases s with
  | nil => exact ht
  | cons c cs => exact isQuiet_cons (hs c rfl) (cs ++ t)

/-- A text whose lines after the first are quiet stays one when it is put between parts of lines. -/
theorem isQuiet_of_mem_tail {s a b : List Char} (hs : ∀ l ∈ (segments s).tail, IsQuiet l)
    (ha : '\n' ∉ a) (hb : '\n' ∉ b) (hquiet : IsQuiet b) :
    ∀ l ∈ (segments (a ++ (s ++ b))).tail, IsQuiet l := by
  obtain ⟨init, last, hinit, happend⟩ := segments_append_right s hb
  rw [segments_append_left ha, List.tail_cons, happend]
  rw [hinit] at hs
  cases init with
  | nil =>
    intro l hl
    exact absurd hl (by simp)
  | cons f fs =>
    rw [List.cons_append, List.tail_cons] at hs ⊢
    intro l hl
    rcases List.mem_append.mp hl with hl | hl
    · exact hs l (List.mem_append_left _ hl)
    · rw [List.mem_singleton.mp hl]
      exact (hs last (by simp)).append hquiet

/-- If the first line is quiet, too, all lines are. -/
theorem isQuiet_of_mem_segments {s a b : List Char} (hs : ∀ l ∈ (segments s).tail, IsQuiet l)
    {c : Char} (hc : isWord c = false) (ha : '\n' ∉ c :: a) (hb : '\n' ∉ b) (hquiet : IsQuiet b) :
    ∀ l ∈ segments (c :: a ++ (s ++ b)), IsQuiet l := by
  have htail := isQuiet_of_mem_tail hs ha hb hquiet
  rw [segments_append_left ha] at htail ⊢
  intro l hl
  rcases List.mem_cons.mp hl with rfl | hl
  · exact isQuiet_cons hc _
  · exact htail l hl

theorem feed_not_mem_toDigits (n : Nat) : '\n' ∉ Nat.toDigits 10 n := by
  intro h
  have := Nat.isDigit_of_mem_toDigits (by decide) (by decide) h
  exact absurd this (by decide)

/-- **A part of a report that starts no line with a word character:** quiet lines, each ended. -/
def IsQuietText (text : List Char) : Prop :=
  ∃ ls, (∀ l ∈ ls, '\n' ∉ l ∧ IsQuiet l) ∧ text = endedLines ls

theorem IsQuietText.append {s t : List Char} (hs : IsQuietText s) (ht : IsQuietText t) :
    IsQuietText (s ++ t) := by
  obtain ⟨ls, hls, rfl⟩ := hs
  obtain ⟨ms, hms, rfl⟩ := ht
  refine ⟨ls ++ ms, fun l hl => ?_, (endedLines_append ls ms).symm⟩
  exact (List.mem_append.mp hl).elim (hls l) (hms l)

theorem isQuietText_line {l : List Char} (hfeed : '\n' ∉ l) (hl : IsQuiet l) :
    IsQuietText (l ++ ['\n']) :=
  ⟨[l], by simp [hfeed, hl], by simp⟩

/-- A text between parts of lines, ended. -/
theorem isQuietText_of_tail {s a b : List Char} (hs : ∀ l ∈ (segments s).tail, IsQuiet l)
    {c : Char} (hc : isWord c = false) (ha : '\n' ∉ c :: a) (hb : '\n' ∉ b) (hquiet : IsQuiet b) :
    IsQuietText (c :: a ++ (s ++ b) ++ ['\n']) :=
  ⟨segments (c :: a ++ (s ++ b)),
    fun l hl => ⟨feed_not_mem_of_mem_segments hl, isQuiet_of_mem_segments hs hc ha hb hquiet l hl⟩,
    (endedLines_segments _).symm⟩

variable {filename : String} (hname : ∀ l ∈ (segments filename.toList).tail, IsQuiet l)
include hname

theorem isQuietText_modulePlace : IsQuietText (modulePlace filename) := by
  have h : modulePlace filename = "  File \"".toList ++
      (filename.toList ++ "\", line 1, in <module>".toList) ++ ['\n'] := by
    simp [modulePlace, toString]
  rw [h]
  exact isQuietText_of_tail hname (by decide) (by decide) (by decide) (isQuiet_cons (by decide) _)

theorem isQuietText_placeLines {p : SourcePlace} (hp : p.filename = filename)
    (hfeed : '\n' ∉ p.text) : IsQuietText (placeLines p).flatten := by
  have hhead : IsQuietText s!"  File \"{p.filename}\", line {p.line}\n".toList := by
    have h : s!"  File \"{p.filename}\", line {p.line}\n".toList = "  File \"".toList ++
        (p.filename.toList ++ ("\", line ".toList ++ Nat.toDigits 10 p.line)) ++ ['\n'] := by
      simp [toString, Nat.repr]
    rw [h, hp]
    refine isQuietText_of_tail hname (by decide) (by decide) ?_ (isQuiet_cons (by decide) _)
    rw [List.mem_append, not_or]
    exact ⟨by decide, feed_not_mem_toDigits p.line⟩
  unfold placeLines
  dsimp only
  split_ifs
  · rw [List.flatten_cons, List.flatten_nil, List.append_nil]
    exact hhead
  · rw [List.flatten_cons, List.flatten_cons, List.flatten_cons, List.flatten_nil, List.append_nil]
    refine hhead.append (IsQuietText.append (isQuietText_line ?_ (isQuiet_cons (by decide) _)) ?_)
    · rw [List.mem_append, not_or]
      refine ⟨by decide, fun hf => hfeed ?_⟩
      exact (trimEnd_isPrefix p.text).subset ((List.dropWhile_suffix isBlank).subset hf)
    · have hcaret (n : Nat) : "    ".toList ++ List.replicate n ' ' ++ ['^', '\n'] =
          ' ' :: ("   ".toList ++ List.replicate n ' ' ++ ['^']) ++ ['\n'] := by simp
      rw [hcaret]
      refine isQuietText_line ?_ (isQuiet_cons (by decide) _)
      simp

/-- The heading of a report without its line end. -/
def headingLine : List Char := "Traceback (most recent call last):".toList

omit hname in
theorem tracebackHeading_append (rest : List Char) :
    tracebackHeading ++ rest = headingLine ++ '\n' :: rest := by
  have h : tracebackHeading = headingLine ++ ['\n'] := by decide
  rw [h, List.append_assoc, List.singleton_append]

omit hname in
/-- The name of a kind starts with a word character. -/
theorem ExceptionKind.qualifiedName_eq (kind : ExceptionKind) :
    ∃ c cs, isWord c = true ∧ kind.qualifiedName.toList = c :: cs := by
  cases kind
  all_goals exact ⟨_, _, by decide, rfl⟩

omit hname in
/-- The line with the kind and the message starts with a word character. -/
theorem kindLine_eq (kind : ExceptionKind) (message : List Char) :
    ∃ c cs, isWord c = true ∧ kindLine kind message = c :: cs ++ ['\n'] := by
  obtain ⟨c, cs, hc, hcs⟩ := kind.qualifiedName_eq
  unfold kindLine
  split_ifs
  · exact ⟨c, cs, hc, by rw [hcs]⟩
  · exact ⟨c, cs ++ [':', ' '] ++ message, hc, by rw [hcs]; rfl⟩

/-- **An exception of a source with a name:** a program has raised it, or the source does not
compile. -/
def Exc.IsOf (e : Exc) (filename : String) : Prop :=
  e.place = none ∨ ∃ ce identity, CompileError.IsGrammatical ce filename ∧ e = ce.toExc identity

/-- **The lines of a report:** a heading, quiet lines, and the kind with the message. -/
theorem Exc.traceback_eq {e : Exc} (he : e.IsOf filename) {w w' : World} {T : List Char}
    (h : e.traceback filename w = some (T, w')) :
    ∃ quiet m, IsQuietText quiet ∧ w.message? e.toRaised = some m ∧ w' = w ∧
      T = tracebackHeading ++ (quiet ++ kindLine e.kind m) := by
  rw [Exc.traceback_apply, Option.map_eq_some_iff] at h
  obtain ⟨m, hm, h⟩ := h
  cases h
  rcases he with hp | ⟨ce, identity, hce, rfl⟩
  · refine ⟨modulePlace filename, m, isQuietText_modulePlace hname, hm, rfl, ?_⟩
    simp [hp]
  · refine ⟨(placeLines ce.place).flatten, m,
      isQuietText_placeLines hname hce.filename_eq hce.feed_not_mem, hm, rfl, ?_⟩
    simp [CompileError.toExc]

end Transcript.Lang
