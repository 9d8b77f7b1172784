import Transcript.Proofs.Session.Extent

/-!
# Cuts of a session

Reading a session takes lines by their numbers and cuts texts at positions in bytes: the lines of an
example, the output in the column of its prompt, the message of an exception, what stands before an
option comment, and the prompt that is shown if no blank follows it. Such a cut needs a position of what
is cut, neither behind its end nor inside a character. Here a session is read with all cuts checked.

Results:
* `cutBlock_eq`: of the cuts of an example, only that of the prompt that is shown can fail.
* `readFrom_eq`, `cutRead_eq`: lines are always taken by numbers that they have.
-/

namespace Transcript.Session

open Text

/-! ## Reading with checked cuts -/

/-- **What stops a reading:** an error of the session, or a cut where nothing can be cut. -/
inductive Stop
  /-- The session text is in error. -/
  | error (e : Error)
  /-- A cut falls behind the end or inside a character. -/
  | cut

/-- The result of a cut. -/
def checked {α : Type} : Option α → Except Stop α
  | some a => .ok a
  | none => .error .cut

/-- The lines from one number up to another one. -/
def linesBetween? (first last : Nat) (lines : List (List Char)) : Option (List (List Char)) :=
  if first ≤ last ∧ last ≤ lines.length then some ((lines.take last).drop first) else none

/-- Each prompt must be followed by a blank or end its line; the prompt of a line that lacks the blank is
cut out to be shown. -/
def cutBlanks (name : String) (indent : Nat) : Nat → List (List Char) → Except Stop Unit
  | _, [] => .ok ()
  | line, text :: rest =>
    match charAtByte (indent + 3) text with
    | none => cutBlanks name indent (line + 1) rest
    | some c =>
      if c = some ' ' then cutBlanks name indent (line + 1) rest
      else do
        let prompt ← checked ((dropBytes indent text).bind (takeBytes 3))
        .error (.error (.missingBlank line name prompt text))

/-- The position at which the message documented by an output begins. -/
def messageAt? (want : List Char) : Option Nat :=
  (documentedMessage? want).map fun message => byteLength want - byteLength message

/-- The option comments of a text, each with the position at which its options begin, after skipping
some characters; the text begins at position `at`. -/
def optionPlacesAfter : Nat → Nat → List Char → List (Nat × List Char)
  | _, _, [] => []
  | skip + 1, place, c :: cs => optionPlacesAfter skip (place + c.utf8Size) cs
  | 0, place, c :: cs =>
    if c = '#' then
      match optionsAfterHash? cs with
      | some (lead, options) =>
        (place + c.utf8Size + byteLength lead, options) ::
          optionPlacesAfter (lead.length + options.length) (place + c.utf8Size) cs
      | none => optionPlacesAfter 0 (place + c.utf8Size) cs
    else optionPlacesAfter 0 (place + c.utf8Size) cs

/-- Adds the overrides of an option comment; its line is found by cutting the statement before its
options. -/
def cutOption (source : List Char) (line : Nat) (name : String) (o : Overrides)
    (comment : Nat × List Char) : Except Stop Overrides := do
  let before ← checked (takeBytes comment.1 source)
  match Overrides.ofText (String.ofList comment.2) with
  | .ok later => .ok (o.merge later)
  | .error _ => .error (.error (.invalidOption (line + before.count '\n' + 1) name (trim comment.2)))

/-- The overrides of a statement. -/
def cutOptions (source : List Char) (line : Nat) (name : String) : Except Stop Overrides := do
  let overrides ← (optionPlacesAfter 0 0 source).foldlM (cutOption source line name) .empty
  if !overrides.isNone && isBlankOrComment source then
    .error (.error (.optionWithoutExample (line + 1) name source))
  else .ok overrides

/-- The example of the lines of a statement and of its output. -/
def cutBlock (name : String) (sources output : List (List Char)) (line indent : Nat) :
    Except Stop (Option Example) := do
  cutBlanks name indent (line + 1) sources
  let more ← checked (linesBetween? 1 sources.length sources)
  (checkBeginnings name (List.replicate indent ' ' ++ ['.']) (line + 2) more).mapError .error
  let source := joinLines (sources.map fun text => (dropBytes (indent + 4) text).getD [])
  (checkBeginnings name (List.replicate indent ' ') (line + sources.length + 1) output).mapError .error
  let shown ← output.mapM fun text => checked (dropBytes indent text)
  let want := if (joinLines shown).isEmpty then joinLines shown else joinLines shown ++ ['\n']
  let message ← (messageAt? want).mapM fun place => checked (dropBytes place want)
  let overrides ← cutOptions source line name
  if isBlankOrComment source then return none
  return some (.make source want message line indent overrides)

/-- The number of the first line from `i` on that fails a test, or the number of lines. -/
def endFrom (p : List Char → Bool) (lines : List (List Char)) (i : Nat) : Nat :=
  if h : i < lines.length then if p lines[i] then endFrom p lines (i + 1) else i else i
termination_by lines.length - i

theorem le_endFrom (p : List Char → Bool) (lines : List (List Char)) (i : Nat) : i ≤ endFrom p lines i := by
  fun_induction endFrom p lines i with
  | case1 i h hp ih => exact (Nat.le_succ i).trans ih
  | case2 i h hp => exact Nat.le_refl i
  | case3 i h => exact Nat.le_refl i

/-- The example of the lines from `first` to `last`, the statement of which ends before `middle`. -/
def cutExample (name : String) (lines : List (List Char)) (first middle last indent : Nat) :
    Except Stop (Option Example) := do
  let sources ← checked (linesBetween? first middle lines)
  let output ← checked (linesBetween? middle last lines)
  cutBlock name sources output first indent

/-- The examples of lines from number `i` on. -/
def readFrom (name : String) (lines : List (List Char)) (i : Nat) : Except Stop (List Example) :=
  if h : i < lines.length then
    match promptIndent? lines[i] with
    | none => readFrom name lines (i + 1)
    | some indent =>
      let middle := endFrom isContinuation lines (i + 1)
      let last := endFrom isOutput lines middle
      match cutExample name lines i middle last indent with
      | .error stop => .error stop
      | .ok found =>
        match readFrom name lines last with
        | .error stop => .error stop
        | .ok examples => .ok (found.toList ++ examples)
  else .ok []
termination_by lines.length - i
decreasing_by
  · omega
  · have h₁ := le_endFrom isContinuation lines (i + 1)
    have h₂ := le_endFrom isOutput lines (endFrom isContinuation lines (i + 1))
    omega

/-- **The examples of a session text,** read with all cuts checked. -/
def cutRead (text : List Char) (name : String) : Except Stop (List Example) :=
  readFrom name (dedentedLines text) 0

/-! ## Stopping for another reason -/

section

variable {α β γ ε ε' : Type}

theorem mapError_bind (toStop : ε → ε') (x : Except ε α) (f : α → Except ε β) :
    (x >>= f).mapError toStop = x.mapError toStop >>= fun a => (f a).mapError toStop := by
  cases x <;> rfl

theorem bind_congr_ok {x : Except ε α} {f g : α → Except ε β} (h : ∀ a, x = .ok a → f a = g a) :
    (x >>= f) = x >>= g := by
  cases x with
  | error => rfl
  | ok a => exact h a rfl

/-- Steps over related lists stop for the same reason if each step does. -/
theorem foldlM_mapError {R : α → β → Prop} {f : γ → α → Except ε' γ} {g : γ → β → Except ε γ}
    {toStop : ε → ε'} (hstep : ∀ c a b, R a b → f c a = (g c b).mapError toStop) {as : List α}
    {bs : List β} (h : List.Forall₂ R as bs) (c : γ) : as.foldlM f c = (bs.foldlM g c).mapError toStop := by
  induction h generalizing c with
  | nil => rfl
  | cons hab _ ih =>
    rw [List.foldlM_cons, List.foldlM_cons, hstep c _ _ hab, mapError_bind]
    exact bind_congr_ok fun c' _ => ih c'

end

/-! ## The cuts that succeed -/

/-- What stops the reading with checked cuts where reading ends with an error. -/
def Stop.of : Error → Stop
  | .brokenPrompt .. => .cut
  | e => .error e

theorem cutBlanks_eq (name : String) (indent line : Nat) (texts : List (List Char)) :
    cutBlanks name indent line texts = (checkBlanks name indent line texts).mapError Stop.of := by
  induction texts generalizing line with
  | nil => rfl
  | cons text rest ih =>
    rw [cutBlanks, checkBlanks]
    cases charAtByte (indent + 3) text with
    | none => exact ih (line + 1)
    | some c =>
      dsimp only
      split_ifs
      · exact ih (line + 1)
      · cases (dropBytes indent text).bind (takeBytes 3) <;> rfl

/-- An error about a beginning stops the reading as an error. -/
theorem checkBeginnings_mapError (name : String) (beginning : List Char) (line : Nat)
    (texts : List (List Char)) :
    (checkBeginnings name beginning line texts).mapError Stop.error =
      (checkBeginnings name beginning line texts).mapError Stop.of := by
  cases h : checkBeginnings name beginning line texts with
  | ok => rfl
  | error e =>
    obtain ⟨i, text, -, -, rfl⟩ := checkBeginnings_eq_error h
    rfl

/-- Output in the column of its prompt can be cut there. -/
theorem mapM_cut_output {indent : Nat} {output : List (List Char)}
    (h : ∀ t ∈ output, List.replicate indent ' ' <+: t) :
    (output.mapM fun text => checked (dropBytes indent text)) =
      .ok (output.map fun text => (dropBytes indent text).getD []) := by
  induction output with
  | nil => rfl
  | cons t ts ih =>
    obtain ⟨⟨rest, rfl⟩, hts⟩ := List.forall_mem_cons.mp h
    have hcut : dropBytes indent (List.replicate indent ' ' ++ rest) = some rest := by
      have hspace : ∀ c ∈ List.replicate indent ' ', c.utf8Size = 1 := fun c hc =>
        List.eq_of_mem_replicate hc ▸ rfl
      have := dropBytes_append_ascii hspace rest
      rwa [List.length_replicate] at this
    rw [List.mapM_cons, ih hts, hcut, List.map_cons, hcut]
    rfl

theorem wordLine?_suffix {atStart : Bool} {s m : List Char} (h : documentedMessage?.wordLine? atStart s = some m) :
    m <:+ s := by
  induction s generalizing atStart with
  | nil => cases h
  | cons c cs ih =>
    rw [documentedMessage?.wordLine?] at h
    split_ifs at h
    · cases h
      exact List.suffix_rfl
    · exact (ih h).trans (List.suffix_cons c cs)

/-- The message documented by an output is an end of it. -/
theorem documentedMessage?_suffix {want m : List Char} (h : documentedMessage? want = some m) :
    m <:+ want := by
  unfold documentedMessage? at h
  obtain ⟨rest, hrest, h⟩ := Option.bind_eq_some_iff.mp h
  have hwant : rest <:+ want := by
    rcases Option.or_eq_some_iff.mp hrest with hbegin | ⟨-, hbegin⟩
    all_goals
      rw [afterBegin?_eq_some.mp hbegin]
      exact List.suffix_append _ rest
  split at h
  · rename_i body hbody
    have hrest : '\n' :: body <:+ rest := hbody ▸ List.dropWhile_suffix _
    exact (wordLine?_suffix h).trans ((List.suffix_cons '\n' body).trans (hrest.trans hwant))
  · cases h

theorem mapM_cut_message (want : List Char) :
    ((messageAt? want).mapM fun place => checked (dropBytes place want)) = .ok (documentedMessage? want) := by
  unfold messageAt?
  cases h : documentedMessage? want with
  | none => rfl
  | some m =>
    obtain ⟨before, rfl⟩ := documentedMessage?_suffix h
    have hcut : dropBytes (byteLength (before ++ m) - byteLength m) (before ++ m) = some m := by
      rw [byteLength_append, Nat.add_sub_cancel]
      exact dropBytes_append before m
    rw [Option.map_some, Option.mapM_some, hcut]
    rfl

/-! ### Option comments -/

theorem beforeLastFeed_isPrefix (blanks : List Char) : beforeLastFeed blanks <+: blanks := by
  unfold beforeLastFeed
  rw [← List.reverse_suffix, List.reverse_reverse]
  exact (List.tail_suffix _).trans (List.dropWhile_suffix _)

/-- An option comment begins the text behind its number sign. -/
theorem prefix_of_optionsAfterHash? {s lead options : List Char}
    (h : optionsAfterHash? s = some (lead, options)) : lead ++ options <+: s := by
  unfold optionsAfterHash? at h
  rw [List.span_eq_takeWhile_dropWhile] at h
  dsimp only at h
  obtain ⟨rest, hrest, h⟩ := Option.bind_eq_some_iff.mp h
  rw [List.span_eq_takeWhile_dropWhile] at h
  dsimp only at h
  have hs : s = s.takeWhile isBlank ++ "doctest:".toList ++ rest := by
    conv_lhs => rw [← List.takeWhile_append_dropWhile (p := isBlank) (l := s), afterBegin?_eq_some.mp hrest]
    rw [List.append_assoc]
  have hfull : s.takeWhile isBlank ++ "doctest:".toList ++ rest.takeWhile isBlank ++
      (rest.dropWhile isBlank).takeWhile isOptionChar <+: s := by
    conv_rhs => rw [hs]
    rw [List.append_assoc _ (rest.takeWhile isBlank), List.prefix_append_right_inj]
    conv_rhs => rw [← List.takeWhile_append_dropWhile (p := isBlank) (l := rest)]
    rw [List.prefix_append_right_inj]
    exact List.takeWhile_prefix _
  split at h
  · cases h
    exact hfull
  · cases h
    exact hfull
  · split_ifs at h
    cases h
    rw [List.append_nil]
    conv_rhs => rw [hs]
    rw [List.prefix_append_right_inj]
    exact (beforeLastFeed_isPrefix _).trans (List.takeWhile_prefix _)

/-- **The places of option comments** can be cut at, and as many lines end before as are counted. -/
theorem optionPlaces_rel {whole : List Char} (skip : Nat) {done s : List Char} (h : whole = done ++ s) :
    List.Forall₂ (fun p c => p.2 = c.2 ∧ ∃ before, takeBytes p.1 whole = some before ∧ before.count '\n' = c.1)
      (optionPlacesAfter skip (byteLength done) s) (optionCommentsAfter skip (done.count '\n') s) := by
  induction s generalizing skip done with
  | nil => cases skip <;> exact .nil
  | cons c cs ih =>
    have hwhole : whole = (done ++ [c]) ++ cs := by rw [h, List.append_assoc]; rfl
    have hlength : byteLength done + c.utf8Size = byteLength (done ++ [c]) := by
      rw [byteLength_append]
      rfl
    have hcount : (if c = '\n' then done.count '\n' + 1 else done.count '\n') = (done ++ [c]).count '\n' := by
      rw [List.count_append, List.count_singleton]
      split_ifs <;> simp_all
    cases skip with
    | succ skip =>
      rw [optionPlacesAfter, optionCommentsAfter, hlength, hcount]
      exact ih skip hwhole
    | zero =>
      rw [optionPlacesAfter, optionCommentsAfter, hlength, hcount]
      split_ifs with hhash
      · have hsame : done.count '\n' = (done ++ [c]).count '\n' := by simp [hhash]
        rw [hsame]
        cases hoptions : optionsAfterHash? cs with
        | none => exact ih 0 hwhole
        | some found =>
          obtain ⟨lead, options⟩ := found
          obtain ⟨rest, hrest⟩ := prefix_of_optionsAfterHash? hoptions
          refine .cons ⟨rfl, done ++ [c] ++ lead, ?_, List.count_append⟩ (ih _ hwhole)
          rw [hwhole, ← hrest, List.append_assoc lead, ← List.append_assoc, ← byteLength_append]
          exact takeBytes_append _ _
      · exact ih 0 hwhole

theorem cutOptions_eq (source : List Char) (line : Nat) (name : String) :
    cutOptions source line name = (readOptions source line name).mapError Stop.of := by
  have hplaces : List.Forall₂ _ (optionPlacesAfter 0 0 source) (optionComments source) :=
    @optionPlaces_rel source 0 [] source rfl
  unfold cutOptions readOptions
  rw [mapError_bind, foldlM_mapError (fun o p c hpc => ?_) hplaces]
  · refine bind_congr_ok fun o _ => ?_
    split_ifs <;> rfl
  · obtain ⟨feeds, options⟩ := c
    obtain ⟨hoptions, before, hbefore, rfl⟩ := hpc
    rw [cutOption, hoptions, hbefore, checked, Except.ok_bind]
    dsimp only
    cases Overrides.ofText (String.ofList options) <;> rfl

/-! ### Examples -/

theorem linesBetween?_tail {sources : List (List Char)} (h : sources ≠ []) :
    linesBetween? 1 sources.length sources = some sources.tail := by
  rw [linesBetween?, if_pos ⟨List.length_pos_of_ne_nil h, Nat.le_refl _⟩, List.take_length, List.drop_one]

/-- **The example of a block** needs no cut that fails but that of a prompt to be shown. -/
theorem cutBlock_eq (name : String) {b : Block} (line indent : Nat)
    (hout : ∀ t ∈ b.output, isOutput t = true) :
    cutBlock name b.sources b.output line indent = (readBlock name b line indent).mapError Stop.of := by
  unfold cutBlock
  rw [readBlock_eq, mapError_bind, cutBlanks_eq]
  refine bind_congr_ok fun _ _ => ?_
  have hsources : b.sources ≠ [] := List.cons_ne_nil b.prompt b.more
  rw [linesBetween?_tail hsources, checked, Except.ok_bind, mapError_bind, checkBeginnings_mapError]
  refine bind_congr_ok fun _ _ => ?_
  rw [mapError_bind, checkBeginnings_mapError]
  refine bind_congr_ok fun _ hok => ?_
  -- Output is not blank, so the check says of each line that it starts in the column of the prompt.
  have hcolumn : ∀ t ∈ b.output, List.replicate indent ' ' <+: t := by
    intro t ht
    cases hchecked : checkBeginnings name (List.replicate indent ' ') (line + b.sources.length + 1) b.output with
    | error e =>
      rw [hchecked] at hok
      cases hok
    | ok =>
      exact (checkBeginnings_eq_ok.mp hchecked t ht).resolve_left (ne_nil_of_isOutput (hout t ht))
  rw [mapM_cut_output hcolumn, Except.ok_bind]
  dsimp only
  rw [mapM_cut_message, Except.ok_bind, mapError_bind, cutOptions_eq]
  refine bind_congr_ok fun overrides _ => ?_
  change (if isBlankOrComment (b.source indent) then _ else _) = _
  cases isBlankOrComment (b.source indent) <;> rfl

/-! ### Lines -/

theorem endFrom_eq (p : List Char → Bool) (lines : List (List Char)) (i : Nat) :
    endFrom p lines i = i + ((lines.drop i).takeWhile p).length := by
  fun_induction endFrom p lines i with
  | case1 i h hp ih =>
    rw [ih, List.drop_eq_getElem_cons h, List.takeWhile_cons_of_pos hp, List.length_cons]
    omega
  | case2 i h hp =>
    rw [List.drop_eq_getElem_cons h, List.takeWhile_cons_of_neg hp]
    rfl
  | case3 i h =>
    rw [List.drop_eq_nil_of_le (Nat.le_of_not_lt h)]
    rfl

theorem linesBetween?_eq {lines run rest : List (List Char)} {i : Nat} (h : lines.drop i = run ++ rest)
    (hi : i ≤ lines.length) : linesBetween? i (i + run.length) lines = some run := by
  have hle : i + run.length ≤ lines.length := by
    have := congrArg List.length h
    rw [List.length_drop, List.length_append] at this
    omega
  rw [linesBetween?, if_pos ⟨Nat.le_add_right i _, hle⟩, List.drop_take, h, Nat.add_sub_cancel_left,
    List.take_left]

section

variable {lines rest : List (List Char)} {text : List Char} {i : Nat}

theorem endFrom_continuation (h : lines.drop i = text :: rest) :
    endFrom isContinuation lines (i + 1) = i + 1 + (blockAt text rest).1.more.length := by
  rw [endFrom_eq, drop_after_prompt h]
  rfl

theorem endFrom_output (h : lines.drop i = text :: rest) :
    endFrom isOutput lines (i + 1 + (blockAt text rest).1.more.length) =
      i + 1 + (blockAt text rest).1.more.length + (blockAt text rest).1.output.length := by
  have hdrop : rest.drop (rest.takeWhile isContinuation).length = rest.dropWhile isContinuation := by
    have := @List.drop_left _ (rest.takeWhile isContinuation) (rest.dropWhile isContinuation)
    rwa [List.takeWhile_append_dropWhile] at this
  change endFrom isOutput lines (i + 1 + (rest.takeWhile isContinuation).length) = _
  rw [endFrom_eq, ← List.drop_drop, drop_after_prompt h, hdrop]
  rfl

/-- The lines of a block are found by their numbers. -/
theorem cutExample_eq (name : String) (h : lines.drop i = text :: rest) (indent : Nat) :
    cutExample name lines i (i + 1 + (blockAt text rest).1.more.length)
        (i + 1 + (blockAt text rest).1.more.length + (blockAt text rest).1.output.length) indent =
      (readBlock name (blockAt text rest).1 i indent).mapError Stop.of := by
  have hi : i < lines.length := by
    by_contra hle
    rw [List.drop_eq_nil_of_le (Nat.le_of_not_lt hle)] at h
    cases h
  have happend := blockAt_append text rest
  have hsources : linesBetween? i (i + 1 + (blockAt text rest).1.more.length) lines =
      some (blockAt text rest).1.sources := by
    have hlength : i + 1 + (blockAt text rest).1.more.length = i + (blockAt text rest).1.sources.length := by
      rw [Block.sources, List.length_cons]
      omega
    rw [hlength]
    refine @linesBetween?_eq lines _ ((blockAt text rest).1.output ++ (blockAt text rest).2) i ?_ hi.le
    rw [h, Block.sources, List.cons_append, ← List.append_assoc, happend]
    rfl
  have houtput : linesBetween? (i + 1 + (blockAt text rest).1.more.length)
      (i + 1 + (blockAt text rest).1.more.length + (blockAt text rest).1.output.length) lines =
      some (blockAt text rest).1.output := by
    have hdrop : rest.drop (blockAt text rest).1.more.length =
        (blockAt text rest).1.output ++ (blockAt text rest).2 := by
      have := @List.drop_left _ (blockAt text rest).1.more
        ((blockAt text rest).1.output ++ (blockAt text rest).2)
      rwa [← List.append_assoc, happend] at this
    refine @linesBetween?_eq lines _ (blockAt text rest).2 _ ?_ ?_
    · rw [← List.drop_drop, drop_after_prompt h, hdrop]
    · have := congrArg List.length h
      have := congrArg List.length happend
      simp only [List.length_drop, List.length_cons, List.length_append] at *
      omega
  rw [cutExample, hsources, checked, Except.ok_bind, houtput, checked, Except.ok_bind]
  exact cutBlock_eq name i indent fun t ht => List.mem_takeWhile_imp ht

end

/-- **Lines are read by their numbers** as they are read one after the other. -/
theorem readFrom_eq (name : String) (lines : List (List Char)) (i : Nat) :
    readFrom name lines i = (readLines name i (lines.drop i)).mapError Stop.of := by
  induction hn : lines.length - i using Nat.strong_induction_on generalizing i with
  | h n ih =>
    rw [readFrom]
    split_ifs with h
    · have hdrop : lines.drop i = lines[i] :: lines.drop (i + 1) := List.drop_eq_getElem_cons h
      have hblock := cutExample_eq name hdrop
      have hafter := drop_after_block hdrop
      rw [hdrop, readLines]
      cases hp : promptIndent? lines[i] with
      | none => exact ih (lines.length - (i + 1)) (by omega) (i + 1) rfl
      | some indent =>
        dsimp only
        rw [endFrom_continuation hdrop, endFrom_output hdrop, hblock, ← hafter,
          ih (lines.length - (i + 1 + _ + _)) (by omega) _ rfl]
        cases readBlock name (blockAt lines[i] (lines.drop (i + 1))).1 i indent with
        | error e => rfl
        | ok found =>
          dsimp only [Except.mapError]
          cases readLines name _ _ <;> rfl
    · rw [List.drop_eq_nil_of_le (Nat.le_of_not_lt h), readLines]
      rfl

/-- **The cuts of a session succeed,** but for that of a prompt to be shown. -/
theorem cutRead_eq (text : List Char) (name : String) :
    cutRead text name = (read text name).mapError Stop.of :=
  readFrom_eq name (dedentedLines text) 0

end Transcript.Session
