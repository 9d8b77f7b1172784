import Transcript.Proofs.Flag.History
import Transcript.Proofs.Text.Field

/-!
# Option texts

Overrides are written as tokens, a sign and the name of a single flag each, and read from such tokens in
two ways: strictly, where the first bad token is the error, and leniently, where bad tokens are passed
over. Whether a token is bad does not depend on what has been read before.

Results:
* `ofText_toText`: what is written is read back.
* `ofText_append`: a text made of two texts reads as their overrides, merged.
* `ofText_eq_lenient`: strict and lenient reading agree up to the first error.
* `ofText_withoutInvalid`: lenient reading is strict reading of the text without its bad tokens.
* `option_texts`: all of this.
-/

namespace Transcript

namespace Overrides

/-! ## Tokens -/

/-- **The token of a flag:** a sign that tells whether it is switched on, and its name. -/
def tokenOf (value : Bool) (f : Flag) : List Char := (if value then '+' else '-') :: f.name.toList

/-- Whether a token is the token of a single flag. -/
def isValid (token : List Char) : Bool :=
  Flag.all.any fun f => token == tokenOf true f || token == tokenOf false f

theorem isValid_iff {token : List Char} : isValid token = true ↔ ∃ value f, token = tokenOf value f := by
  unfold isValid
  rw [List.any_eq_true]
  constructor
  · rintro ⟨f, -, h⟩
    rcases Bool.or_eq_true_iff.mp h with h | h
    · exact ⟨true, f, eq_of_beq h⟩
    · exact ⟨false, f, eq_of_beq h⟩
  · rintro ⟨value, f, rfl⟩
    refine ⟨f, Flag.mem_all f, ?_⟩
    cases value <;> simp

/-- A token of a flag is carried out. -/
theorem push_tokenOf (o : Overrides) (value : Bool) (f : Flag) :
    o.push (tokenOf value f) = .ok (o.assign (.single f) value) := by
  have hname : Flag.ofName? (String.ofList f.name.toList) = some f := by
    rw [String.ofList_toList, Flag.ofName?_name]
  cases value
  · change push.named o false f.name.toList = _
    rw [push.named, hname]
  · change push.named o true f.name.toList = _
    rw [push.named, hname]

/-- What has a name that is found is the token of a flag. -/
theorem named_eq (o : Overrides) {value : Bool} {name : List Char}
    (h : ¬ ∃ f : Flag, name = f.name.toList) :
    push.named o value name = .error (.unknownFlag (String.ofList name)) := by
  unfold push.named
  cases hfound : Flag.ofName? (String.ofList name) with
  | none => rfl
  | some f =>
    unfold Flag.ofName? at hfound
    have hname := List.find?_some hfound
    exact absurd ⟨f, by rw [eq_of_beq hname, String.toList_ofList]⟩ h

/-- **Any other token is an error,** the same one whatever has been read before. -/
theorem exists_error {token : List Char} (h : isValid token = false) :
    ∃ e, ∀ o : Overrides, o.push token = .error e := by
  have hnone (value : Bool) (name : List Char) (htoken : token = (if value then '+' else '-') :: name) :
      ¬ ∃ f : Flag, name = f.name.toList := by
    rintro ⟨f, rfl⟩
    exact Bool.false_ne_true (h.symm.trans (isValid_iff.mpr ⟨value, f, htoken⟩))
  unfold push
  split
  · rename_i name
    exact ⟨_, fun o => named_eq o (hnone true name rfl)⟩
  · rename_i name
    exact ⟨_, fun o => named_eq o (hnone false name rfl)⟩
  · exact ⟨_, fun o => rfl⟩

/-- **A token,** valid or not, does the same whatever has been read before. -/
theorem push_cases (token : List Char) :
    (isValid token = true ∧ ∃ value f, ∀ o : Overrides, o.push token = .ok (o.assign (.single f) value)) ∨
      (isValid token = false ∧ ∃ e, ∀ o : Overrides, o.push token = .error e) := by
  cases h : isValid token with
  | true =>
    obtain ⟨value, f, rfl⟩ := isValid_iff.mp h
    exact .inl ⟨rfl, value, f, fun o => push_tokenOf o value f⟩
  | false => exact .inr ⟨rfl, exists_error h⟩

/-! ## Writing and reading -/

theorem tokenOf_ne_nil (value : Bool) (f : Flag) : tokenOf value f ≠ [] := List.cons_ne_nil _ _

/-- A token of a flag holds no separator. -/
theorem tokenOf_plain (value : Bool) (f : Flag) : ∀ c ∈ tokenOf value f, isOptionSeparator c = false := by
  have hany : (tokenOf value f).any isOptionSeparator = false := by
    cases value <;> cases f <;> decide +kernel
  simpa using hany

/-- **The tokens of written overrides:** those of the flags that are on, then those of the flags that are
off. -/
theorem optionTokens_toText (o : Overrides) :
    optionTokens o.toText = o.on.toList.map (tokenOf true) ++ o.off.toList.map (tokenOf false) := by
  have hsigned (sign : String) (a : FlagSet) :
      (a.parts.map (sign ++ ·.1)).map String.toList =
        a.toList.map fun f => sign.toList ++ f.name.toList := by
    rw [FlagSet.parts_eq, List.map_map, List.map_map]
    exact List.map_congr_left fun f _ => String.toList_append
  unfold optionTokens toText
  rw [String.toList_intercalate, List.map_append, hsigned, hsigned]
  refine Text.fields_intercalate (by decide) fun w hw => ?_
  rcases List.mem_append.mp hw with hw | hw
  · obtain ⟨f, -, rfl⟩ := List.mem_map.mp hw
    exact ⟨tokenOf_ne_nil true f, tokenOf_plain true f⟩
  · obtain ⟨f, -, rfl⟩ := List.mem_map.mp hw
    exact ⟨tokenOf_ne_nil false f, tokenOf_plain false f⟩

/-- Reading tokens of flags switches all of them. -/
theorem foldlM_push_tokens (value : Bool) (fs : List Flag) (o : Overrides) :
    (fs.map (tokenOf value)).foldlM push o = .ok (fs.foldl (fun o f => o.assign (.single f) value) o) := by
  induction fs generalizing o with
  | nil => rfl
  | cons f fs ih =>
    rw [List.map_cons, List.foldlM_cons, push_tokenOf, Except.ok_bind, ih]
    rfl

/-- **What is written is read back.** -/
theorem ofText_toText {o : Overrides} (h : o.Consistent) : ofText o.toText = .ok o := by
  have hread : ofText o.toText = .ok ((empty.enable o.on).disable o.off) := by
    unfold ofText
    rw [optionTokens_toText, List.foldlM_append, foldlM_push_tokens, Except.ok_bind, foldlM_push_tokens]
    change Except.ok (o.off.toList.foldl (fun o f => o.disable (.single f))
      (o.on.toList.foldl (fun o f => o.enable (.single f)) empty)) = _
    rw [foldl_enable, foldl_disable, FlagSet.ofList_toList, FlagSet.ofList_toList]
  rw [hread]
  congr 1
  ext f
  · have hf := h f
    simp only [empty, enable, disable, FlagSet.has_union, FlagSet.has_diff, FlagSet.has_empty]
    cases hon : o.on.has f <;> simp_all
  · simp [empty, enable, disable]

/-! ## Two texts -/

theorem merge_empty (o : Overrides) : o.merge empty = o := by
  rw [merge_eq]
  exact (disable_empty _).trans (enable_empty o)

theorem enable_merge (o later : Overrides) (flags : FlagSet) :
    (o.merge later).enable flags = o.merge (later.enable flags) := by
  rw [merge_eq, merge_eq]
  ext f <;> simp only [enable, disable, FlagSet.has_union, FlagSet.has_diff] <;>
    cases flags.has f <;> simp

theorem disable_merge (o later : Overrides) (flags : FlagSet) :
    (o.merge later).disable flags = o.merge (later.disable flags) := by
  rw [merge_eq, merge_eq]
  ext f <;> simp only [enable, disable, FlagSet.has_union, FlagSet.has_diff] <;>
    cases flags.has f <;> simp

/-- What is said after overrides have been merged in can be said before. -/
theorem assign_merge (o later : Overrides) (flags : FlagSet) (value : Bool) :
    (o.merge later).assign flags value = o.merge (later.assign flags value) := by
  cases value
  · exact disable_merge o later flags
  · exact enable_merge o later flags

/-- Reading tokens on top of overrides is merging what they say. -/
theorem foldlM_push_merge (tokens : List (List Char)) (o later : Overrides) :
    tokens.foldlM push (o.merge later) = (tokens.foldlM push later).map o.merge := by
  induction tokens generalizing later with
  | nil => rfl
  | cons token tokens ih =>
    rw [List.foldlM_cons, List.foldlM_cons]
    obtain ⟨-, value, f, hpush⟩ | ⟨-, e, hpush⟩ := push_cases token
    · rw [hpush, hpush, Except.ok_bind, Except.ok_bind, assign_merge, ih]
    · rw [hpush, hpush]
      rfl

/-- **A text made of two texts** reads as the overrides of the first with those of the second on top. -/
theorem ofText_append (s t : String) {gap : List Char} (hne : gap ≠ [])
    (hgap : ∀ c ∈ gap, isOptionSeparator c = true) :
    ofText (s ++ String.ofList gap ++ t) = do return (← ofText s).merge (← ofText t) := by
  have htokens : optionTokens (s ++ String.ofList gap ++ t) = optionTokens s ++ optionTokens t := by
    unfold optionTokens
    rw [String.toList_append, String.toList_append, String.toList_ofList]
    exact Text.fields_append s.toList hne hgap t.toList
  unfold ofText
  rw [htokens, List.foldlM_append]
  congr 1
  funext o
  conv_lhs => rw [← merge_empty o]
  exact foldlM_push_merge (optionTokens t) o empty

/-! ## Lenient reading -/

/-- The errors found so far stay in front. -/
theorem foldl_pushLenient (tokens : List (List Char)) (o : Overrides) (errors : List OptionError) :
    tokens.foldl pushLenient (o, errors) =
      ((tokens.foldl pushLenient (o, [])).1, errors ++ (tokens.foldl pushLenient (o, [])).2) := by
  induction tokens generalizing o errors with
  | nil => simp
  | cons token tokens ih =>
    rw [List.foldl_cons, List.foldl_cons]
    obtain ⟨-, value, f, hpush⟩ | ⟨-, e, hpush⟩ := push_cases token
    · have hstep (errors : List OptionError) :
          pushLenient (o, errors) token = (o.assign (.single f) value, errors) := by
        rw [pushLenient, hpush]
      rw [hstep, hstep]
      exact ih _ errors
    · have hstep (errors : List OptionError) : pushLenient (o, errors) token = (o, errors ++ [e]) := by
        rw [pushLenient, hpush]
      rw [hstep, hstep, List.nil_append, ih, ih o [e], List.append_assoc]

/-- A valid token is carried out leniently, too. -/
theorem lenient_of_ok {o o' : Overrides} {token : List Char} (h : o.push token = .ok o')
    (tokens : List (List Char)) :
    (token :: tokens).foldl pushLenient (o, []) = tokens.foldl pushLenient (o', []) := by
  rw [List.foldl_cons, pushLenient, h]

/-- A bad token leaves nothing but its error. -/
theorem lenient_of_error {o : Overrides} {token : List Char} {e : OptionError} (h : o.push token = .error e)
    (tokens : List (List Char)) :
    (token :: tokens).foldl pushLenient (o, []) =
      ((tokens.foldl pushLenient (o, [])).1, e :: (tokens.foldl pushLenient (o, [])).2) := by
  rw [List.foldl_cons, pushLenient, h]
  exact foldl_pushLenient tokens o [e]

/-- Tokens are read strictly up to the first error of lenient reading. -/
theorem foldlM_push_eq_lenient (tokens : List (List Char)) (o : Overrides) :
    tokens.foldlM push o =
      match (tokens.foldl pushLenient (o, [])).2 with
      | [] => .ok (tokens.foldl pushLenient (o, [])).1
      | e :: _ => .error e := by
  induction tokens generalizing o with
  | nil => rfl
  | cons token tokens ih =>
    rw [List.foldlM_cons]
    obtain ⟨-, value, f, hpush⟩ | ⟨-, e, hpush⟩ := push_cases token
    · rw [lenient_of_ok (hpush o), hpush, Except.ok_bind, ih]
    · rw [lenient_of_error (hpush o), hpush]
      rfl

/-- **Strict and lenient reading** agree if there is no error; else the first error is that of strict
reading. -/
theorem ofText_eq_lenient (text : String) :
    ofText text =
      match (ofTextLenient text).2 with
      | [] => .ok (ofTextLenient text).1
      | e :: _ => .error e :=
  foldlM_push_eq_lenient (optionTokens text) empty

/-- Tokens that are read leniently are read strictly without the bad ones. -/
theorem foldlM_push_valid (tokens : List (List Char)) (o : Overrides) :
    (tokens.filter isValid).foldlM push o = .ok (tokens.foldl pushLenient (o, [])).1 := by
  induction tokens generalizing o with
  | nil => rfl
  | cons token tokens ih =>
    obtain ⟨hvalid, value, f, hpush⟩ | ⟨hvalid, e, hpush⟩ := push_cases token
    · rw [List.filter_cons_of_pos hvalid, List.foldlM_cons, lenient_of_ok (hpush o), hpush, Except.ok_bind, ih]
    · rw [List.filter_cons_of_neg (by simp [hvalid]), lenient_of_error (hpush o), ih]

/-- **An option text without its bad tokens.** -/
def withoutInvalid (text : String) : String :=
  String.ofList (Text.without isOptionSeparator (fun token => !isValid token) text.toList)

/-- **Lenient reading** is strict reading of the text without its bad tokens. -/
theorem ofText_withoutInvalid (text : String) :
    ofText (withoutInvalid text) = .ok (ofTextLenient text).1 := by
  have htokens : optionTokens (withoutInvalid text) = (optionTokens text).filter isValid := by
    unfold optionTokens withoutInvalid
    rw [String.toList_ofList, Text.fields_without]
    exact List.filter_congr fun token _ => Bool.not_not _
  unfold ofText
  rw [htokens]
  exact foldlM_push_valid (optionTokens text) empty

end Overrides

/-! ## All of it -/

open Overrides

/-- **Option texts.** Overrides, however they came about, are read back from what is written of them. A text
made of two texts with separators between them reads as the overrides of the first with those of the second
on top, if both can be read. Lenient reading finds no error just where strict reading succeeds, with the
same overrides; else its first error is that of strict reading, and its overrides are those of the text
without its bad tokens. -/
theorem option_texts (h : History) (s t text : String) {gap : List Char} (hne : gap ≠ [])
    (hgap : ∀ c ∈ gap, isOptionSeparator c = true) :
    ofText h.overrides.toText = .ok h.overrides ∧
      (ofText (s ++ String.ofList gap ++ t) = do return (← ofText s).merge (← ofText t)) ∧
      (ofText text =
        match (ofTextLenient text).2 with
        | [] => .ok (ofTextLenient text).1
        | e :: _ => .error e) ∧
      ofText (withoutInvalid text) = .ok (ofTextLenient text).1 :=
  ⟨ofText_toText h.overrides_consistent, ofText_append s t hne hgap, ofText_eq_lenient text,
    ofText_withoutInvalid text⟩

/-- A text with two bad tokens, one of them the name of a group. -/
def mixedText : String := "+ELLIPSIS, bogus\t-NUMBER +COMPARISON_FLAGS"

theorem option_texts_mixed :
    (∀ c ∈ [',', ' '], isOptionSeparator c = true) ∧
      ofText History.bothGroups.overrides.toText = .ok History.bothGroups.overrides ∧
      (ofText ("+SKIP -FAIL_FAST" ++ ", " ++ "-SKIP")).map toText = .ok "-SKIP -FAIL_FAST" ∧
      (ofTextLenient mixedText).2 = [.missingSign "bogus", .unknownFlag "COMPARISON_FLAGS"] ∧
      ofText mixedText = .error (.missingSign "bogus") ∧
      withoutInvalid mixedText = "+ELLIPSIS, \t-NUMBER " ∧
      ofText "+ELLIPSIS, \t-NUMBER " = .ok (ofTextLenient mixedText).1 := by
  have hgap : ∀ c ∈ [',', ' '], isOptionSeparator c = true := by simp [isOptionSeparator, Text.isBlank]
  have herrors : (ofTextLenient mixedText).2 = [.missingSign "bogus", .unknownFlag "COMPARISON_FLAGS"] := by
    decide +kernel
  have hwithout : withoutInvalid mixedText = "+ELLIPSIS, \t-NUMBER " := by decide +kernel
  obtain ⟨hwritten, hboth, hstrict, hlenient⟩ :=
    option_texts History.bothGroups "+SKIP -FAIL_FAST" "-SKIP" mixedText (by decide) hgap
  have hmerged : Except.map toText (do return (← ofText "+SKIP -FAIL_FAST").merge (← ofText "-SKIP")) =
      Except.ok "-SKIP -FAIL_FAST" := by decide +kernel
  rw [herrors] at hstrict
  rw [hwithout] at hlenient
  exact ⟨hgap, hwritten, (congrArg _ hboth).trans hmerged, herrors, hstrict, hwithout, hlenient⟩

end Transcript
