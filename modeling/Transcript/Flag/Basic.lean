import Transcript.Text.Blank

/-!
# Option flags

The flags that say how the output of an example is compared with its expectation and how a
difference is reported, sets of them, and their names in configuration texts.

Results:
* `ext_has`: two sets are equal iff they hold the same flags.
* `mem_toList`: a set is listed by its flags in declaration order.
* `includes_iff`, `meets_iff`: what is decided about two sets by their flags.
-/

namespace Transcript

/-- A single option flag, in declaration order. -/
inductive Flag
  /-- `True` and `False` are no answer where `1` and `0` are expected. -/
  | dontAcceptTrueForOne
  /-- The blank line marker stands for itself. -/
  | dontAcceptBlankline
  /-- Runs of blanks compare as one space. -/
  | normalizeWhitespace
  /-- Three dots in an expectation stand for any text. -/
  | ellipsis
  /-- The example is not run. -/
  | skip
  /-- Exceptions compare by their names only. -/
  | ignoreExceptionDetail
  /-- Differences are shown as a unified diff. -/
  | reportUdiff
  /-- Differences are shown as a context diff. -/
  | reportCdiff
  /-- All lines are shown with their signs. -/
  | reportNdiff
  /-- Failures after the first of a test are counted but not shown. -/
  | reportOnlyFirstFailure
  /-- The run of a test ends at its first failure. -/
  | failFast
  /-- A prefix of text literals is ignored. -/
  | allowUnicode
  /-- A prefix of bytes literals is ignored. -/
  | allowBytes
  /-- Numbers compare to the precision that the expectation writes. -/
  | number
  deriving DecidableEq, Repr

namespace Flag

/-- All flags in declaration order. -/
def all : List Flag :=
  [dontAcceptTrueForOne, dontAcceptBlankline, normalizeWhitespace, ellipsis, skip,
    ignoreExceptionDetail, reportUdiff, reportCdiff, reportNdiff, reportOnlyFirstFailure, failFast,
    allowUnicode, allowBytes, number]

theorem mem_all (f : Flag) : f ∈ all := by cases f <;> decide

/-- The name of a flag in options and configuration texts. -/
def name : Flag → String
  | dontAcceptTrueForOne => "DONT_ACCEPT_TRUE_FOR_1"
  | dontAcceptBlankline => "DONT_ACCEPT_BLANKLINE"
  | normalizeWhitespace => "NORMALIZE_WHITESPACE"
  | ellipsis => "ELLIPSIS"
  | skip => "SKIP"
  | ignoreExceptionDetail => "IGNORE_EXCEPTION_DETAIL"
  | reportUdiff => "REPORT_UDIFF"
  | reportCdiff => "REPORT_CDIFF"
  | reportNdiff => "REPORT_NDIFF"
  | reportOnlyFirstFailure => "REPORT_ONLY_FIRST_FAILURE"
  | failFast => "FAIL_FAST"
  | allowUnicode => "ALLOW_UNICODE"
  | allowBytes => "ALLOW_BYTES"
  | number => "NUMBER"

/-- The single flag of a name. -/
def ofName? (text : String) : Option Flag := all.find? (·.name == text)

/-- Whether the flag decides about comparison; the others decide about reports. -/
def isComparison : Flag → Bool
  | reportUdiff | reportCdiff | reportNdiff | reportOnlyFirstFailure | failFast => false
  | _ => true

theorem ofName?_name (f : Flag) : ofName? f.name = some f := by cases f <;> rfl

end Flag

/-- **A set of flags**, as its membership test. -/
@[ext] structure FlagSet where
  /-- Whether the set holds a flag. -/
  has : Flag → Bool

namespace FlagSet

instance : DecidableEq FlagSet := fun a b =>
  decidable_of_iff (∀ f ∈ Flag.all, a.has f = b.has f)
    ⟨fun h => FlagSet.ext (funext fun f => h f (Flag.mem_all f)), fun h => by simp [h]⟩

/-- No flag. -/
def empty : FlagSet := ⟨fun _ => false⟩

/-- One flag. -/
def single (f : Flag) : FlagSet := ⟨fun g => g == f⟩

/-- The flags of a list. -/
def ofList (fs : List Flag) : FlagSet := ⟨fun f => fs.contains f⟩

/-- The flags of either set. -/
def union (a b : FlagSet) : FlagSet := ⟨fun f => a.has f || b.has f⟩

/-- Adds one flag. -/
def insert (a : FlagSet) (f : Flag) : FlagSet := ⟨fun g => g == f || a.has g⟩

/-- The flags of the first set that are not in the second. -/
def diff (a b : FlagSet) : FlagSet := ⟨fun f => a.has f && !b.has f⟩

/-- The flags of a set in declaration order. -/
def toList (a : FlagSet) : List Flag := Flag.all.filter a.has

/-- Whether some flag of the list is in the set. -/
def hasAny (a : FlagSet) (fs : List Flag) : Bool := fs.any a.has

/-- Whether the set holds no flag. -/
def isEmpty (a : FlagSet) : Bool := a.toList.isEmpty

/-- Whether a set holds all flags of another one. -/
def includes (a b : FlagSet) : Bool := Flag.all.all fun f => !b.has f || a.has f

/-- Whether two sets have a flag in common. -/
def meets (a b : FlagSet) : Bool := Flag.all.any fun f => a.has f && b.has f

/-- The flags that decide about comparison. -/
def comparison : FlagSet := ⟨Flag.isComparison⟩

/-- The flags that decide about reports. -/
def reporting : FlagSet := ⟨fun f => !f.isComparison⟩

/-- The number of a set: the flag declared at place `i` counts `2 ^ i`. -/
def code (a : FlagSet) : Nat :=
  (Flag.all.zipIdx.filter fun (f, _) => a.has f).foldl (fun n (_, i) => n + Nat.pow 2 i) 0

/-- **The sets with a name:** the single flags in declaration order, then the two groups. -/
def table : List (String × FlagSet) :=
  Flag.all.map (fun f => (f.name, single f)) ++
    [("COMPARISON_FLAGS", comparison), ("REPORTING_FLAGS", reporting)]

/-- The set of a name in a configuration: a single flag or one of the two groups. -/
def ofName? (text : String) : Option FlagSet := (table.find? (·.1 == text)).map Prod.snd

/-- The entries of a table that are parts of a set, as long as something of it is left. An entry all of
whose flags were in entries before it adds nothing. -/
def partsFrom (whole : FlagSet) : FlagSet → List (String × FlagSet) → List (String × FlagSet)
  | _, [] => []
  | left, (name, flags) :: entries =>
    if left.isEmpty then []
    else if whole.includes flags && left.meets flags then
      (name, flags) :: partsFrom whole (left.diff flags) entries
    else partsFrom whole left entries

/-- **The named parts of a set,** in the order of the table. -/
def parts (a : FlagSet) : List (String × FlagSet) := partsFrom a a table

@[simp] theorem has_empty (f : Flag) : empty.has f = false := rfl
@[simp] theorem has_single (f g : Flag) : (single f).has g = (g == f) := rfl
@[simp] theorem has_union (a b : FlagSet) (f : Flag) :
    (a.union b).has f = (a.has f || b.has f) := rfl
@[simp] theorem has_insert (a : FlagSet) (f g : Flag) :
    (a.insert f).has g = (g == f || a.has g) := rfl
@[simp] theorem has_diff (a b : FlagSet) (f : Flag) : (a.diff b).has f = (a.has f && !b.has f) := rfl

theorem ext_has {a b : FlagSet} : a = b ↔ ∀ f, a.has f = b.has f :=
  ⟨fun h f => by rw [h], fun h => FlagSet.ext (funext h)⟩

theorem mem_toList {a : FlagSet} {f : Flag} : f ∈ a.toList ↔ a.has f = true := by
  simp [toList, Flag.mem_all]

theorem isEmpty_iff {a : FlagSet} : a.isEmpty = true ↔ ∀ f, a.has f = false := by
  simp [isEmpty, toList, Flag.mem_all]

theorem includes_iff {a b : FlagSet} :
    a.includes b = true ↔ ∀ f, b.has f = true → a.has f = true := by
  simp only [includes, List.all_eq_true, Flag.mem_all, forall_const]
  refine forall_congr' fun f => ?_
  cases b.has f <;> simp

theorem meets_iff {a b : FlagSet} :
    a.meets b = true ↔ ∃ f, a.has f = true ∧ b.has f = true := by
  simp [meets, Flag.mem_all]

end FlagSet

/-- What is wrong with a token of an option text. -/
inductive OptionError
  /-- The token says neither `+` nor `-`. -/
  | missingSign (token : String)
  /-- No flag has this name. -/
  | unknownFlag (name : String)
  deriving DecidableEq, Repr

/-- The wording of an option error. -/
def OptionError.message : OptionError → String
  | .missingSign token => "missing '+' or '-' in '" ++ token ++ "' option"
  | .unknownFlag name => "'" ++ name ++ "' is not a valid option"

/-- Whether a character separates the tokens of an option text. -/
def isOptionSeparator (c : Char) : Bool := c == ',' || Text.isBlank c

/-- The tokens of an option text: separated by commas and blanks. -/
def optionTokens (text : String) : List (List Char) := Text.fields isOptionSeparator text.toList

/-- The set that a list of names in a configuration text denotes. -/
def FlagSet.ofNames (text : String) : Except OptionError FlagSet :=
  (optionTokens text).foldlM (fun set token =>
    match FlagSet.ofName? (String.ofList token) with
    | some flags => .ok (set.union flags)
    | none => .error (.unknownFlag (String.ofList token))) .empty

end Transcript
