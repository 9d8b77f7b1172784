import Transcript.Text.Search

/-!
# Version requirements

A requirement such as `>=0.1, <2` is a list of comparators that a version has to meet. A comparator
may leave out the last parts of a version; what is left out may be anything, with the reading that
each operator gives to it.
-/

namespace Transcript

/-- A released version. -/
structure Version where
  /-- The first part. -/
  major : Nat
  /-- The second part. -/
  minor : Nat
  /-- The third part. -/
  patch : Nat
  deriving DecidableEq, Repr

namespace Version

/-- The version of the session language. -/
def ofLanguage : Version := ⟨0, 1, 2⟩

/-- How a version is compared. -/
inductive Operator
  | exact | greater | greaterEq | less | lessEq | tilde | caret
  deriving DecidableEq, Repr

/-- One condition of a requirement. -/
structure Comparator where
  /-- How versions compare with the rest. -/
  op : Operator
  /-- The first part. -/
  major : Nat
  /-- The second part, if given. -/
  minor : Option Nat
  /-- The third part, if given. -/
  patch : Option Nat
  /-- Whether a version before the release is meant. -/
  preRelease : Bool
  deriving DecidableEq, Repr

/-- Splits off an operator; without one versions are compatible up to the first nonzero part. -/
def splitOperator : List Char → Option Operator × List Char
  | '=' :: s => (some .exact, s)
  | '>' :: '=' :: s => (some .greaterEq, s)
  | '>' :: s => (some .greater, s)
  | '<' :: '=' :: s => (some .lessEq, s)
  | '<' :: s => (some .less, s)
  | '~' :: s => (some .tilde, s)
  | '^' :: s => (some .caret, s)
  | s => (none, s)

/-- Splits off leading spaces. -/
def skipSpaces (s : List Char) : List Char := s.dropWhile (· == ' ')

/-- Splits off a part that may be anything. -/
def splitWildcard? : List Char → Option (List Char)
  | '*' :: s | 'x' :: s | 'X' :: s => some s
  | _ => none

/-- Splits off a number without leading zeros that fits into 64 bits. -/
def splitNumber? (s : List Char) : Option (Nat × List Char) :=
  let ds := s.takeWhile Char.isDigit
  let n := ds.foldl (fun n c => n * 10 + (c.toNat - 48)) 0
  if ds.isEmpty || (ds.length > 1 && ds.head? == some '0') || 0x10000000000000000 ≤ n then none
  else some (n, s.dropWhile Char.isDigit)

/-- Splits off a part that may be missing: `none` for a missing part or a wildcard, which the flag
tells apart. -/
def splitPart? (s : List Char) : Option (Option Nat × Bool × List Char) :=
  match s with
  | '.' :: s =>
    match splitWildcard? s with
    | some s => some (none, true, s)
    | none => (splitNumber? s).map fun (n, s) => (some n, false, s)
  | s => some (none, false, s)

/-- A character of a label after the numbers. -/
def isLabelChar (c : Char) : Bool := c.isAlphanum || c == '-' || c == '.'

/-- Whether the segments of a label are well formed: none is empty and, where `numeric`, no number
has a leading zero. -/
def isLabel (numeric : Bool) (label : List Char) : Bool :=
  (Text.splitOn ['.'] label).all fun seg =>
    !seg.isEmpty && !(numeric && seg.all Char.isDigit && seg.length > 1 && seg.head? == some '0')

/-- Splits off a label with its mark, if the mark is there. -/
def splitLabel? (mark : Char) (numeric : Bool) (s : List Char) : Option (Bool × List Char) :=
  match s with
  | c :: s' =>
    if c = mark then
      let label := s'.takeWhile isLabelChar
      if isLabel numeric label then some (true, s'.dropWhile isLabelChar) else none
    else some (false, s)
  | [] => some (false, [])

/-- Splits off a comparator and the spaces after it. -/
def splitComparator? (s : List Char) : Option (Comparator × List Char) := do
  let (op, s) := splitOperator s
  let (major, s) ← splitNumber? (skipSpaces s)
  let (minor, anyMinor, s) ← splitPart? s
  let (patch, anyPatch, s) ← splitPart? s
  if anyMinor && patch.isSome then none
  else
    let (pre, s) ← if patch.isSome then splitLabel? '-' true s else some (false, s)
    let (_, s) ← if patch.isSome then splitLabel? '+' false s else some (false, s)
    -- A wildcard without an operator pins the parts that are given.
    let op := op.getD (if anyMinor || anyPatch then .exact else .caret)
    some (⟨op, major, minor, patch, pre⟩, skipSpaces s)

/-- At most `n` comparators with commas between them. -/
def readComparators? : Nat → List Char → Option (List Comparator)
  | 0, _ => none
  | n + 1, s => do
    let (c, s) ← splitComparator? s
    match s with
    | [] => some [c]
    | ',' :: s => (readComparators? n (skipSpaces s)).map (c :: ·)
    | _ => none

/-- Reads a requirement: `*` alone, or up to 32 comparators. -/
def readRequirement? (text : List Char) : Option (List Comparator) :=
  let s := skipSpaces text
  match splitWildcard? s with
  | some rest => if (skipSpaces rest).isEmpty then some [] else none
  | none => readComparators? 32 s

/-- Equality in the parts that the comparator gives. -/
def Comparator.equal (c : Comparator) (v : Version) : Bool :=
  v.major == c.major && c.minor.all (v.minor == ·) && c.patch.all (v.patch == ·) && !c.preRelease

/-- Whether the version comes after all that the comparator denotes. -/
def Comparator.before (c : Comparator) (v : Version) : Bool :=
  if v.major != c.major then c.major < v.major
  else
    match c.minor with
    | none => false
    | some minor =>
      if v.minor != minor then minor < v.minor
      else
        match c.patch with
        | none => false
        | some patch => if v.patch != patch then patch < v.patch else c.preRelease

/-- Whether the version comes before all that the comparator denotes. -/
def Comparator.after (c : Comparator) (v : Version) : Bool :=
  if v.major != c.major then v.major < c.major
  else
    match c.minor with
    | none => false
    | some minor =>
      if v.minor != minor then v.minor < minor
      else
        match c.patch with
        | none => false
        | some patch => v.patch < patch

/-- Whether the version is the same up to its second part and not older. -/
def Comparator.close (c : Comparator) (v : Version) : Bool :=
  v.major == c.major && c.minor.all (v.minor == ·) && c.patch.all (· ≤ v.patch)

/-- Whether the version is not older and the same up to the first nonzero part. -/
def Comparator.compatible (c : Comparator) (v : Version) : Bool :=
  v.major == c.major &&
    match c.minor, c.patch with
    | none, _ => true
    | some minor, none => if 0 < c.major then minor ≤ v.minor else v.minor == minor
    | some minor, some patch =>
      if 0 < c.major then
        if v.minor != minor then minor < v.minor else patch ≤ v.patch
      else if 0 < minor then v.minor == minor && patch ≤ v.patch
      else v.minor == minor && v.patch == patch

/-- Whether a version meets a comparator. -/
def Comparator.meets (c : Comparator) (v : Version) : Bool :=
  match c.op with
  | .exact => c.equal v
  | .greater => c.before v
  | .greaterEq => c.equal v || c.before v
  | .less => c.after v
  | .lessEq => c.equal v || c.after v
  | .tilde => c.close v
  | .caret => c.compatible v

/-- Whether a version meets a requirement; nothing if the requirement cannot be read. -/
def meets? (v : Version) (requirement : List Char) : Option Bool :=
  (readRequirement? requirement).map fun cs => cs.all (·.meets v)

end Version

end Transcript
