import Transcript.Bindings

/-!
# Tallies of runs

How many examples of a test were attempted, failed and skipped; a ledger of such tallies by test
name; and the summary printed at the end.

A run counts the examples of one test, of which there are no more than a machine word can count. The
tallies that are kept of it are machine words, and so are the sums of any number of them: a sum that does
not fit wraps around.

Results:
* `Counts.toNat_tally`: counts that fit are kept as they are.
* `Tally.add_comm`, `Tally.add_assoc`: tallies add up in any order.
-/

namespace Transcript

/-- **What a run has counted.** -/
structure Counts where
  /-- Examples that failed. -/
  failed : Nat
  /-- Examples that were run. -/
  attempted : Nat
  /-- Examples that were not run. -/
  skipped : Nat
  deriving DecidableEq, Repr

/-- **The outcome counts of one or more tests,** in machine words. -/
structure Tally where
  /-- Examples that failed. -/
  failed : UInt64
  /-- Examples that were run. -/
  attempted : UInt64
  /-- Examples that were not run. -/
  skipped : UInt64
  deriving DecidableEq, Repr

/-- A number becomes a word; what does not fit is cut off. -/
instance natToWord : CoeTail Nat UInt64 := ⟨UInt64.ofNat⟩

/-- A word stands for a number. -/
instance wordToNat : CoeOut UInt64 Nat := ⟨UInt64.toNat⟩

/-- **How a test stands** in a summary. -/
inductive Standing
  /-- No example of it was run. -/
  | idle
  /-- All examples that were run have succeeded. -/
  | passed
  /-- An example has failed. -/
  | failing
  deriving DecidableEq, Repr

namespace Counts

/-- Nothing counted. -/
def zero : Counts := ⟨0, 0, 0⟩

/-- Counts as they are kept. -/
def tally (n : Counts) : Tally := ⟨n.failed, n.attempted, n.skipped⟩

end Counts

namespace Tally

/-- Nothing counted. -/
def zero : Tally := ⟨0, 0, 0⟩

instance : Inhabited Tally := ⟨zero⟩

/-- The sum of two tallies, count by count. -/
def add (a b : Tally) : Tally :=
  ⟨a.failed + b.failed, a.attempted + b.attempted, a.skipped + b.skipped⟩

/-- Whether nothing failed. -/
def isSuccess (t : Tally) : Bool := t.failed == 0

/-- How a test with some counts stands. -/
def standing (t : Tally) : Standing :=
  if t.attempted = 0 then .idle else if t.failed = 0 then .passed else .failing

theorem add_comm (a b : Tally) : a.add b = b.add a := by
  simp [add, UInt64.add_comm]

theorem add_assoc (a b c : Tally) : (a.add b).add c = a.add (b.add c) := by
  simp [add, UInt64.add_assoc]

@[simp] theorem zero_add (a : Tally) : zero.add a = a := by simp [add, zero]

end Tally

/-- **Counts that fit** are kept as they are. -/
theorem Counts.toNat_tally {n : Counts} (hfailed : n.failed < UInt64.size) (hattempted : n.attempted < UInt64.size)
    (hskipped : n.skipped < UInt64.size) :
    n.tally.failed.toNat = n.failed ∧ n.tally.attempted.toNat = n.attempted ∧
      n.tally.skipped.toNat = n.skipped :=
  ⟨UInt64.toNat_ofNat_of_lt' hfailed, UInt64.toNat_ofNat_of_lt' hattempted, UInt64.toNat_ofNat_of_lt' hskipped⟩

/-- **Tallies by test name.** -/
abbrev Ledger := Bindings Tally

namespace Ledger

/-- Adds a tally to the entry of a name. -/
def record (l : Ledger) (name : String) (t : Tally) : Ledger :=
  Bindings.insert l name (((Bindings.get? l name).getD .zero).add t)

/-- Adds all entries of another ledger. -/
def merge (l other : Ledger) : Ledger :=
  other.entries.foldl (fun l (name, t) => record l name t) l

/-- Forgets all entries. -/
def reset (_ : Ledger) : Ledger := .empty

/-- The sum of all entries. -/
def totals (l : Ledger) : Tally := l.entries.foldl (fun sum (_, t) => sum.add t) .zero

/-- The line that divides the failures of a report. -/
def divider : String := String.ofList (List.replicate 70 '*')

/-- The plural ending of a noun. -/
def plural (n : Nat) : String := if n = 1 then "" else "s"

/-- So many items. -/
def items (n : Nat) : String := s!"{n} item{plural n}"

/-- A number in at least three columns. -/
def column (n : Nat) : String :=
  let ds := Nat.toDigits 10 n
  String.ofList (List.replicate (3 - ds.length) ' ' ++ ds)

/-- Lines, each ended by a line feed. -/
def unlines (ls : List String) : String := String.join (ls.map (· ++ "\n"))

/-- The lines above the list of so many tests that stand alike. -/
def heading (n : Nat) : Standing → List String
  | .idle => [s!"{items n} had no tests:"]
  | .passed => [s!"{items n} passed all tests:"]
  | .failing => [divider, s!"{items n} had failures:"]

/-- The line of a test in the list of those that stand alike. -/
def line (name : String) (t : Tally) : Standing → String
  | .idle => "    " ++ name
  | .passed => s!" {column t.attempted} test{plural t.attempted} in {name}"
  | .failing => s!" {column t.failed} of {column t.attempted} in {name}"

/-- **The list of the tests that stand alike,** if there are any. -/
def listing (l : Ledger) (s : Standing) : List String :=
  let alike := l.entries.filter fun (_, t) => t.standing = s
  if alike.isEmpty then [] else heading alike.length s ++ alike.map fun (name, t) => line name t s

/-- The sums of a ledger in words. -/
def totalLines (l : Ledger) : List String :=
  let t := l.totals
  let good := t.attempted - t.failed
  [s!"{t.attempted.toNat} test{plural t.attempted} in {items l.size}.",
    if t.failed = 0 then s!"{good.toNat} passed."
    else s!"{good.toNat} passed and {t.failed.toNat} failed."]

/-- The verdict in one line; a success is told only where it is asked for. -/
def verdictLines (l : Ledger) (verbose : Bool) : List String :=
  let t := l.totals
  if t.failed = 0 then if verbose then ["Test passed."] else []
  else
    let skipped :=
      if t.skipped = 0 then "" else s!" and {t.skipped.toNat} skipped test{plural t.skipped}"
    [s!"***Test Failed*** {t.failed.toNat} failure{plural t.failed}{skipped}."]

/-- The lines of a summary. Failures and a bad verdict are always told. -/
def summaryLines (l : Ledger) (verbose : Bool) : List String :=
  (if verbose then l.listing .idle ++ l.listing .passed else []) ++ l.listing .failing ++
    (if verbose then l.totalLines else []) ++ l.verdictLines verbose

/-- **The summary of a ledger.** -/
def summary (l : Ledger) (verbose : Bool) : String := unlines (l.summaryLines verbose)

theorem get?_record_self (l : Ledger) (name : String) (t : Tally) :
    Bindings.get? (record l name t) name = some (((Bindings.get? l name).getD .zero).add t) :=
  Bindings.get?_insert_self l name _

end Ledger

end Transcript
