import Transcript.Diff.Script
import Transcript.Text.Blank

/-!
# Hunks and their printed forms

A report shows only the changes of a script with a few kept lines around them. It has one of three
forms: unified (signs before the lines of both texts), context (both texts one after the other) or
complete (all lines with signs).
-/

namespace Transcript.Diff

/-- The lines of a text with their line ends; a carriage return ends a line also without a line
feed. -/
def diffLines : List Char → List Line
  | [] => []
  | '\r' :: '\n' :: cs => ['\r', '\n'] :: diffLines cs
  | c :: cs =>
    if c = '\n' || c = '\r' then [c] :: diffLines cs
    else
      match diffLines cs with
      | [] => [[c]]
      | l :: ls => (c :: l) :: ls

/-- **Two texts and the script between them.** -/
structure Comparison where
  /-- The old lines. -/
  old : Array Line
  /-- The new lines. -/
  new : Array Line
  /-- The script. -/
  script : Script

/-- Compares two texts line by line. -/
def Comparison.ofTexts (diff : LineDiff) (old new : List Char) : Comparison :=
  let old := (diffLines old).toArray
  let new := (diffLines new).toArray
  ⟨old, new, diff old new⟩

/-- Kept lines at the beginning of a script cut to the last `n`. -/
def trimFirst (n : Nat) : Script → Script
  | .keep i j l :: rest => .keep (i + (l - n)) (j + (l - n)) (l - (l - n)) :: rest
  | s => s

/-- Kept lines at the end of a script cut to the first `n`. -/
def trimLast (n : Nat) : Script → Script
  | [] => []
  | [.keep i j l] => [.keep i j (l - (l - n))]
  | e :: rest => e :: trimLast n rest

/-- The edits so far, nearest last, split at every long kept run into parts with `n` kept lines at
either end. -/
def splitKept (n : Nat) (sofar : Script) : Script → List Script
  | [] =>
    match sofar with
    | [] | [.keep ..] => []
    | _ => [sofar]
  | .keep i j l :: rest =>
    if 2 * n < l then
      (sofar ++ [.keep i j n]) :: splitKept n [.keep (i + (l - n)) (j + (l - n)) n] rest
    else splitKept n (sofar ++ [.keep i j l]) rest
  | e :: rest => splitKept n (sofar ++ [e]) rest

/-- The hunks of a script: its changes with at most `n` kept lines around them. -/
def hunks (n : Nat) (s : Script) : List Script :=
  if s.isEmpty then [] else splitKept n [] (trimLast n (trimFirst n s))

/-- The lines of one edit with the signs of removed, added and kept lines. -/
def signed (c : Comparison) (removed added kept : List Char) (e : Edit) : List Line :=
  match e with
  | .keep i _ l => (run c.old i l).map (kept ++ ·)
  | .remove i l _ => (run c.old i l).map (removed ++ ·)
  | .add _ j l => (run c.new j l).map (added ++ ·)
  | .replace i l j m => (run c.old i l).map (removed ++ ·) ++ (run c.new j m).map (added ++ ·)

/-- A number as text. -/
def decimal (n : Nat) : List Char := Nat.toDigits 10 n

/-- The span of a hunk in a unified diff: first line and number of lines. -/
def unifiedSpan (start stop : Nat) : List Char :=
  if stop - start = 1 then decimal (start + 1)
  else if stop - start = 0 then decimal start ++ ",0".toList
  else decimal (start + 1) ++ ',' :: decimal (stop - start)

/-- The place of the first edit and the end of the last in one of the texts. -/
def span (start stop : Edit → Nat) (hunk : Script) : Nat × Nat :=
  ((hunk.head?.map start).getD 0, (hunk.getLast?.map stop).getD 0)

/-- A line of a unified diff; a missing line end is told. -/
def endLine (line : Line) : List Char :=
  match line.getLast? with
  | some '\n' | some '\r' => line
  | _ => line ++ "\n\\ No newline at end of file\n".toList

/-- A hunk of a unified diff. -/
def unifiedHunk (c : Comparison) (hunk : Script) : List Char :=
  let (oldStart, oldStop) := span Edit.oldStart Edit.oldEnd hunk
  let (newStart, newStop) := span Edit.newStart Edit.newEnd hunk
  "@@ -".toList ++ unifiedSpan oldStart oldStop ++ " +".toList ++ unifiedSpan newStart newStop ++
    " @@\n".toList ++ (hunk.flatMap (signed c ['-'] ['+'] [' '])).flatMap endLine

/-- The unified diff of two texts. -/
def unified (n : Nat) (c : Comparison) : List Char := (hunks n c.script).flatMap (unifiedHunk c)

/-- The span of a hunk in a context diff: first and last line. -/
def contextSpan (start stop : Nat) : List Char :=
  let length := stop - start
  let first := if length = 0 then start else start + 1
  if length ≤ 1 then decimal first else decimal first ++ ',' :: decimal (first + length - 1)

/-- The old lines of an edit in a context diff. -/
def contextOld (c : Comparison) : Edit → List Line
  | .keep i _ l => (run c.old i l).map ([' ', ' '] ++ ·)
  | .remove i l _ => (run c.old i l).map (['-', ' '] ++ ·)
  | .replace i l _ _ => (run c.old i l).map (['!', ' '] ++ ·)
  | .add .. => []

/-- The new lines of an edit in a context diff. -/
def contextNew (c : Comparison) : Edit → List Line
  | .keep _ j l => (run c.new j l).map ([' ', ' '] ++ ·)
  | .add _ j l => (run c.new j l).map (['+', ' '] ++ ·)
  | .replace _ _ j l => (run c.new j l).map (['!', ' '] ++ ·)
  | .remove .. => []

/-- A hunk of a context diff. A text without changes in the hunk shows its span only. -/
def contextHunk (c : Comparison) (hunk : Script) : List Char :=
  let (oldStart, oldStop) := span Edit.oldStart Edit.oldEnd hunk
  let (newStart, newStop) := span Edit.newStart Edit.newEnd hunk
  let changesOld := hunk.any fun
    | .remove .. | .replace .. => true
    | _ => false
  let changesNew := hunk.any fun
    | .add .. | .replace .. => true
    | _ => false
  "***************\n*** ".toList ++ contextSpan oldStart oldStop ++ " ****\n".toList ++
    (if changesOld then (hunk.flatMap (contextOld c)).flatten else []) ++
    "--- ".toList ++ contextSpan newStart newStop ++ " ----\n".toList ++
    (if changesNew then (hunk.flatMap (contextNew c)).flatten else [])

/-- The context diff of two texts. -/
def context (n : Nat) (c : Comparison) : List Char := (hunks n c.script).flatMap (contextHunk c)

/-- All lines of two texts with their signs. -/
def complete (c : Comparison) : List Char :=
  (c.script.flatMap (signed c ['-', ' '] ['+', ' '] [' ', ' '])).flatten

end Transcript.Diff
