/-!
# Edit scripts between two texts

A script says how the lines of an old text become those of a new one: runs of lines are kept,
removed, added or replaced. Each edit carries the places of its runs in both texts.

A shortest script may scatter what reads as one change. Removed and added runs are moved up and
then down over kept lines that repeat them, and runs that meet are joined; at last a removal next
to an addition becomes one replacement.
-/

namespace Transcript.Diff

/-- A line of a text, with its line end. -/
abbrev Line := List Char

/-- **One edit.** -/
inductive Edit
  /-- A run of lines is the same in both texts. -/
  | keep (old new length : Nat)
  /-- A run of old lines is removed; the new text stands at `new`. -/
  | remove (old length new : Nat)
  /-- A run of new lines is added; the old text stands at `old`. -/
  | add (old new length : Nat)
  /-- A run of old lines is replaced by a run of new lines. -/
  | replace (old oldLength new newLength : Nat)
  deriving DecidableEq, Repr, Inhabited

namespace Edit

/-- The first place in the old text. -/
def oldStart : Edit → Nat
  | keep old _ _ | remove old _ _ | add old _ _ | replace old _ _ _ => old

/-- The first place in the new text. -/
def newStart : Edit → Nat
  | keep _ new _ | remove _ _ new | add _ new _ | replace _ _ new _ => new

/-- How many old lines the edit covers. -/
def oldLength : Edit → Nat
  | keep _ _ n | remove _ n _ | replace _ n _ _ => n
  | add _ _ _ => 0

/-- How many new lines the edit covers. -/
def newLength : Edit → Nat
  | keep _ _ n | add _ _ n | replace _ _ _ n => n
  | remove _ _ _ => 0

/-- The place after the old lines. -/
def oldEnd (e : Edit) : Nat := e.oldStart + e.oldLength

/-- The place after the new lines. -/
def newEnd (e : Edit) : Nat := e.newStart + e.newLength

/-- Whether the edit covers no line. -/
def isEmpty (e : Edit) : Bool := e.oldLength == 0 && e.newLength == 0

end Edit

/-- A script: edits in the order of the texts. -/
abbrev Script := List Edit

/-- **A line diff:** it finds a script that makes new lines of old ones. -/
abbrev LineDiff := Array Line → Array Line → Script

/-- The lines of a run. -/
def run (text : Array Line) (start length : Nat) : List Line := (text.extract start (start + length)).toList

/-- The old lines that a script covers. -/
def oldLines (text : Array Line) (s : Script) : List Line :=
  s.flatMap fun e => run text e.oldStart e.oldLength

/-- The new lines that a script covers. -/
def newLines (text : Array Line) (s : Script) : List Line :=
  s.flatMap fun e => run text e.newStart e.newLength

/-- How many lines two texts share from the given places on, both runs ending before the ends. -/
def commonStart (old new : Array Line) (i iEnd j jEnd : Nat) : Nat → Nat
  | 0 => 0
  | fuel + 1 =>
    if i < iEnd && j < jEnd && old[i]? == new[j]? then
      commonStart old new (i + 1) iEnd (j + 1) jEnd fuel + 1
    else 0

/-- How many lines two runs share at their beginnings. -/
def commonPrefix (old new : Array Line) (i iEnd j jEnd : Nat) : Nat :=
  commonStart old new i iEnd j jEnd (iEnd - i)

/-- How many lines two runs share at their ends. -/
def commonEnd (old new : Array Line) (i iEnd j jEnd : Nat) : Nat → Nat
  | 0 => 0
  | fuel + 1 =>
    if i < iEnd && j < jEnd && old[iEnd - 1]? == new[jEnd - 1]? then
      commonEnd old new i (iEnd - 1) j (jEnd - 1) fuel + 1
    else 0

/-- How many lines two runs share at their ends. -/
def commonSuffix (old new : Array Line) (i iEnd j jEnd : Nat) : Nat :=
  commonEnd old new i iEnd j jEnd (iEnd - i)

/-! ## Shortest scripts from the middle

The shortest script between two runs of lines is a shortest path in the grid of line pairs, where a
diagonal step keeps a line. Two searches, from both corners, advance their furthest points on each
diagonal until they meet; the path is split there and each half is searched in the same way.
-/

/-- The furthest points of a search: a place in the old run for each diagonal. -/
structure Frontier where
  /-- The number of diagonals on either side. -/
  offset : Nat
  /-- The places, diagonal `k` at index `k + offset`. -/
  places : Array Nat

namespace Frontier

/-- The furthest point on a diagonal. -/
def furthest (f : Frontier) (k : Int) : Nat := (f.places[(k + f.offset).toNat]?).getD 0

/-- Moves the furthest point on a diagonal. -/
def set (f : Frontier) (k : Int) (x : Nat) : Frontier :=
  { f with places := f.places.setIfInBounds (k + f.offset).toNat x }

/-- The search that stands before its corner. -/
def start (rounds : Nat) : Frontier :=
  Frontier.set ⟨rounds + 1, Array.replicate (2 * rounds + 3) 0⟩ 1 0

/-- The first point of diagonal `k` in round `d`: one step on from the better neighbour. -/
def advance (f : Frontier) (d : Nat) (k : Int) : Nat :=
  if k = -(d : Int) || (k != d && f.furthest (k - 1) < f.furthest (k + 1)) then f.furthest (k + 1)
  else f.furthest (k - 1) + 1

end Frontier

/-- The diagonals of round `d`, from the highest. -/
def diagonals (d : Nat) : List Int := (List.range (d + 1)).map fun (i : Nat) => (d : Int) - 2 * (i : Int)

/-- A part of the grid: a run of old lines and a run of new lines. -/
structure Area where
  /-- First old line. -/
  i : Nat
  /-- End of the old lines. -/
  iEnd : Nat
  /-- First new line. -/
  j : Nat
  /-- End of the new lines. -/
  jEnd : Nat

namespace Area

/-- The number of old lines. -/
def width (a : Area) : Nat := a.iEnd - a.i

/-- The number of new lines. -/
def height (a : Area) : Nat := a.jEnd - a.j

/-- The diagonal on which the far corner lies. -/
def corner (a : Area) : Int := (a.width : Int) - a.height

/-- How many rounds suffice for the searches to meet. -/
def rounds (a : Area) : Nat := (a.width + a.height + 1) / 2 + 1

end Area

/-- One diagonal of a round from the near corner. The searches meet here only if the corners lie an
odd number of diagonals apart. -/
def forward (old new : Array Line) (a : Area) (back : Frontier) (d : Nat) (f : Frontier) (k : Int) :
    Except (Nat × Nat) Frontier :=
  let x := f.advance d k
  let y := ((x : Int) - k).toNat
  let kept :=
    if x < a.width && y < a.height then commonPrefix old new (a.i + x) a.iEnd (a.j + y) a.jEnd else 0
  let f := f.set k (x + kept)
  let k' := k - a.corner
  if a.corner % 2 != 0 && k'.natAbs + 1 ≤ d && a.width ≤ x + kept + back.furthest (-k') then
    .error (a.i + x, a.j + y)
  else .ok f

/-- One diagonal of a round from the far corner. -/
def backward (old new : Array Line) (a : Area) (front : Frontier) (d : Nat) (b : Frontier)
    (k : Int) : Except (Nat × Nat) Frontier :=
  let x := b.advance d k
  let y := ((x : Int) - k).toNat
  let kept :=
    if x < a.width && y < a.height then
      commonSuffix old new a.i (a.i + a.width - x) a.j (a.j + a.height - y)
    else 0
  let b := b.set k (x + kept)
  let k' := k - a.corner
  if a.corner % 2 == 0 && k'.natAbs ≤ d && a.width ≤ x + kept + front.furthest (-k') then
    .error (a.i + a.width - (x + kept), a.j + a.height - (y + kept))
  else .ok b

/-- The rounds of both searches; `error` is the point where they meet. -/
def search (old new : Array Line) (a : Area) : Nat → Nat → Frontier → Frontier →
    Except (Nat × Nat) Unit
  | 0, _, _, _ => .ok ()
  | more + 1, d, f, b => do
    let f ← (diagonals d).foldlM (forward old new a b d) f
    let b ← (diagonals d).foldlM (backward old new a f d) b
    search old new a more (d + 1) f b

/-- The point at which a shortest path through the area is split. -/
def middle? (old new : Array Line) (a : Area) : Option (Nat × Nat) :=
  match search old new a a.rounds 0 (.start a.rounds) (.start a.rounds) with
  | .error point => some point
  | .ok () => none

/-- All old lines of an area removed, all new ones added. -/
def rewriteAll (a : Area) : Script := [.remove a.i a.width a.j, .add a.i a.j a.height]

/-- A script for an area, after its common ends have been kept. -/
def between (old new : Array Line) : Nat → Area → Script
  | 0, a => rewriteAll a
  | fuel + 1, a =>
    let p := commonPrefix old new a.i a.iEnd a.j a.jEnd
    let s := commonSuffix old new (a.i + p) a.iEnd (a.j + p) a.jEnd
    let inner : Area := ⟨a.i + p, a.iEnd - s, a.j + p, a.jEnd - s⟩
    let changes : Script :=
      if inner.width = 0 && inner.height = 0 then []
      else if inner.height = 0 then [.remove inner.i inner.width inner.j]
      else if inner.width = 0 then [.add inner.i inner.j inner.height]
      else
        match middle? old new inner with
        | some (x, y) =>
          between old new fuel ⟨inner.i, x, inner.j, y⟩ ++
            between old new fuel ⟨x, inner.iEnd, y, inner.jEnd⟩
        | none => rewriteAll inner
    (if p = 0 then [] else [.keep a.i a.j p]) ++ changes ++
      (if s = 0 then [] else [.keep inner.iEnd inner.jEnd s])

/-- A shortest script between two texts. -/
def shortest (old new : Array Line) : Script :=
  between old new (old.size + new.size + 1) ⟨0, old.size, 0, new.size⟩

/-! ## Compact scripts -/

/-- A script with a finger on one edit: what comes before, nearest first, and what comes after. -/
structure Focus where
  /-- The edits before, nearest first. -/
  before : Script
  /-- The edit under the finger. -/
  this : Edit
  /-- The edits after. -/
  after : Script

/-- Moves both places of an edit back. -/
def Edit.moveUp (n : Nat) : Edit → Edit
  | .keep i j l => .keep (i - n) (j - n) l
  | .remove i l j => .remove (i - n) l (j - n)
  | .add i j l => .add (i - n) (j - n) l
  | .replace i k j l => .replace (i - n) k (j - n) l

/-- Moves both places of an edit on. -/
def Edit.moveDown (n : Nat) : Edit → Edit
  | .keep i j l => .keep (i + n) (j + n) l
  | .remove i l j => .remove (i + n) l (j + n)
  | .add i j l => .add (i + n) (j + n) l
  | .replace i k j l => .replace (i + n) k (j + n) l

/-- Puts kept lines in front of a script, joining them to a kept run there. -/
def keepBefore (i j n : Nat) : Script → Script
  | .keep i' j' l :: rest => .keep (i' - n) (j' - n) (l + n) :: rest
  | rest => .keep i j n :: rest

/-- Puts kept lines at the near end of the edits before the finger, joining them to a kept run
there. -/
def keepAfter (i j n : Nat) : Script → Script
  | .keep i' j' l :: rest => .keep i' j' (l + n) :: rest
  | rest => .keep i j n :: rest

/-- Moves the edit under the finger up as far as it goes. -/
def moveUp (old new : Array Line) : Nat → Focus → Focus
  | 0, f => f
  | fuel + 1, f =>
    match f.before with
    | [] => f
    | prev :: before =>
      match f.this, prev with
      | .keep .., _ | .replace .., _ | _, .replace .. => f
      | this, .keep i j l =>
        let n := commonSuffix old new i (i + l) this.newStart this.newEnd
        if n = 0 then if l = 0 then moveUp old new fuel { f with before } else f
        else
          let before := if l = n then before else .keep i j (l - n) :: before
          let after := keepBefore (i + l - n) (this.newEnd - n) n f.after
          moveUp old new fuel ⟨before, this.moveUp n, after⟩
      | .add _ _ m, .add i j l => moveUp old new fuel ⟨before, .add i j (l + m), f.after⟩
      | .remove _ m _, .remove i l j => moveUp old new fuel ⟨before, .remove i (l + m) j, f.after⟩
      | this, prev => moveUp old new fuel ⟨before, this, prev :: f.after⟩

/-- Moves the edit under the finger down as far as it goes. -/
def moveDown (old new : Array Line) : Nat → Focus → Focus
  | 0, f => f
  | fuel + 1, f =>
    match f.after with
    | [] => f
    | next :: after =>
      match f.this, next with
      | .keep .., _ | .replace .., _ | _, .replace .. => f
      | this, .keep i j l =>
        let n := commonPrefix old new i (i + l) this.newStart this.newEnd
        if n = 0 then if l = 0 then moveDown old new fuel { f with after } else f
        else
          let before := keepAfter i this.newStart n f.before
          let after := if l = n then after else .keep (i + n) (j + n) (l - n) :: after
          moveDown old new fuel ⟨before, this.moveDown n, after⟩
      | .add i j l, .add _ _ m => moveDown old new fuel ⟨f.before, .add i j (l + m), after⟩
      | .remove i l j, .remove _ m _ => moveDown old new fuel ⟨f.before, .remove i (l + m) j, after⟩
      | this, next => moveDown old new fuel ⟨next :: f.before, this, after⟩

/-- Moves every edit of one kind, from the first to the last. -/
def moveAll (old new : Array Line) (chosen : Edit → Bool) (steps : Nat) :
    Nat → Script → Script → Script
  | 0, before, after => before.reverse ++ after
  | _ + 1, before, [] => before.reverse
  | fuel + 1, before, this :: after =>
    if chosen this then
      let f := moveDown old new steps (moveUp old new steps ⟨before, this, after⟩)
      moveAll old new chosen steps fuel (f.this :: f.before) f.after
    else moveAll old new chosen steps fuel (this :: before) after

/-- Whether an edit removes lines. -/
def Edit.isRemove : Edit → Bool
  | .remove .. => true
  | _ => false

/-- Whether an edit adds lines. -/
def Edit.isAdd : Edit → Bool
  | .add .. => true
  | _ => false

/-- The script after its removals and then its additions have been moved. -/
def moved (old new : Array Line) (s : Script) : Script :=
  let steps := 2 * (old.size + new.size + s.length) + 2
  let s := moveAll old new Edit.isRemove steps steps [] s
  moveAll old new Edit.isAdd steps steps [] s

/-- Edits that wait to be joined with the next one. -/
structure Pending where
  /-- A kept run: places and length. -/
  kept : Option (Nat × Nat × Nat)
  /-- A removed run: old place, length, new place. -/
  removed : Option (Nat × Nat × Nat)
  /-- An added run: old place, new place, length. -/
  added : Option (Nat × Nat × Nat)

/-- The changes that wait, as at most one edit. -/
def Pending.changes (p : Pending) : Script :=
  match p.removed, p.added with
  | some (i, l, _), some (_, j, m) => [.replace i l j m]
  | some (i, l, j), none => [.remove i l j]
  | none, some (i, j, m) => [.add i j m]
  | none, none => []

/-- The kept lines that wait. -/
def Pending.keeps (p : Pending) : Script :=
  match p.kept with
  | some (i, j, l) => [.keep i j l]
  | none => []

/-- The script with neighbours of one kind joined, and a removal with an addition. -/
def joinedFrom (p : Pending) : Script → Script
  | [] => p.keeps ++ p.changes
  | .keep i j l :: rest =>
    let kept :=
      match p.kept with
      | some (i', j', l') => (i', j', l' + l)
      | none => (i, j, l)
    p.changes ++ joinedFrom ⟨some kept, none, none⟩ rest
  | .remove i l j :: rest =>
    let removed :=
      match p.removed with
      | some (i', l', j') => (i', l' + l, j')
      | none => (i, l, j)
    p.keeps ++ joinedFrom ⟨none, some removed, p.added⟩ rest
  | .add i j l :: rest =>
    let added :=
      match p.added with
      | some (i', j', l') => (i', j', l' + l)
      | none => (i, j, l)
    p.keeps ++ joinedFrom ⟨none, p.removed, some added⟩ rest
  | .replace i l j m :: rest =>
    p.keeps ++ p.changes ++ .replace i l j m :: joinedFrom ⟨none, none, none⟩ rest

/-- The script with neighbours of one kind joined, and a removal with an addition. -/
def joined (s : Script) : Script := joinedFrom ⟨none, none, none⟩ s

/-- The compact form of a script. -/
def compact (old new : Array Line) (s : Script) : Script := joined (moved old new s)

/-- The compact form of a shortest script. -/
def compactShortest : LineDiff := fun old new => compact old new (shortest old new)

end Transcript.Diff
