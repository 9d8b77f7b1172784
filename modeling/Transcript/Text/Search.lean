/-!
# Searching for a part of a text

Results:
* `splitAt?_eq_some`: a split gives back the text around the marker.
-/

namespace Transcript.Text

/-- The text after a given beginning. -/
def afterBegin? : List Char → List Char → Option (List Char)
  | [], s => some s
  | _ :: _, [] => none
  | p :: ps, c :: cs => if p = c then afterBegin? ps cs else none

/-- The text split at the leftmost occurrence of a marker: what stands before and after it. -/
def splitAt? (marker : List Char) : List Char → Option (List Char × List Char)
  | [] => if marker.isEmpty then some ([], []) else none
  | c :: cs =>
    match afterBegin? marker (c :: cs) with
    | some rest => some ([], rest)
    | none => (splitAt? marker cs).map fun (before, rest) => (c :: before, rest)

/-- Whether the marker occurs in the text. -/
def contains (s marker : List Char) : Bool := (splitAt? marker s).isSome

/-- The text before a given end. -/
def beforeEnd? (ending s : List Char) : Option (List Char) :=
  (afterBegin? ending.reverse s.reverse).map List.reverse

/-- The parts of a text between markers, after skipping some characters. Markers are taken from
left to right and do not overlap. -/
def splitOnAfter (marker : List Char) : Nat → List Char → List (List Char)
  | _, [] => [[]]
  | skip + 1, _ :: cs => splitOnAfter marker skip cs
  | 0, c :: cs =>
    if marker.isPrefixOf (c :: cs) then [] :: splitOnAfter marker (marker.length - 1) cs
    else
      match splitOnAfter marker 0 cs with
      | [] => [[c]]
      | f :: fs => (c :: f) :: fs

/-- The parts of a text between the leftmost markers that do not overlap: never an empty list. -/
def splitOn (marker s : List Char) : List (List Char) := splitOnAfter marker 0 s

theorem afterBegin?_eq_some {p s r : List Char} : afterBegin? p s = some r ↔ s = p ++ r := by
  induction p generalizing s with
  | nil => simp [afterBegin?, eq_comm]
  | cons a p ih =>
    cases s with
    | nil => simp [afterBegin?]
    | cons c cs =>
      by_cases h : a = c
      · simp [afterBegin?, h, ih]
      · simp [afterBegin?, h]; intro h'; exact absurd h'.symm h

theorem splitAt?_eq_some {marker s before rest : List Char}
    (h : splitAt? marker s = some (before, rest)) : s = before ++ marker ++ rest := by
  induction s generalizing before with
  | nil =>
    simp only [splitAt?] at h
    split at h
    · rename_i hm
      simp only [Option.some.injEq, Prod.mk.injEq] at h
      simp [← h.1, ← h.2, List.isEmpty_iff.1 hm]
    · exact absurd h (by simp)
  | cons c cs ih =>
    simp only [splitAt?] at h
    split at h
    · rename_i r hr
      simp only [Option.some.injEq, Prod.mk.injEq] at h
      rw [afterBegin?_eq_some.1 hr, ← h.1, ← h.2]; rfl
    · simp only [Option.map_eq_some_iff, Prod.exists, Prod.mk.injEq] at h
      obtain ⟨b, r, hbr, rfl, rfl⟩ := h
      simp [ih hbr]

end Transcript.Text
