/-!
# Positions in bytes

Positions of a text count the bytes of its UTF-8 form. A cut inside a character gives nothing.

Results:
* `dropBytes_append`: cutting off the bytes of a first part leaves the second.
-/

namespace Transcript.Text

/-- The length of the UTF-8 form. -/
def byteLength : List Char → Nat
  | [] => 0
  | c :: cs => c.utf8Size + byteLength cs

/-- The text after its first `n` bytes, if there are so many and no character straddles the cut. -/
def dropBytes : Nat → List Char → Option (List Char)
  | 0, cs => some cs
  | _ + 1, [] => none
  | n + 1, c :: cs => if c.utf8Size ≤ n + 1 then dropBytes (n + 1 - c.utf8Size) cs else none

/-- The first `n` bytes of a text, if there are so many and no character straddles the cut. -/
def takeBytes : Nat → List Char → Option (List Char)
  | 0, _ => some []
  | _ + 1, [] => none
  | n + 1, c :: cs =>
    if c.utf8Size ≤ n + 1 then (takeBytes (n + 1 - c.utf8Size) cs).map (c :: ·) else none

/-- The longest first part of at most `n` bytes. -/
def upToBytes : Nat → List Char → List Char
  | _, [] => []
  | n, c :: cs => if c.utf8Size ≤ n then c :: upToBytes (n - c.utf8Size) cs else []

/-- The character whose first byte has the given position. `none` where the text has no such byte,
`some none` where the byte lies inside a character. -/
def charAtByte : Nat → List Char → Option (Option Char)
  | _, [] => none
  | 0, c :: _ => some (some c)
  | n + 1, c :: cs => if c.utf8Size ≤ n + 1 then charAtByte (n + 1 - c.utf8Size) cs else some none

@[simp] theorem byteLength_append (s t : List Char) :
    byteLength (s ++ t) = byteLength s + byteLength t := by
  induction s with
  | nil => simp [byteLength]
  | cons c cs ih => simp [byteLength, ih, Nat.add_assoc]

theorem dropBytes_append (s t : List Char) : dropBytes (byteLength s) (s ++ t) = some t := by
  induction s with
  | nil => cases t <;> rfl
  | cons c cs ih =>
    have hc : 0 < c.utf8Size := Char.utf8Size_pos c
    obtain ⟨n, hn⟩ : ∃ n, byteLength (c :: cs) = n + 1 :=
      ⟨byteLength (c :: cs) - 1, by simp only [byteLength]; omega⟩
    have hle : c.utf8Size ≤ n + 1 := by simp only [byteLength] at hn; omega
    have hsub : n + 1 - c.utf8Size = byteLength cs := by simp only [byteLength] at hn; omega
    rw [hn, List.cons_append]
    simp [dropBytes, hle, hsub, ih]

end Transcript.Text
