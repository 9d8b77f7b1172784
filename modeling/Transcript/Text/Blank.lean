/-!
# Blank characters

The characters with the Unicode property White_Space, and the trimming and word splitting that
rest on it. Texts are lists of characters here, so that every cut is a structural recursion.
-/

namespace Transcript.Text

/-- **Blank.** The Unicode property White_Space. -/
def isBlank (c : Char) : Bool :=
  let n := c.toNat
  (9 ≤ n && n ≤ 13) || n == 32 || n == 0x85 || n == 0xA0 || n == 0x1680 ||
    (0x2000 ≤ n && n ≤ 0x200A) || n == 0x2028 || n == 0x2029 || n == 0x202F || n == 0x205F ||
    n == 0x3000

/-- A text of blanks only, the empty text included. -/
def allBlank (s : List Char) : Bool := s.all isBlank

/-- The text from its first character that is not blank. -/
def trimStart (s : List Char) : List Char := s.dropWhile isBlank

/-- The text up to its last character that satisfies no `p`. -/
def dropEndWhile (p : Char → Bool) : List Char → List Char
  | [] => []
  | c :: cs =>
    match dropEndWhile p cs with
    | [] => if p c then [] else [c]
    | d :: ds => c :: d :: ds

/-- The text up to its last character that is not blank. -/
def trimEnd (s : List Char) : List Char := dropEndWhile isBlank s

/-- The text between its first and its last character that is not blank. -/
def trim (s : List Char) : List Char := trimEnd (trimStart s)

/-- The parts of a text between the characters that satisfy `p`, empty parts included: never an
empty list. -/
def pieces (p : Char → Bool) : List Char → List (List Char)
  | [] => [[]]
  | c :: cs =>
    if p c then [] :: pieces p cs
    else
      match pieces p cs with
      | [] => [[c]]
      | f :: fs => (c :: f) :: fs

/-- The nonempty parts of a text between the characters that satisfy `p`. -/
def fields (p : Char → Bool) (s : List Char) : List (List Char) :=
  (pieces p s).filter (!·.isEmpty)

/-- The words of a text: its longest runs without a blank. -/
def words (s : List Char) : List (List Char) := fields isBlank s

/-- Words with one separator between neighbours. -/
def joinWith (sep : List Char) : List (List Char) → List Char
  | [] => []
  | [w] => w
  | w :: ws => w ++ sep ++ joinWith sep ws

theorem pieces_ne_nil (p : Char → Bool) (s : List Char) : pieces p s ≠ [] := by
  cases s with
  | nil => simp [pieces]
  | cons c cs =>
    simp only [pieces]
    split
    · simp
    · split <;> simp

theorem dropEndWhile_of_all (p : Char → Bool) (s : List Char) (h : s.all p = true) :
    dropEndWhile p s = [] := by
  induction s with
  | nil => rfl
  | cons c cs ih =>
    simp only [List.all_cons, Bool.and_eq_true] at h
    simp [dropEndWhile, ih h.2, h.1]

end Transcript.Text
