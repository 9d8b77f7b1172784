import Transcript.Markdown.Reader
import Transcript.Proofs.Text.Line

/-!
# Where the lines of a document stand

A document is cut into chunks line by line. Between two lines the reader is outside of directives or in
the body of one; outside it minds whether it is in code, in a body it counts the directives that are open
there. Code in a body is followed here as well, although the reader does not mind it.

Results:
* `turnsOf_append`: what stands before a line tells where it stands.
* `fences_chunks`: the lines that open and close the directives of a document are those where the place
  changes between outside and inside.
-/

namespace Transcript.Markdown

/-! ## Places -/

/-- **A place between two lines.** -/
inductive Place
  /-- Outside of directives, perhaps in code behind a fence. -/
  | outside (code : Option (List Char))
  /-- In the body of a directive with a fence of some width, with the widths of the directives that are
  open in it, the innermost first, perhaps in code behind a fence. -/
  | inside (width : Nat) (inner : List Nat) (code : Option (List Char))

/-- The fence of the code that a line is followed by. -/
def codeAfter (code : Option (List Char)) (line : List Char) : Option (List Char) :=
  match code with
  | some fence => if closesCode fence line then none else some fence
  | none => codeFence? line

/-- The directives that are open in a body after a line of it; none if the line closes the directive. -/
def innerAfter? (width : Nat) (inner : List Nat) (line : List Char) : Option (List Nat) :=
  match colonFence? line, closingWidth? line, inner with
  | some (w, _), _, _ => some (w :: inner)
  | none, none, _ => some inner
  | none, some n, w :: outer => some (if w ≤ n then outer else inner)
  | none, some n, [] => if width ≤ n then none else some inner

namespace Place

/-- The fence of the code that a place is in. -/
def code : Place → Option (List Char)
  | outside code => code
  | inside _ _ code => code

/-- Whether a place is in the body of a directive. -/
def isInside : Place → Bool
  | outside _ => false
  | inside .. => true

/-- **The place after a line.** -/
def after : Place → List Char → Place
  | outside (some fence), line => outside (codeAfter (some fence) line)
  | outside none, line =>
    match codeFence? line, colonFence? line with
    | some fence, _ => outside (some fence)
    | none, some (width, _) => inside width [] none
    | none, none => outside none
  | inside width inner code, line =>
    match innerAfter? width inner line with
    | none => outside none
    | some inner => inside width inner (codeAfter code line)

/-- Whether a line opens or closes a directive of the document itself. -/
def turns (p : Place) (line : List Char) : Bool := p.isInside != (p.after line).isInside

/-- **Whether a line is taken for a fence of a directive,** of the document itself or of one inside of a
body. -/
def heeds : Place → List Char → Bool
  | inside width inner _, line => innerAfter? width inner line != some inner
  | p, line => p.turns line

/-- The place after lines. -/
def afterLines (p : Place) (lines : List (List Char)) : Place := lines.foldl after p

/-- The lines among some where a directive of the document is opened or closed. -/
def turnsOf : Place → List Numbered → List Numbered
  | _, [] => []
  | p, l :: ls => (if p.turns l.text then [l] else []) ++ turnsOf (p.after l.text) ls

theorem after_outside (line : List Char) :
    (outside none).after line =
      match codeFence? line, colonFence? line with
      | some fence, _ => outside (some fence)
      | none, some (width, _) => inside width [] none
      | none, none => outside none := rfl

theorem after_inside (width : Nat) (inner : List Nat) (code : Option (List Char)) (line : List Char) :
    (inside width inner code).after line =
      match innerAfter? width inner line with
      | none => outside none
      | some inner => inside width inner (codeAfter code line) := rfl

theorem afterLines_cons (p : Place) (l : List Char) (ls : List (List Char)) :
    p.afterLines (l :: ls) = (p.after l).afterLines ls := rfl

theorem turnsOf_append (p : Place) (a b : List Numbered) :
    p.turnsOf (a ++ b) = p.turnsOf a ++ (p.afterLines (a.map Numbered.text)).turnsOf b := by
  induction a generalizing p with
  | nil => rfl
  | cons l ls ih => rw [List.cons_append, turnsOf, turnsOf, ih, List.append_assoc]; rfl

theorem turnsOf_subset (p : Place) (ls : List Numbered) : p.turnsOf ls ⊆ ls := by
  induction ls generalizing p with
  | nil => exact List.Subset.refl _
  | cons l ls ih =>
    rw [turnsOf]
    refine List.append_subset.mpr ⟨?_, fun x hx => List.mem_cons_of_mem l (ih _ hx)⟩
    split_ifs
    · exact List.cons_subset_cons l (List.nil_subset ls)
    · exact List.nil_subset _

end Place

open Place

/-! ## Bodies -/

/-- **A body goes on** as long as no line closes the directive. -/
theorem bodyOf_cons (width : Nat) (inner : List Nat) (l : Numbered) (ls : List Numbered) :
    bodyOf width inner (l :: ls) =
      match innerAfter? width inner l.text with
      | none => []
      | some inner' => l :: bodyOf width inner' ls := by
  unfold innerAfter?
  cases hcolon : colonFence? l.text with
  | some opened => simp only [bodyOf, hcolon]
  | none =>
    cases hclosing : closingWidth? l.text with
    | none => simp only [bodyOf, hcolon, hclosing]
    | some n =>
      cases inner with
      | cons w outer => simp only [bodyOf, hcolon, hclosing]
      | nil =>
        simp only [bodyOf, hcolon, hclosing]
        split_ifs <;> rfl

/-- The first turn behind a place in a body is at the line that closes the directive. -/
theorem turnsOf_inside (width : Nat) (inner : List Nat) (code : Option (List Char)) (ls : List Numbered) :
    (inside width inner code).turnsOf ls =
      (ls.drop (bodyOf width inner ls).length).take 1 ++
        (outside none).turnsOf ((ls.drop (bodyOf width inner ls).length).drop 1) := by
  induction ls generalizing inner code with
  | nil => rfl
  | cons l ls ih =>
    rw [turnsOf, turns, after, bodyOf_cons]
    cases hinner : innerAfter? width inner l.text with
    | none => rfl
    | some inner' => exact ih inner' _

/-! ## Chunks -/

/-- The lines that open and close the directive of a chunk. -/
def Chunk.fences : Chunk → List Numbered
  | .plain _ => []
  | .directive _ _ opening _ closing => opening :: closing

theorem fences_plainChunk (lines : List Numbered) : (plainChunk lines).flatMap Chunk.fences = [] := by
  unfold plainChunk
  split_ifs <;> rfl

theorem fences_chunksFrom (n : Nat) (pending : List Numbered) (fence : Option (List Char))
    (lines : List Numbered) (h : lines.length ≤ n) :
    (chunksFrom n pending fence lines).flatMap Chunk.fences = (outside fence).turnsOf lines := by
  induction n generalizing pending fence lines with
  | zero =>
    rw [List.length_eq_zero_iff.mp (Nat.le_zero.mp h), chunksFrom, fences_plainChunk]
    rfl
  | succ n ih =>
    cases lines with
    | nil => exact fences_plainChunk _
    | cons l ls =>
      have hls : ls.length ≤ n := Nat.le_of_succ_le_succ h
      cases fence with
      | some fence => exact ih _ _ ls hls
      | none =>
        rw [chunksFrom, turnsOf, turns, after]
        cases hcode : codeFence? l.text with
        | some fence => exact ih _ _ ls hls
        | none =>
          cases hcolon : colonFence? l.text with
          | none => exact ih _ _ ls hls
          | some opened =>
            obtain ⟨width, name, argument⟩ := opened
            dsimp only
            rw [List.flatMap_append, fences_plainChunk, List.flatMap_cons, turnsOf_inside,
              ih [] none _ (by simp only [List.length_drop]; omega)]
            rfl

/-- **The lines that open and close directives** are those where the place turns. -/
theorem fences_chunks (lines : List Numbered) :
    (chunks lines).flatMap Chunk.fences = (outside none).turnsOf lines :=
  fences_chunksFrom lines.length [] none lines (Nat.le_refl _)

/-! ## Lines of a text -/

theorem numbered_eq (text : List Char) (first : Nat) :
    numbered text first = Text.numberedFrom Numbered.mk first (Text.lines text) :=
  Text.map_zipIdx_eq_numberedFrom Numbered.mk first (Text.lines text)

theorem map_text_numberedFrom (first : Nat) (ls : List (List Char)) :
    (Text.numberedFrom Numbered.mk first ls).map Numbered.text = ls :=
  (Text.map_numberedFrom _ _ first ls).trans (Text.numberedFrom_text first ls)

end Transcript.Markdown
