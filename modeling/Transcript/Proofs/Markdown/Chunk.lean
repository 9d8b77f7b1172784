import Transcript.Proofs.Markdown.Inert

/-!
# Cutting a document into chunks

A cursor runs over the lines of a document. It knows where the plain lines before it begin and which fence
the code has that it is in; at a line that opens a directive it looks for the line that closes it and jumps
behind it. It moves on at each step, so it comes to the end of every document, and what it passes is in one
chunk each.

Results:
* `splitFrom_eq`: the cursor finds the chunks of a document, and all that it cuts out of the lines is there.
* `isCutUp_chunksFrom`: no chunk is empty, and only the last directive may lack the line that closes it.
* `chunks_cover`: the chunks are the lines of the document, and each one knows where it begins.
-/

namespace Transcript.Markdown

/-! ## A cursor on the lines -/

/-- **What is kept of a chunk:** the texts of its lines, without the fences of a directive, and the number of
its first line. -/
inductive Stretch
  /-- Plain lines. -/
  | plain (lines : List (List Char)) (line : Nat)
  /-- A directive and its body. -/
  | directive (name argument : List Char) (body : List (List Char)) (line : Nat)
  deriving DecidableEq

/-- The number of the first line. -/
def Stretch.line : Stretch → Nat
  | plain _ line | directive _ _ _ line => line

/-- What is kept of a chunk. -/
def Chunk.stretch : Chunk → Stretch
  | .plain lines => .plain (lines.map Numbered.text) ((lines.head?.map Numbered.number).getD 0)
  | .directive name argument opening body _ => .directive name argument (body.map Numbered.text) opening.number

/-- The index of the line that closes a directive, from an index on; the number of lines if there is none. -/
def closingFrom (lines : List (List Char)) (width : Nat) (inner : List Nat) (i : Nat) : Nat :=
  if h : i < lines.length then
    match innerAfter? width inner lines[i] with
    | none => i
    | some inner => closingFrom lines width inner (i + 1)
  else lines.length
termination_by lines.length - i

theorem closingFrom_bounds (lines : List (List Char)) (width : Nat) (inner : List Nat) {i : Nat}
    (h : i ≤ lines.length) :
    i ≤ closingFrom lines width inner i ∧ closingFrom lines width inner i ≤ lines.length := by
  fun_induction closingFrom lines width inner i with
  | case1 inner i hi hinner => exact ⟨Nat.le_refl i, h⟩
  | case2 inner i hi inner' hinner ih => exact ⟨Nat.le_of_succ_le (ih hi).1, (ih hi).2⟩
  | case3 inner i hi => exact ⟨h, Nat.le_refl _⟩

/-- The plain lines from one index up to another one, if there are any. -/
def plainBetween? (lines : List (List Char)) (first start stop : Nat) : Option (List Stretch) :=
  if start < stop then (Text.between? start stop lines).map fun ls => [.plain ls (first + start)] else some []

/-- **The chunks from an index on.** Plain lines begin at `start`. There are none if lines are cut out that
are not there. -/
def splitFrom (lines : List (List Char)) (first start : Nat) (code : Option (List Char)) (i : Nat) :
    Option (List Stretch) :=
  if h : i < lines.length then
    match code, codeFence? lines[i], colonFence? lines[i] with
    | some fence, _, _ =>
      splitFrom lines first start (if closesCode fence lines[i] then none else some fence) (i + 1)
    | none, some fence, _ => splitFrom lines first start (some fence) (i + 1)
    | none, none, none => splitFrom lines first start none (i + 1)
    | none, none, some (width, name, argument) =>
      let close := closingFrom lines width [] (i + 1)
      let next := min (close + 1) lines.length
      (plainBetween? lines first start i).bind fun plain =>
        (Text.between? (i + 1) close lines).bind fun body =>
          (splitFrom lines first next none next).map fun later =>
            plain ++ .directive name argument body (first + i) :: later
  else plainBetween? lines first start lines.length
termination_by lines.length - i
decreasing_by
  · omega
  · omega
  · omega
  · have hclose := closingFrom_bounds lines width [] (i := i + 1) h
    omega

/-- **The chunks of lines,** the first one of which has the given number. -/
def split (lines : List (List Char)) (first : Nat) : Option (List Stretch) := splitFrom lines first 0 none 0

/-! ## The cursor finds the chunks -/

/-- A body ends where the line is that closes it. -/
theorem closingFrom_eq (lines : List (List Char)) (width : Nat) (inner : List Nat) {i : Nat}
    (h : i ≤ lines.length) (n : Nat) :
    closingFrom lines width inner i =
      i + (bodyOf width inner (Text.numberedFrom Numbered.mk n (lines.drop i))).length := by
  fun_induction closingFrom lines width inner i generalizing n with
  | case1 inner i hi hinner =>
    rw [List.drop_eq_getElem_cons hi, Text.numberedFrom, bodyOf_cons, hinner]
    rfl
  | case2 inner i hi inner' hinner ih =>
    rw [List.drop_eq_getElem_cons hi, Text.numberedFrom, bodyOf_cons, hinner, ih hi (n + 1)]
    simp only [List.length_cons]
    omega
  | case3 inner i hi =>
    rw [List.drop_eq_nil_of_le (Nat.le_of_not_lt hi)]
    exact Nat.le_antisymm (Nat.le_of_not_lt hi) h

/-- Plain lines are cut out as they are. -/
theorem plainBetween?_eq {lines : List (List Char)} {start stop : Nat} (hstart : start ≤ stop)
    (hstop : stop ≤ lines.length) (first : Nat) :
    plainBetween? lines first start stop =
      some ((plainChunk (Text.numberedFrom Numbered.mk (first + start) ((lines.take stop).drop start))).map
        Chunk.stretch) := by
  unfold plainBetween?
  by_cases h : start < stop
  · obtain ⟨l, ls, hls⟩ : ∃ l ls, (lines.take stop).drop start = l :: ls := by
      refine List.exists_cons_of_length_pos ?_
      rw [List.length_drop, List.length_take]
      omega
    rw [if_pos h, Text.between?_of_le hstart hstop, hls]
    simp [plainChunk, Text.numberedFrom, Chunk.stretch, map_text_numberedFrom]
  · rw [if_neg h, List.drop_eq_nil_of_le (by rw [List.length_take]; omega)]
    rfl

/-- The line at the cursor joins the plain lines before it. -/
theorem pending_succ {lines : List (List Char)} (first : Nat) {start i : Nat} (hstart : start ≤ i)
    (hi : i < lines.length) :
    ⟨first + i, lines[i]⟩ ::
        (Text.numberedFrom Numbered.mk (first + start) ((lines.take i).drop start)).reverse =
      (Text.numberedFrom Numbered.mk (first + start) ((lines.take (i + 1)).drop start)).reverse := by
  have htake : (lines.take i).length = i := List.length_take_of_le (Nat.le_of_lt hi)
  have hnumber : first + start + ((lines.take i).drop start).length = first + i := by
    rw [List.length_drop, htake]
    omega
  rw [List.take_succ_eq_append_getElem hi, List.drop_append_of_le_length (by rw [htake]; exact hstart),
    Text.numberedFrom_append, List.reverse_append, hnumber]
  rfl

/-- **A directive at the cursor:** its body is cut out, and the cursor jumps behind the line that closes it. -/
theorem directive_at_cursor {lines : List (List Char)} (first width : Nat) {i : Nat} (hi : i < lines.length)
    {body : List Numbered}
    (hbody : bodyOf width [] (Text.numberedFrom Numbered.mk (first + (i + 1)) (lines.drop (i + 1))) = body) :
    Text.between? (i + 1) (closingFrom lines width [] (i + 1)) lines = some (body.map Numbered.text) ∧
      ((Text.numberedFrom Numbered.mk (first + (i + 1)) (lines.drop (i + 1))).drop body.length).drop 1 =
        Text.numberedFrom Numbered.mk (first + min (closingFrom lines width [] (i + 1) + 1) lines.length)
          (lines.drop (min (closingFrom lines width [] (i + 1) + 1) lines.length)) := by
  have hclose := closingFrom_eq lines width [] (i := i + 1) hi (first + (i + 1))
  rw [hbody] at hclose
  constructor
  · have hprefix : body.map Numbered.text <+: lines.drop (i + 1) := by
      have := List.IsPrefix.map Numbered.text <|
        bodyOf_prefix width [] <| Text.numberedFrom Numbered.mk (first + (i + 1)) (lines.drop (i + 1))
      rwa [hbody, map_text_numberedFrom] at this
    rw [hclose, ← List.length_map Numbered.text]
    exact Text.between?_drop hprefix hi
  · rw [List.drop_drop, Text.drop_numberedFrom, List.drop_drop, hclose]
    by_cases hend : i + 1 + body.length + 1 ≤ lines.length
    · rw [Nat.min_eq_left hend, Nat.add_assoc (i + 1), Nat.add_assoc first]
    · rw [Nat.min_eq_right (by omega), List.drop_length, List.drop_eq_nil_of_le (by omega)]
      rfl

/-- **The cursor finds the chunks** of the lines from its index on, with the plain lines before it. -/
theorem splitFrom_eq {lines : List (List Char)} (first : Nat) {start i : Nat} (hstart : start ≤ i)
    (hi : i ≤ lines.length) (code : Option (List Char)) {n : Nat} (hn : lines.length - i ≤ n) :
    splitFrom lines first start code i =
      some ((chunksFrom n (Text.numberedFrom Numbered.mk (first + start) ((lines.take i).drop start)).reverse code
        (Text.numberedFrom Numbered.mk (first + i) (lines.drop i))).map Chunk.stretch) := by
  induction n generalizing start i code with
  | zero =>
    obtain rfl : i = lines.length := by omega
    rw [splitFrom, dif_neg (Nat.lt_irrefl _), plainBetween?_eq hstart (Nat.le_refl _), List.drop_length, chunksFrom,
      List.reverse_reverse, Text.numberedFrom, List.append_nil]
  | succ n ih =>
    by_cases h : i < lines.length
    · have hline : Text.numberedFrom Numbered.mk (first + i) (lines.drop i) =
          ⟨first + i, lines[i]⟩ :: Text.numberedFrom Numbered.mk (first + (i + 1)) (lines.drop (i + 1)) := by
        rw [List.drop_eq_getElem_cons h]
        rfl
      have hnext (code : Option (List Char)) := ih (Nat.le_succ_of_le hstart) h code (by omega)
      simp only [← pending_succ first hstart h] at hnext
      rw [splitFrom, dif_pos h, hline]
      cases code with
      | some fence => exact hnext _
      | none =>
        rw [chunksFrom]
        cases hcode : codeFence? lines[i] with
        | some fence => exact hnext _
        | none =>
          cases hcolon : colonFence? lines[i] with
          | none => exact hnext _
          | some opened =>
            obtain ⟨width, name, argument⟩ := opened
            obtain ⟨hbody, hafter⟩ := directive_at_cursor first width h rfl
            have hclose := closingFrom_bounds lines width [] (i := i + 1) h
            have hlater := ih (Nat.le_refl (min (closingFrom lines width [] (i + 1) + 1) lines.length))
              (Nat.min_le_right _ _) none (by omega)
            rw [List.drop_eq_nil_of_le (List.length_take_le _ _)] at hlater
            dsimp only
            rw [plainBetween?_eq hstart (Nat.le_of_lt h), hbody, hlater, hafter, List.reverse_reverse, List.map_append]
            rfl
    · obtain rfl : i = lines.length := by omega
      rw [splitFrom, dif_neg h, plainBetween?_eq hstart (Nat.le_refl _), List.drop_length, Text.numberedFrom,
        chunksFrom, List.reverse_reverse]

/-! ## What chunks are like -/

/-- **Chunks of a document:** plain lines are some, a directive begins with a line that opens it, and it ends with
the line that closes it; only the last one may be without that line. -/
inductive CutUp : List Chunk → Prop
  /-- Nothing. -/
  | nil : CutUp []
  /-- Plain lines. -/
  | plain (l : Numbered) (ls : List Numbered) {later : List Chunk} (h : CutUp later) :
    CutUp (.plain (l :: ls) :: later)
  /-- A directive that is closed. -/
  | closed {width : Nat} {name argument : List Char} {opening closing : Numbered} (body : List Numbered) {n : Nat}
    (hopening : colonFence? opening.text = some (width, name, argument))
    (hclosing : closingWidth? closing.text = some n) (hwidth : width ≤ n) {later : List Chunk} (h : CutUp later) :
    CutUp (.directive name argument opening body [closing] :: later)
  /-- A directive that is not closed. -/
  | unclosed {width : Nat} {name argument : List Char} {opening : Numbered} (body : List Numbered)
    (hopening : colonFence? opening.text = some (width, name, argument)) :
    CutUp [.directive name argument opening body []]

theorem CutUp.plainChunk_append (lines : List Numbered) {later : List Chunk} (h : CutUp later) :
    CutUp (plainChunk lines ++ later) := by
  cases lines with
  | nil => exact h
  | cons l ls => exact .plain l ls h

/-- The line behind a body closes the directive. -/
theorem closes_of_drop_bodyOf {width : Nat} {inner : List Nat} {ls after : List Numbered} {l : Numbered}
    (h : ls.drop (bodyOf width inner ls).length = l :: after) :
    ∃ n, closingWidth? l.text = some n ∧ width ≤ n := by
  induction ls generalizing inner with
  | nil => cases h
  | cons m ms ih =>
    rw [bodyOf_cons] at h
    cases hinner : innerAfter? width inner m.text with
    | none =>
      rw [hinner] at h
      obtain ⟨rfl, -⟩ := List.cons.inj h
      exact (innerAfter?_eq_none_iff.mp hinner).2.2
    | some inner' =>
      rw [hinner] at h
      exact ih h

/-- **What the chunks of lines are like.** -/
theorem isCutUp_chunksFrom (n : Nat) (pending : List Numbered) (code : Option (List Char)) (lines : List Numbered) :
    CutUp (chunksFrom n pending code lines) := by
  have hplain (ls : List Numbered) : CutUp (plainChunk ls) := by
    have := CutUp.plainChunk_append ls .nil
    rwa [List.append_nil] at this
  induction n generalizing pending code lines with
  | zero => exact hplain _
  | succ n ih =>
    cases lines with
    | nil => exact hplain _
    | cons l ls =>
      cases code with
      | some fence => exact ih _ _ ls
      | none =>
        rw [chunksFrom]
        cases hcode : codeFence? l.text with
        | some fence => exact ih _ _ ls
        | none =>
          cases hcolon : colonFence? l.text with
          | none => exact ih _ _ ls
          | some opened =>
            obtain ⟨width, name, argument⟩ := opened
            refine CutUp.plainChunk_append _ ?_
            cases hafter : ls.drop (bodyOf width [] ls).length with
            | nil =>
              have hlater : chunksFrom n [] none [] = [] := by cases n <;> rfl
              rw [List.take_nil, List.drop_nil, hlater]
              exact .unclosed _ hcolon
            | cons m ms =>
              obtain ⟨k, hclosing, hk⟩ := closes_of_drop_bodyOf hafter
              exact .closed _ hcolon hclosing hk (ih [] none ms)

/-! ## The chunks of a text -/

/-- A chunk of a document begins with its first line. -/
theorem stretch_line_of_lines {chunks : List Chunk} (h : CutUp chunks) {c : Chunk} (hc : c ∈ chunks) :
    ∃ l ls, c.lines = l :: ls ∧ c.stretch.line = l.number := by
  induction h with
  | nil => cases hc
  | plain l ls h ih =>
    obtain rfl | hc := List.mem_cons.mp hc
    · exact ⟨l, ls, rfl, rfl⟩
    · exact ih hc
  | closed body hopening hclosing hwidth h ih =>
    obtain rfl | hc := List.mem_cons.mp hc
    · exact ⟨_, _, rfl, rfl⟩
    · exact ih hc
  | unclosed body hopening =>
    obtain rfl := List.mem_singleton.mp hc
    exact ⟨_, _, rfl, rfl⟩

/-- **No line is lost.** For every text and number of its first line, the cursor comes to the end of the lines; it
finds the chunks of the text and cuts out no line that is not there. The lines of the chunks, with those that open
and close the directives, are the lines of the text, each once and in order. No chunk is empty, a directive goes on to
the first line that closes it or, if there is none, to the end, and the number that each chunk has is that of its
first line. -/
theorem chunks_cover (text : List Char) (first : Nat) :
    split (Text.lines text) first = some ((chunks (numbered text first)).map Chunk.stretch) ∧
      (chunks (numbered text first)).flatMap Chunk.lines =
        Text.numberedFrom Numbered.mk first (Text.lines text) ∧
      CutUp (chunks (numbered text first)) ∧
      ∀ before c after, chunks (numbered text first) = before ++ c :: after →
        c.stretch.line = first + (before.flatMap Chunk.lines).length := by
  have hcut : CutUp (chunks (numbered text first)) := isCutUp_chunksFrom _ _ _ _
  have hlines : (chunks (numbered text first)).flatMap Chunk.lines =
      Text.numberedFrom Numbered.mk first (Text.lines text) :=
    (Chunk.lines_chunksFrom _ _ _ _).trans (numbered_eq text first)
  refine ⟨?_, hlines, hcut, ?_⟩
  · unfold split chunks
    rw [numbered_eq]
    exact splitFrom_eq first (Nat.le_refl 0) (Nat.zero_le _) none (Nat.le_of_eq (Text.length_numberedFrom _ _ _).symm)
  · intro before c after hchunks
    have hmem : c ∈ chunks (numbered text first) := by
      rw [hchunks]
      exact List.mem_append_right _ List.mem_cons_self
    obtain ⟨l, ls, hc, hl⟩ := stretch_line_of_lines hcut hmem
    -- The line behind those of the chunks before has the number that counts them.
    have hdrop := congrArg (List.drop (before.flatMap Chunk.lines).length) hlines
    rw [hchunks, List.flatMap_append, List.drop_left, List.flatMap_cons, hc, Text.drop_numberedFrom] at hdrop
    cases hrest : (Text.lines text).drop (before.flatMap Chunk.lines).length with
    | nil =>
      rw [hrest] at hdrop
      cases hdrop
    | cons x xs =>
      rw [hrest] at hdrop
      obtain ⟨rfl, -⟩ := List.cons.inj hdrop
      exact hl

example :
    (chunks (numbered ":::\x7btab\x7d A\n::::\x7bnote\x7d\n:::\n::::\n:::\nx\n:::\x7btab\x7d B\ny".toList 1)).map
        Chunk.stretch =
      [.directive "tab".toList "A".toList ["::::\x7bnote\x7d".toList, ":::".toList, "::::".toList] 1,
        .plain ["x".toList] 6, .directive "tab".toList "B".toList ["y".toList] 7] := by
  decide

end Transcript.Markdown
