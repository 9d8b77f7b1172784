import Transcript.Proofs.Markdown.Place

/-!
# Code fences and directives

Outside of directives no line of code opens one. In the body of a directive code is not minded: a line of
code counts there as any other line would, so a fence of colons in it may close the directive. A line of
code that does not count can be replaced by any line that is no fence; the document is cut into chunks as
before.

Results:
* `heeds_in_code`, `turns_in_code`: which lines of code count.
* `shapes_replaced`: replacing a line that does not count.
* `code_inert`: both for the lines of a text.
* `code_closes_directive`: a line of code that closes a directive.
-/

namespace Transcript.Markdown

open Place

/-! ## Lines of code that count -/

/-- **A line counts in a body** if it opens a directive, or closes one that is at most as wide: the
innermost one that is open. -/
theorem innerAfter?_ne_iff {width : Nat} {inner : List Nat} {line : List Char} :
    innerAfter? width inner line ≠ some inner ↔
      (colonFence? line).isSome = true ∨ ∃ n, closingWidth? line = some n ∧ inner.headD width ≤ n := by
  unfold innerAfter?
  cases hcolon : colonFence? line with
  | some opened => simp
  | none =>
    cases hclosing : closingWidth? line with
    | none => simp
    | some n =>
      cases inner with
      | nil => simp
      | cons w outer =>
        by_cases hn : w ≤ n
        · simp [hn]
        · simp [hn]

/-- A line closes a directive whose body it is in if no other one is open there. -/
theorem innerAfter?_eq_none_iff {width : Nat} {inner : List Nat} {line : List Char} :
    innerAfter? width inner line = none ↔
      inner = [] ∧ colonFence? line = none ∧ ∃ n, closingWidth? line = some n ∧ width ≤ n := by
  unfold innerAfter?
  cases hcolon : colonFence? line with
  | some opened => simp
  | none =>
    cases hclosing : closingWidth? line with
    | none => simp
    | some n =>
      cases inner with
      | nil => simp
      | cons w outer => simp

section

variable {p : Place} {fence : List Char} (hcode : p.code = some fence) {line : List Char}

include hcode

/-- **A line of code counts** only in a body, and there as any other line would. -/
theorem heeds_in_code :
    p.heeds line = true ↔ ∃ width inner, p = .inside width inner (some fence) ∧
      ((colonFence? line).isSome = true ∨ ∃ n, closingWidth? line = some n ∧ inner.headD width ≤ n) := by
  cases p with
  | outside code =>
    cases hcode
    constructor
    · intro h
      cases h
    · rintro ⟨width, inner, hp, -⟩
      cases hp
  | inside width inner code =>
    cases hcode
    change (innerAfter? width inner line != some inner) = true ↔ _
    rw [bne_iff_ne, innerAfter?_ne_iff]
    constructor
    · exact fun h => ⟨width, inner, rfl, h⟩
    · rintro ⟨_, _, hp, h⟩
      cases hp
      exact h

/-- **A line of code opens no directive** of the document, and closes one only if it is in its body, where
no other one is open. -/
theorem turns_in_code :
    p.turns line = true ↔ ∃ width, p = .inside width [] (some fence) ∧
      colonFence? line = none ∧ ∃ n, closingWidth? line = some n ∧ width ≤ n := by
  cases p with
  | outside code =>
    cases hcode
    constructor
    · intro h
      cases h
    · rintro ⟨width, hp, -⟩
      cases hp
  | inside width inner code =>
    cases hcode
    have hturns : (Place.inside width inner (some fence)).turns line = true ↔
        innerAfter? width inner line = none := by
      rw [turns, after_inside]
      cases innerAfter? width inner line with
      | none => simp [isInside]
      | some inner' => simp [isInside]
    rw [hturns, innerAfter?_eq_none_iff]
    constructor
    · rintro ⟨rfl, h⟩
      exact ⟨width, rfl, h⟩
    · rintro ⟨_, hp, h⟩
      cases hp
      exact ⟨rfl, h⟩

end

/-! ## Fences of code -/

/-- **A fence of code:** three or more backticks or tildes. -/
def IsCodeFence (fence : List Char) : Prop :=
  ∃ c k, (c = backtick ∨ c = '~') ∧ fence = List.replicate (k + 3) c

theorem takeWhile_beq (c : Char) (s : List Char) :
    s.takeWhile (· == c) = List.replicate (runLength c s) c := by
  refine List.eq_replicate_iff.mpr ⟨rfl, fun d hd => ?_⟩
  exact eq_of_beq (List.all_eq_true.mp List.all_takeWhile d hd)

theorem isCodeFence_of_codeFence? {line fence : List Char} (h : codeFence? line = some fence) :
    IsCodeFence fence := by
  have hfence (c : Char) (hc : c = backtick ∨ c = '~') (s : List Char) (hs : 3 ≤ runLength c s) :
      IsCodeFence (s.takeWhile (· == c)) := by
    refine ⟨c, runLength c s - 3, hc, ?_⟩
    rw [takeWhile_beq, Nat.sub_add_cancel hs]
  unfold codeFence? at h
  dsimp only at h
  split_ifs at h with hticks htildes
  · cases h
    exact hfence backtick (.inl rfl) _ hticks
  · cases h
    exact hfence '~' (.inr rfl) _ htildes

/-- Code is always behind a fence. -/
theorem isCodeFence_after {p : Place} (h : ∀ fence, p.code = some fence → IsCodeFence fence)
    (line : List Char) : ∀ fence, (p.after line).code = some fence → IsCodeFence fence := by
  have hafter (code : Option (List Char)) (hcode : ∀ fence, code = some fence → IsCodeFence fence) :
      ∀ fence, codeAfter code line = some fence → IsCodeFence fence := by
    intro fence hf
    cases code with
    | none => exact isCodeFence_of_codeFence? hf
    | some opened =>
      unfold codeAfter at hf
      dsimp only at hf
      split_ifs at hf
      cases hf
      exact hcode _ rfl
  intro fence hf
  cases p with
  | outside code =>
    cases code with
    | some opened => exact hafter (some opened) h fence hf
    | none =>
      rw [after_outside] at hf
      cases hopens : codeFence? line with
      | some opened =>
        rw [hopens] at hf
        cases hf
        exact isCodeFence_of_codeFence? hopens
      | none =>
        rw [hopens] at hf
        cases hcolon : colonFence? line with
        | none =>
          rw [hcolon] at hf
          cases hf
        | some directive =>
          rw [hcolon] at hf
          cases hf
  | inside width inner code =>
    rw [after_inside] at hf
    split at hf
    · cases hf
    · exact hafter code h fence hf

theorem isCodeFence_afterLines (p : Place) (h : ∀ fence, p.code = some fence → IsCodeFence fence)
    (lines : List (List Char)) :
    ∀ fence, (p.afterLines lines).code = some fence → IsCodeFence fence := by
  induction lines generalizing p with
  | nil => exact h
  | cons l ls ih => exact ih (p.after l) (isCodeFence_after h l)

/-- **Whether a line is a fence:** of code, however far it is indented, or one of colons that opens or
closes a directive. -/
def isFence (line : List Char) : Bool :=
  (codeFence? (Text.trim line)).isSome || (colonFence? line).isSome || (closingWidth? line).isSome

theorem runLength_replicate_append (c : Char) (k : Nat) (s : List Char) :
    k ≤ runLength c (List.replicate k c ++ s) := by
  unfold runLength
  rw [List.takeWhile_append_of_pos fun d hd => by simp [List.eq_of_mem_replicate hd], List.length_append,
    List.length_replicate]
  exact Nat.le_add_right k _

/-- What closes code is a fence. -/
theorem isFence_of_closesCode {fence line : List Char} (hfence : IsCodeFence fence)
    (h : closesCode fence line = true) : isFence line = true := by
  obtain ⟨c, k, hc, rfl⟩ := hfence
  obtain ⟨hbegin, -⟩ := Bool.and_eq_true_iff.mp h
  obtain ⟨rest, hrest⟩ := Option.isSome_iff_exists.mp hbegin
  have htrim : Text.trim line = List.replicate (k + 3) c ++ rest := Text.afterBegin?_eq_some.mp hrest
  have hspace : c ≠ ' ' := by rcases hc with rfl | rfl <;> decide
  have hmargin : dropMargin (Text.trim line) = Text.trim line := by
    rw [htrim, List.replicate_succ, List.cons_append]
    exact dropMargin_cons hspace _
  have hrun : 3 ≤ runLength c (Text.trim line) := by
    rw [htrim]
    exact Nat.le_trans (Nat.le_add_left 3 k) (runLength_replicate_append c (k + 3) rest)
  have hcode : (codeFence? (Text.trim line)).isSome = true := by
    unfold codeFence?
    dsimp only
    rw [hmargin]
    rcases hc with rfl | rfl
    · rw [if_pos hrun]
      rfl
    · rw [if_pos hrun]
      split_ifs <;> rfl
  unfold isFence
  rw [hcode]
  rfl

/-! ## Replacing a line -/

/-- **A line is passed over:** as code outside of directives, or without counting in a body. -/
def Place.Passes : Place → List Char → Prop
  | .outside none, _ => False
  | .outside (some fence), line => closesCode fence line = false
  | .inside width inner _, line => innerAfter? width inner line = some inner

/-- **What is kept of a chunk** when a line in it is replaced: its kind, with the name and the argument of
a directive, and the number of its first line. -/
def Chunk.shape : Chunk → Option (List Char × List Char) × Option Nat
  | .plain lines => (none, lines.head?.map Numbered.number)
  | .directive name argument opening _ _ => (some (name, argument), some opening.number)

theorem shapes_plainChunk {a b : List Numbered} (h : a.map Numbered.number = b.map Numbered.number) :
    (plainChunk a).map Chunk.shape = (plainChunk b).map Chunk.shape := by
  cases a with
  | nil =>
    cases b with
    | nil => rfl
    | cons y b => cases h
  | cons x a =>
    cases b with
    | nil => cases h
    | cons y b =>
      rw [List.map_cons, List.map_cons, List.cons.injEq] at h
      simp [plainChunk, Chunk.shape, h.1]

/-- Only the numbers of the lines before count for the shapes of chunks. -/
theorem shapes_pending (n : Nat) {a b : List Numbered} (h : a.map Numbered.number = b.map Numbered.number)
    (fence : Option (List Char)) (lines : List Numbered) :
    (chunksFrom n a fence lines).map Chunk.shape = (chunksFrom n b fence lines).map Chunk.shape := by
  have hreverse : a.reverse.map Numbered.number = b.reverse.map Numbered.number := by
    rw [List.map_reverse, List.map_reverse, h]
  induction n generalizing a b fence lines with
  | zero => exact shapes_plainChunk (by rw [List.map_append, List.map_append, hreverse])
  | succ n ih =>
    cases lines with
    | nil => exact shapes_plainChunk hreverse
    | cons l ls =>
      have hcons : (l :: a).map Numbered.number = (l :: b).map Numbered.number := by
        rw [List.map_cons, List.map_cons, h]
      have hnext (fence : Option (List Char)) := ih hcons fence ls (by rw [List.map_reverse, List.map_reverse, hcons])
      cases fence with
      | some fence => exact hnext _
      | none =>
        rw [chunksFrom, chunksFrom]
        split
        · exact hnext _
        · exact hnext _
        · rw [List.map_append, List.map_append, shapes_plainChunk hreverse]

/-- **Lines at the beginning of a body:** the directive is closed by one of them, or they belong to the
body. -/
theorem body_split (width : Nat) (inner : List Nat) (code : Option (List Char)) (a : List Numbered) :
    (∃ body c rest, a = body ++ c :: rest ∧ (∀ b, bodyOf width inner (a ++ b) = body) ∧
      (inside width inner code).afterLines (a.map Numbered.text) =
        (outside none).afterLines (rest.map Numbered.text)) ∨
    ∃ inner' code', (inside width inner code).afterLines (a.map Numbered.text) = inside width inner' code' ∧
      ∀ b, bodyOf width inner (a ++ b) = a ++ bodyOf width inner' b := by
  induction a generalizing inner code with
  | nil => exact .inr ⟨inner, code, rfl, fun b => rfl⟩
  | cons l ls ih =>
    rw [List.map_cons, afterLines_cons, after_inside]
    simp only [List.cons_append, bodyOf_cons]
    cases innerAfter? width inner l.text with
    | none => exact .inl ⟨[], l, ls, rfl, fun b => rfl, rfl⟩
    | some inner' =>
      obtain ⟨body, c, rest, rfl, hbody, hrest⟩ | ⟨inner'', code', hplace, hbody⟩ :=
        ih inner' (codeAfter code l.text)
      · exact .inl ⟨l :: body, c, rest, rfl, fun b => congrArg (l :: ·) (hbody b), hrest⟩
      · exact .inr ⟨inner'', code', hplace, fun b => congrArg (l :: ·) (hbody b)⟩

/-- **Replacing a line that is passed over** by one that is, too, keeps the shapes of all chunks. -/
theorem shapes_replaced (n : Nat) {pending pending' : List Numbered}
    (hpending : pending.map Numbered.number = pending'.map Numbered.number) (fence : Option (List Char))
    (a : List Numbered) {x x' : Numbered} (hx : x.number = x'.number) (b : List Numbered)
    (h : ((outside fence).afterLines (a.map Numbered.text)).Passes x.text)
    (h' : ((outside fence).afterLines (a.map Numbered.text)).Passes x'.text) :
    (chunksFrom n pending fence (a ++ x :: b)).map Chunk.shape =
      (chunksFrom n pending' fence (a ++ x' :: b)).map Chunk.shape := by
  induction n generalizing pending pending' fence a with
  | zero =>
    refine shapes_plainChunk ?_
    simp only [List.map_append, List.map_cons, List.map_reverse, hpending, hx]
  | succ n ih =>
    cases a with
    | nil =>
      cases fence with
      | none => exact h.elim
      | some fence =>
        change closesCode fence x.text = false at h
        change closesCode fence x'.text = false at h'
        rw [List.nil_append, List.nil_append, chunksFrom, chunksFrom, h, h']
        exact shapes_pending n (by rw [List.map_cons, List.map_cons, hpending, hx]) _ b
    | cons y a =>
      have hcons : (y :: pending).map Numbered.number = (y :: pending').map Numbered.number := by
        rw [List.map_cons, List.map_cons, hpending]
      rw [List.map_cons, afterLines_cons] at h h'
      rw [List.cons_append, List.cons_append]
      cases fence with
      | some fence => exact ih hcons _ a h h'
      | none =>
        rw [chunksFrom, chunksFrom]
        rw [after_outside] at h h'
        cases hcode : codeFence? y.text with
        | some fence =>
          rw [hcode] at h h'
          exact ih hcons _ a h h'
        | none =>
          cases hcolon : colonFence? y.text with
          | none =>
            rw [hcode, hcolon] at h h'
            exact ih hcons _ a h h'
          | some opened =>
            obtain ⟨width, name, argument⟩ := opened
            rw [hcode, hcolon] at h h'
            dsimp only at h h' ⊢
            have hplain : (plainChunk pending.reverse).map Chunk.shape =
                (plainChunk pending'.reverse).map Chunk.shape :=
              shapes_plainChunk (by rw [List.map_reverse, List.map_reverse, hpending])
            rw [List.map_append, List.map_append, List.map_cons, List.map_cons, hplain]
            refine congrArg _ (congrArg _ ?_)
            obtain ⟨body, c, rest, rfl, hbody, hrest⟩ | ⟨inner, code, hplace, hbody⟩ :=
              body_split width [] none a
            · rw [hrest] at h h'
              have hdrop (z : Numbered) : ((body ++ c :: rest ++ z :: b).drop
                  (bodyOf width [] (body ++ c :: rest ++ z :: b)).length).drop 1 = rest ++ z :: b := by
                rw [hbody, List.append_assoc, List.drop_left]
                rfl
              rw [hdrop, hdrop]
              exact ih rfl none rest h h'
            · rw [hplace] at h h'
              have hdrop (z : Numbered) (hz : innerAfter? width inner z.text = some inner) :
                  (a ++ z :: b).drop (bodyOf width [] (a ++ z :: b)).length =
                    b.drop (bodyOf width inner b).length := by
                rw [hbody, bodyOf_cons, hz, List.length_append, List.drop_append]
                simp
              rw [hdrop x h, hdrop x' h']

/-! ## Lines of a text -/

theorem number_of_mem_numberedFrom {first : Nat} {ls : List (List Char)} {x : Numbered}
    (h : x ∈ Text.numberedFrom Numbered.mk first ls) : first ≤ x.number ∧ x.number < first + ls.length := by
  obtain ⟨i, l, hl, rfl⟩ := Text.mem_numberedFrom.mp h
  obtain ⟨hi, -⟩ := List.getElem?_eq_some_iff.mp hl
  exact ⟨Nat.le_add_right first i, Nat.add_lt_add_left hi first⟩

/-- The place behind the first lines of a document. -/
def placeAfter (before : List (List Char)) : Place := (outside none).afterLines before

/-- A line opens or closes a directive of the document just where the place turns. -/
theorem exists_fence_iff {text : List Char} (first : Nat) {before after : List (List Char)} {l : List Char}
    (hlines : Text.lines text = before ++ l :: after) :
    (∃ c ∈ chunks (numbered text first), ∃ f ∈ c.fences, f.number = first + before.length) ↔
      (placeAfter before).turns l = true := by
  have hturns : (chunks (numbered text first)).flatMap Chunk.fences =
      (outside none).turnsOf (Text.numberedFrom Numbered.mk first before) ++
        ((if (placeAfter before).turns l then [⟨first + before.length, l⟩] else []) ++
          ((placeAfter before).after l).turnsOf (Text.numberedFrom Numbered.mk (first + before.length + 1) after)) := by
    rw [fences_chunks, numbered_eq, hlines, Text.numberedFrom_append, turnsOf_append, map_text_numberedFrom]
    rfl
  constructor
  · rintro ⟨c, hc, f, hf, hnumber⟩
    have hmem := List.mem_flatMap.mpr ⟨c, hc, hf⟩
    rw [hturns, List.mem_append, List.mem_append] at hmem
    rcases hmem with hmem | hmem | hmem
    · have := number_of_mem_numberedFrom (turnsOf_subset _ _ hmem)
      omega
    · split_ifs at hmem with h
      · exact h
      · cases hmem
    · have := number_of_mem_numberedFrom (turnsOf_subset _ _ hmem)
      omega
  · intro h
    have hmem : (⟨first + before.length, l⟩ : Numbered) ∈
        (chunks (numbered text first)).flatMap Chunk.fences := by
      rw [hturns, if_pos h]
      exact List.mem_append_right _ (List.mem_append_left _ List.mem_cons_self)
    obtain ⟨c, hc, hf⟩ := List.mem_flatMap.mp hmem
    exact ⟨c, hc, _, hf, rfl⟩

/-! ## Code in a text -/

/-- A line of code that does not count is passed over. -/
theorem passes_of_not_heeds {p : Place} {fence line : List Char} (hcode : p.code = some fence)
    (hline : closesCode fence line = false) (h : p.heeds line = false) : p.Passes line := by
  cases p with
  | outside code =>
    cases hcode
    exact hline
  | inside width inner code =>
    change (innerAfter? width inner line != some inner) = false at h
    exact bne_eq_false_iff_eq.mp h

/-- What is no fence is passed over in code. -/
theorem passes_of_not_fence {p : Place} {fence line : List Char} (hcode : p.code = some fence)
    (hfence : IsCodeFence fence) (h : isFence line = false) : p.Passes line := by
  cases p with
  | outside code =>
    cases hcode
    exact Bool.eq_false_iff.mpr fun hcloses =>
      Bool.false_ne_true (h.symm.trans (isFence_of_closesCode hfence hcloses))
  | inside width inner code =>
    unfold isFence at h
    simp only [Bool.or_eq_false_iff, Option.isSome_eq_false_iff, Option.isNone_iff_eq_none] at h
    obtain ⟨⟨-, hcolon⟩, hclosing⟩ := h
    change innerAfter? width inner line = some inner
    unfold innerAfter?
    rw [hcolon, hclosing]

/-- **Code and directives.** Take a line of a text that stands in code: behind a fence of code, outside of
directives or in the body of one, and before the fence that closes it.

It opens no directive of the document, and it closes one just where it is in its body, no other one is open
there and it holds only colons, as many as the fence of the directive has. It counts at all, as a fence of
the directive or of one inside of it, just where it is in a body and opens a directive or is as wide as the
innermost one that is open. If it does not count, any line that is no fence can stand in its place: the
chunks are the same, with their kinds, names, arguments and first lines. -/
theorem code_inert {text : List Char} (first : Nat) {before after : List (List Char)} {l fence : List Char}
    (hlines : Text.lines text = before ++ l :: after) (hcode : (placeAfter before).code = some fence)
    (hl : closesCode fence l = false) :
    ((∃ c ∈ chunks (numbered text first), ∃ f ∈ c.fences, f.number = first + before.length) ↔
      ∃ width, placeAfter before = .inside width [] (some fence) ∧
        colonFence? l = none ∧ ∃ n, closingWidth? l = some n ∧ width ≤ n) ∧
    ((placeAfter before).heeds l = true ↔
      ∃ width inner, placeAfter before = .inside width inner (some fence) ∧
        ((colonFence? l).isSome = true ∨ ∃ n, closingWidth? l = some n ∧ inner.headD width ≤ n)) ∧
    ((placeAfter before).heeds l = false → ∀ text' l', Text.lines text' = before ++ l' :: after →
      isFence l' = false →
        (chunks (numbered text' first)).map Chunk.shape = (chunks (numbered text first)).map Chunk.shape) := by
  refine ⟨(exists_fence_iff first hlines).trans (turns_in_code hcode), heeds_in_code hcode, ?_⟩
  intro hheeds text' l' hlines' hfence'
  have hfence : IsCodeFence fence :=
    isCodeFence_afterLines (outside none) (fun _ h => by cases h) before fence hcode
  have hplace : (outside none).afterLines ((Text.numberedFrom Numbered.mk first before).map Numbered.text) =
      placeAfter before := by
    rw [map_text_numberedFrom]
    rfl
  have hl' : (placeAfter before).Passes l' := passes_of_not_fence hcode hfence hfence'
  have hl : (placeAfter before).Passes l := passes_of_not_heeds hcode hl hheeds
  rw [← hplace] at hl hl'
  have hshapes (n : Nat) (later : List Numbered) :
      (chunksFrom n [] none (Text.numberedFrom Numbered.mk first before ++
        ⟨first + before.length, l'⟩ :: later)).map Chunk.shape =
      (chunksFrom n [] none (Text.numberedFrom Numbered.mk first before ++
        ⟨first + before.length, l⟩ :: later)).map Chunk.shape :=
    shapes_replaced n (by rfl) none _ (by rfl) _ hl' hl
  unfold chunks
  rw [numbered_eq, numbered_eq, hlines, hlines', Text.numberedFrom_append, Text.numberedFrom_append, List.length_append,
    List.length_append]
  exact hshapes _ _

/-- A document with code outside of directives and in the body of one, with a line in each that is like a
fence of a directive and does not count. -/
def fencedCode : List Char :=
  "```\n:::\x7bnote\x7d\n```\n::::\x7btab\x7d One\n~~~\n:::\n~~~\n::::\n".toList

theorem code_inert_twice :
    (chunks (numbered "```\nnote\n```\n::::\x7btab\x7d One\n~~~\n:::\n~~~\n::::\n".toList 1)).map Chunk.shape =
        (chunks (numbered fencedCode 1)).map Chunk.shape ∧
      (chunks (numbered "```\n:::\x7bnote\x7d\n```\n::::\x7btab\x7d One\n~~~\nnote\n~~~\n::::\n".toList 1)).map
        Chunk.shape = (chunks (numbered fencedCode 1)).map Chunk.shape ∧
      (chunks (numbered fencedCode 1)).map Chunk.shape =
        [(none, some 1), (some ("tab".toList, "One".toList), some 4)] := by
  have top : Text.lines fencedCode =
      (Text.lines fencedCode).take 1 ++ ":::\x7bnote\x7d".toList :: (Text.lines fencedCode).drop 2 := by decide
  have body : Text.lines fencedCode =
      (Text.lines fencedCode).take 5 ++ ":::".toList :: (Text.lines fencedCode).drop 6 := by decide
  have hticks : (placeAfter ((Text.lines fencedCode).take 1)).code = some "```".toList := by decide
  have htildes : (placeAfter ((Text.lines fencedCode).take 5)).code = some "~~~".toList := by decide
  refine ⟨?_, ?_, by decide⟩
  · exact (code_inert 1 top hticks (by decide)).2.2 (by decide) _ "note".toList (by decide) (by decide)
  · exact (code_inert 1 body htildes (by decide)).2.2 (by decide) _ "note".toList (by decide) (by decide)

/-- A directive with a line of code in its body that is like its closing fence. -/
def colonsInCode : List Char := ":::\x7btab\x7d One\n```\n:::\n```\nText.\n:::\n".toList

/-- **Code in a body can close a directive:** the third line stands between a fence of code and the fence
that closes it. It closes the directive, and what follows is cut differently if another line stands in its
place. -/
theorem code_closes_directive :
    Text.lines colonsInCode =
        (Text.lines colonsInCode).take 2 ++ ":::".toList :: (Text.lines colonsInCode).drop 3 ∧
      (placeAfter ((Text.lines colonsInCode).take 2)).code = some "```".toList ∧
      (Text.lines colonsInCode)[3]? = some "```".toList ∧
      closesCode "```".toList "```".toList = true ∧ closesCode "```".toList ":::".toList = false ∧
      (∃ c ∈ chunks (numbered colonsInCode 1), ⟨3, ":::".toList⟩ ∈ c.fences) ∧
      isFence "Code.".toList = false ∧
      (chunks (numbered colonsInCode 1)).map Chunk.shape =
        [(some ("tab".toList, "One".toList), some 1), (none, some 4)] ∧
      (chunks (numbered ":::\x7btab\x7d One\n```\nCode.\n```\nText.\n:::\n".toList 1)).map Chunk.shape =
        [(some ("tab".toList, "One".toList), some 1)] := by
  have hmem : (⟨3, ":::".toList⟩ : Numbered) ∈ (chunks (numbered colonsInCode 1)).flatMap Chunk.fences := by
    decide
  exact ⟨by decide, by decide, by decide, by decide, by decide, List.mem_flatMap.mp hmem, by decide, by decide,
    by decide⟩

end Transcript.Markdown
