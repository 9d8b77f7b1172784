import Transcript.Text.Search
import Mathlib.Data.List.Infix
import Mathlib.Data.List.TakeWhile

/-!
# Leftmost occurrences

A search finds the leftmost occurrence of a marker, so it never takes more of a text than some other
choice of an occurrence would. Cutting a text at its markers goes on behind each leftmost one.

Results:
* `splitAt?_of_append`: a marker that occurs is found, and what stands behind the occurrence is left.
* `IsCut`: the pieces of a text between its leftmost markers that do not overlap.
* `isCut_iff`: `splitOn` gives these pieces, and there are no others.
* `search?_textStart`: a pattern that begins at the beginning of the text is tried there only.
* `match?_many`: a part that takes many characters takes all of them, if what follows cannot begin with one.
* `match?_few_cons`: a part that takes few characters takes one more only where what follows does not match.
-/

namespace Transcript.Text

theorem afterBegin?_append (p rest : List Char) : afterBegin? p (p ++ rest) = some rest :=
  afterBegin?_eq_some.mpr rfl

theorem beforeEnd?_eq_some {ending s before : List Char} :
    beforeEnd? ending s = some before ↔ s = before ++ ending := by
  unfold beforeEnd?
  rw [Option.map_eq_some_iff]
  constructor
  · rintro ⟨rest, hrest, rfl⟩
    rw [← List.reverse_inj, afterBegin?_eq_some.mp hrest, List.reverse_append, List.reverse_reverse]
  · rintro rfl
    exact ⟨before.reverse, by rw [List.reverse_append, afterBegin?_append], List.reverse_reverse before⟩

/-! ## Finding a marker -/

/-- **A marker that occurs is found,** no later than where it occurs. -/
theorem splitAt?_of_append (before marker rest : List Char) :
    ∃ first more, splitAt? marker (before ++ (marker ++ rest)) = some (first, more ++ rest) := by
  induction before with
  | nil =>
    refine ⟨[], [], ?_⟩
    rw [List.nil_append, List.nil_append]
    cases h : marker ++ rest with
    | nil =>
      obtain ⟨rfl, rfl⟩ := List.append_eq_nil_iff.mp h
      rfl
    | cons c cs =>
      rw [splitAt?, ← h, afterBegin?_append]
  | cons c cs ih =>
    rw [List.cons_append, splitAt?]
    cases h : afterBegin? marker (c :: (cs ++ (marker ++ rest))) with
    | some found =>
      -- Both `found` and `rest` end the text, and the marker before `found` begins no later.
      have htext := afterBegin?_eq_some.mp h
      have hfound : found <:+ c :: (cs ++ (marker ++ rest)) := htext ▸ List.suffix_append marker found
      have hrest : rest <:+ c :: (cs ++ (marker ++ rest)) :=
        (List.suffix_append marker rest).trans (List.suffix_append (c :: cs) (marker ++ rest))
      have hlength : rest.length ≤ found.length := by
        have := congrArg List.length htext
        simp only [List.length_cons, List.length_append] at this
        omega
      obtain ⟨more, rfl⟩ := List.suffix_of_suffix_length_le hrest hfound hlength
      exact ⟨[], more, rfl⟩
    | none =>
      obtain ⟨first, more, hsplit⟩ := ih
      exact ⟨c :: first, more, by rw [hsplit]; rfl⟩

/-! ## Cutting at markers -/

/-- **The pieces of a text between its leftmost markers** that do not overlap: a text without a marker
is one piece, and behind the leftmost marker the text is cut again. -/
inductive IsCut (marker : List Char) : List Char → List (List Char) → Prop
  | whole {s : List Char} (h : ¬ marker <:+: s) : IsCut marker s [s]
  | cut {before rest : List Char} {ps : List (List Char)}
      (leftmost : ∀ b r, before ++ marker ++ rest = b ++ marker ++ r → before.length ≤ b.length)
      (h : IsCut marker rest ps) : IsCut marker (before ++ marker ++ rest) (before :: ps)

theorem splitOnAfter_eq_drop (marker : List Char) (n : Nat) (s : List Char) :
    splitOnAfter marker n s = splitOn marker (s.drop n) := by
  induction n generalizing s with
  | zero => rfl
  | succ n ih =>
    cases s with
    | nil => rfl
    | cons c cs => exact ih cs

/-- A marker at the beginning has an empty piece before it. -/
theorem splitOn_append {marker : List Char} (hm : marker ≠ []) (rest : List Char) :
    splitOn marker (marker ++ rest) = [] :: splitOn marker rest := by
  obtain ⟨c, cs, rfl⟩ := List.exists_cons_of_ne_nil hm
  have hbegin : (c :: cs).isPrefixOf (c :: (cs ++ rest)) = true :=
    List.isPrefixOf_iff_prefix.mpr (List.prefix_append (c :: cs) rest)
  rw [List.cons_append, splitOn, splitOnAfter, if_pos hbegin, splitOnAfter_eq_drop, List.length_cons,
    Nat.add_sub_cancel, List.drop_left]

theorem splitOn_ne_nil (marker s : List Char) : splitOn marker s ≠ [] := by
  cases s with
  | nil => simp [splitOn, splitOnAfter]
  | cons c cs =>
    unfold splitOn
    rw [splitOnAfter]
    split
    · simp
    · split <;> simp

/-- A character that begins no marker goes to the first piece. -/
theorem splitOn_cons {marker : List Char} {c : Char} {cs : List Char} (h : ¬ marker <+: c :: cs) :
    ∃ f fs, splitOn marker cs = f :: fs ∧ splitOn marker (c :: cs) = (c :: f) :: fs := by
  obtain ⟨f, fs, hcs⟩ := List.exists_cons_of_ne_nil (splitOn_ne_nil marker cs)
  have hbegin : ¬ marker.isPrefixOf (c :: cs) = true := fun hp => h (List.isPrefixOf_iff_prefix.mp hp)
  refine ⟨f, fs, hcs, ?_⟩
  unfold splitOn at hcs ⊢
  rw [splitOnAfter, if_neg hbegin, hcs]

/-- A character that begins no marker does not change where the text is cut. -/
theorem IsCut.cons {marker f : List Char} {fs : List (List Char)} {c : Char} {cs : List Char}
    (hc : ¬ marker <+: c :: cs) (h : IsCut marker cs (f :: fs)) :
    IsCut marker (c :: cs) ((c :: f) :: fs) := by
  cases h with
  | whole h =>
    refine .whole fun hinfix => ?_
    rcases List.infix_cons_iff.mp hinfix with hp | hi
    · exact hc hp
    · exact h hi
  | cut leftmost h =>
    refine @IsCut.cut marker (c :: f) _ _ (fun b r heq => ?_) h
    cases b with
    | nil =>
      refine absurd ⟨r, ?_⟩ hc
      exact heq.symm
    | cons d b =>
      exact Nat.succ_le_succ (leftmost b r (List.cons.inj heq).2)

/-- **`splitOn` cuts at the leftmost markers.** -/
theorem splitOn_isCut {marker : List Char} (hm : marker ≠ []) (s : List Char) :
    IsCut marker s (splitOn marker s) := by
  induction hn : s.length using Nat.strong_induction_on generalizing s with
  | h n ih =>
    cases s with
    | nil => exact .whole fun h => hm (List.infix_nil.mp h)
    | cons c cs =>
      by_cases hp : marker <+: c :: cs
      · obtain ⟨rest, hrest⟩ := hp
        have hlt : rest.length < n := by
          have := congrArg List.length hrest
          have := List.length_pos_of_ne_nil hm
          simp only [List.length_append] at *
          omega
        rw [← hrest, splitOn_append hm]
        exact @IsCut.cut marker [] _ _ (fun b r _ => Nat.zero_le b.length) (ih rest.length hlt rest rfl)
      · obtain ⟨f, fs, hcs, hcons⟩ := splitOn_cons hp
        have hlt : cs.length < n := hn ▸ Nat.lt_succ_self cs.length
        rw [hcons]
        exact (hcs ▸ ih cs.length hlt cs rfl).cons hp

section

variable {marker s : List Char} {ps : List (List Char)}

theorem IsCut.isInfix (h : IsCut marker s ps) : ∀ p ∈ ps, p <:+: s := by
  induction h with
  | whole _ => simp
  | @cut before rest ps _ _ ih =>
    refine List.forall_mem_cons.mpr ⟨?_, fun p hp => (ih p hp).trans (List.suffix_append _ rest).isInfix⟩
    rw [List.append_assoc]
    exact (List.prefix_append before _).isInfix

/-- The first piece begins the text, and a marker follows it if it is not the whole text. -/
theorem IsCut.eq_or_append {f : List Char} {fs : List (List Char)} (h : IsCut marker s (f :: fs)) :
    s = f ∨ ∃ t, s = f ++ (marker ++ t) := by
  cases h with
  | whole => exact .inl rfl
  | @cut _ rest => exact .inr ⟨rest, List.append_assoc f marker rest⟩

/-- Each piece but the last is followed by a marker, and begins the text or follows one. -/
theorem IsCut.append_marker (h : IsCut marker s ps) :
    ∀ p ∈ ps.dropLast, ∃ a b, s = a ++ (p ++ (marker ++ b)) ∧ (a = [] ∨ marker <:+ a) := by
  induction h with
  | whole _ => simp
  | @cut before rest ps _ h ih =>
    have hfirst : ∃ a b, before ++ marker ++ rest = a ++ (before ++ (marker ++ b)) ∧ (a = [] ∨ marker <:+ a) :=
      ⟨[], rest, List.append_assoc before marker rest, .inl rfl⟩
    cases h with
    | whole => simpa using hfirst
    | cut =>
      rw [List.dropLast_cons_cons]
      refine List.forall_mem_cons.mpr ⟨hfirst, fun p hp => ?_⟩
      obtain ⟨a, b, heq, ha⟩ := ih p hp
      refine ⟨before ++ marker ++ a, b, by rw [heq, List.append_assoc (before ++ marker)], .inr ?_⟩
      rcases ha with rfl | ha
      · exact (List.append_nil (before ++ marker)).symm ▸ List.suffix_append before marker
      · exact ha.trans (List.suffix_append (before ++ marker) a)

/-- A marker stands before each piece but the first. -/
theorem IsCut.marker_append (h : IsCut marker s ps) : ∀ p ∈ ps.tail, marker ++ p <:+: s := by
  induction h with
  | whole _ => simp
  | @cut before rest ps _ h ih =>
    have hfirst {f : List Char} {fs : List (List Char)} (h : IsCut marker rest (f :: fs)) :
        marker ++ f <:+: before ++ marker ++ rest := by
      rcases h.eq_or_append with rfl | ⟨t, rfl⟩
      · exact ⟨before, [], by simp⟩
      · exact ⟨before, marker ++ t, by simp⟩
    cases ps with
    | nil => simp
    | cons f fs =>
      exact List.forall_mem_cons.mpr ⟨hfirst h, fun p hp => (ih p hp).trans (List.suffix_append _ rest).isInfix⟩

end

/-- There is one way to cut a text. -/
theorem IsCut.unique {marker s : List Char} {ps qs : List (List Char)} (hp : IsCut marker s ps)
    (hq : IsCut marker s qs) : ps = qs := by
  induction hp generalizing qs with
  | whole h =>
    cases hq with
    | whole _ => rfl
    | cut _ _ => exact absurd (List.infix_append _ marker _) h
  | @cut before rest ps leftmost _ ih =>
    generalize hs : before ++ marker ++ rest = s at hq
    cases hq with
    | whole h =>
      rw [← hs] at h
      exact absurd (List.infix_append before marker rest) h
    | @cut before' rest' qs leftmost' hq =>
      have hle := leftmost before' rest' hs
      have hle' := leftmost' before rest hs.symm
      rw [List.append_assoc, List.append_assoc] at hs
      obtain ⟨rfl, hrest⟩ := List.append_inj hs (Nat.le_antisymm hle hle')
      rw [List.append_cancel_left hrest] at ih
      rw [ih hq]

/-- **The pieces of a text are those of `splitOn`,** and no others. -/
theorem isCut_iff {marker : List Char} (hm : marker ≠ []) {s : List Char} {ps : List (List Char)} :
    IsCut marker s ps ↔ ps = splitOn marker s := by
  constructor
  · exact fun h => h.unique (splitOn_isCut hm s)
  · rintro rfl
    exact splitOn_isCut hm s

/-! ## Patterns

A pattern says part by part what a text looks like. A part that repeats prefers to take many characters, or to
take few. Of all the ways to match, a search takes the one that begins furthest to the left, and of these the
first in which the parts, from left to right, get what they prefer.
-/

/-- **A part of a pattern.** -/
inductive PatternPart
  /-- One of some words, an earlier one preferred. -/
  | words (options : List (List Char))
  /-- A character of a class. -/
  | one (p : Char → Bool)
  /-- Characters of a class, many preferred. -/
  | many (p : Char → Bool)
  /-- Characters of a class, few preferred. -/
  | few (p : Char → Bool)
  /-- The beginning of the text. -/
  | textStart
  /-- The beginning of a line. -/
  | lineStart
  /-- The end of the text. -/
  | textEnd
  /-- The place from which on the text is wanted. -/
  | mark

/-- Whether a line begins behind a text. -/
def beginsLine (before : List Char) : Bool := before.getLast?.all (· == '\n')

/-- How many characters a part may take between what stands before it and the rest of the text, the
preferred number first. -/
def PatternPart.lengths (before rest : List Char) : PatternPart → List Nat
  | words options => (options.filter (·.isPrefixOf rest)).map List.length
  | one p => if rest.head?.any p then [1] else []
  | many p => (List.range ((rest.takeWhile p).length + 1)).reverse
  | few p => List.range ((rest.takeWhile p).length + 1)
  | textStart => if before.isEmpty then [0] else []
  | lineStart => if beginsLine before then [0] else []
  | textEnd => if rest.isEmpty then [0] else []
  | mark => [0]

/-- **The first match** of parts that follow one another: the texts that are left at its marks. -/
def match? : List PatternPart → List Char → List Char → Option (List (List Char))
  | [], _, _ => some []
  | .mark :: parts, before, rest => (match? parts before rest).map (rest :: ·)
  | part :: parts, before, rest =>
    (part.lengths before rest).findSome? fun n => match? parts (before ++ rest.take n) (rest.drop n)

/-- **The leftmost match** of a pattern in a text: the texts that are left at its marks. -/
def search? (parts : List PatternPart) (text : List Char) : Option (List (List Char)) :=
  (List.range (text.length + 1)).findSome? fun start =>
    match? parts (text.take start) (text.drop start)

variable {parts : List PatternPart} {p : Char → Bool} {before rest : List Char}

/-! ### Places -/

theorem match?_lineStart :
    match? (.lineStart :: parts) before rest = if beginsLine before then match? parts before rest else none := by
  simp only [match?, PatternPart.lengths]
  split_ifs
  · simp
  · rfl

theorem match?_textEnd :
    match? (.textEnd :: parts) before rest = if rest.isEmpty then match? parts before rest else none := by
  simp only [match?, PatternPart.lengths]
  split_ifs
  · simp
  · rfl

theorem match?_textStart :
    match? (.textStart :: parts) before rest = if before.isEmpty then match? parts before rest else none := by
  simp only [match?, PatternPart.lengths]
  split_ifs
  · simp
  · rfl

/-- A pattern that begins at the beginning of the text is tried there only. -/
theorem search?_textStart (parts : List PatternPart) (text : List Char) :
    search? (.textStart :: parts) text = match? parts [] text := by
  have hlater : ((List.range text.length).map Nat.succ).findSome? (fun start =>
      match? (.textStart :: parts) (text.take start) (text.drop start)) = none := by
    rw [List.findSome?_eq_none_iff]
    intro start hstart
    obtain ⟨n, hn, rfl⟩ := List.mem_map.mp hstart
    cases text with
    | nil => exact absurd (List.mem_range.mp hn) (Nat.not_lt_zero n)
    | cons c cs => rw [match?_textStart, List.take_succ_cons, List.isEmpty_cons, if_neg Bool.false_ne_true]
  unfold search?
  rw [List.range_succ_eq_map, List.findSome?_cons, hlater, match?_textStart, List.take_zero, List.drop_zero,
    List.isEmpty_nil, if_pos rfl]
  cases match? parts [] text <;> rfl

/-! ### Words and characters -/

theorem match?_words (options : List (List Char)) :
    match? (.words options :: parts) before rest =
      options.findSome? fun w => (afterBegin? w rest).bind (match? parts (before ++ w)) := by
  change ((options.filter (·.isPrefixOf rest)).map List.length).findSome? _ = _
  induction options with
  | nil => rfl
  | cons w options ih =>
    rw [List.findSome?_cons, ← ih]
    by_cases hw : w.isPrefixOf rest = true
    · obtain ⟨after, rfl⟩ := List.isPrefixOf_iff_prefix.mp hw
      rw [List.filter_cons, if_pos hw, List.map_cons, List.findSome?_cons, List.take_left, List.drop_left,
        afterBegin?_append, Option.bind_some]
    · have hnone : afterBegin? w rest = none := by
        rw [Option.eq_none_iff_forall_ne_some]
        intro after hafter
        exact hw (List.isPrefixOf_iff_prefix.mpr ⟨after, (afterBegin?_eq_some.mp hafter).symm⟩)
      rw [List.filter_cons, if_neg hw, hnone]
      rfl

theorem match?_word (w : List Char) :
    match? (.words [w] :: parts) before rest = (afterBegin? w rest).bind (match? parts (before ++ w)) := by
  rw [match?_words, List.findSome?_cons, List.findSome?_nil]
  cases (afterBegin? w rest).bind (match? parts (before ++ w)) <;> rfl

theorem match?_one_cons (c : Char) :
    match? (.one p :: parts) before (c :: rest) = if p c then match? parts (before ++ [c]) rest else none := by
  change (if p c then [1] else []).findSome? _ = _
  cases hc : p c with
  | true => exact List.findSome?_singleton
  | false => rfl

/-! ### Repeated characters -/

theorem take_length_takeWhile (p : Char → Bool) (s : List Char) :
    s.take (s.takeWhile p).length = s.takeWhile p :=
  (List.prefix_iff_eq_take.mp (List.takeWhile_prefix p)).symm

theorem drop_length_takeWhile (p : Char → Bool) (s : List Char) :
    s.drop (s.takeWhile p).length = s.dropWhile p := by
  have := @List.drop_left _ (s.takeWhile p) (s.dropWhile p)
  rwa [List.takeWhile_append_dropWhile] at this

theorem match?_many_eq :
    match? (.many p :: parts) before rest =
      (match? parts (before ++ rest.takeWhile p) (rest.dropWhile p)).or
        ((List.range (rest.takeWhile p).length).reverse.findSome? fun n =>
          match? parts (before ++ rest.take n) (rest.drop n)) := by
  change (List.range _).reverse.findSome? _ = _
  rw [List.range_succ, List.reverse_append, List.reverse_singleton, List.singleton_append,
    List.findSome?_cons, take_length_takeWhile, drop_length_takeWhile]
  cases match? parts (before ++ rest.takeWhile p) (rest.dropWhile p) <;> rfl

/-- A part that takes many characters takes all of them, if the rest matches then. -/
theorem match?_many_of_some {marks : List (List Char)}
    (h : match? parts (before ++ rest.takeWhile p) (rest.dropWhile p) = some marks) :
    match? (.many p :: parts) before rest = some marks := by
  rw [match?_many_eq, h, Option.some_or]

/-- A part that takes many characters takes all of them, if what follows cannot begin with one. -/
theorem match?_many (h : ∀ before c rest, p c = true → match? parts before (c :: rest) = none) :
    match? (.many p :: parts) before rest =
      match? parts (before ++ rest.takeWhile p) (rest.dropWhile p) := by
  have hfewer : ((List.range (rest.takeWhile p).length).reverse.findSome? fun n =>
      match? parts (before ++ rest.take n) (rest.drop n)) = none := by
    rw [List.findSome?_eq_none_iff]
    intro n hn
    have hlt : n < (rest.takeWhile p).length := List.mem_range.mp (List.mem_reverse.mp hn)
    have hrest : rest.drop n = (rest.takeWhile p).drop n ++ rest.dropWhile p := by
      conv_lhs => rw [← List.takeWhile_append_dropWhile (p := p) (l := rest)]
      exact List.drop_append_of_le_length hlt.le
    rw [hrest, List.drop_eq_getElem_cons hlt]
    exact h _ _ _ (List.mem_takeWhile_imp (List.getElem_mem hlt))
  rw [match?_many_eq, hfewer, Option.or_none]

theorem match?_few_nil : match? (.few p :: parts) before [] = match? parts before [] := by
  change (List.range 1).findSome? _ = _
  simp

/-- A part that takes few characters takes one more only where what follows does not match. -/
theorem match?_few_cons (c : Char) :
    match? (.few p :: parts) before (c :: rest) =
      (match? parts before (c :: rest)).or
        (if p c then match? (.few p :: parts) (before ++ [c]) rest else none) := by
  change (List.range _).findSome? _ = _
  rw [List.range_succ_eq_map, List.findSome?_cons, List.take_zero, List.drop_zero, List.append_nil,
    List.takeWhile_cons]
  have hmore : (if p c then match? (.few p :: parts) (before ++ [c]) rest else none) =
      ((List.range (if p c = true then c :: rest.takeWhile p else []).length).map Nat.succ).findSome? fun n =>
        match? parts (before ++ (c :: rest).take n) ((c :: rest).drop n) := by
    split_ifs
    · rw [List.findSome?_map]
      change (List.range _).findSome? (fun n => match? parts (before ++ [c] ++ rest.take n) (rest.drop n)) = _
      refine congrArg (List.findSome? · _) (funext fun n => ?_)
      rw [List.append_assoc]
      rfl
    · rfl
  rw [hmore]
  cases match? parts before (c :: rest) <;> rfl

end Transcript.Text
