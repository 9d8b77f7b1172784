import Transcript.Text.Lines
import Transcript.Text.Bytes
import Mathlib.Data.List.Basic

/-!
# Cutting a text into lines and joining them

`segments` and `joinLines` are inverse to each other on lines without line feeds, and a text that
ends its last line is the list of its lines, each with its line feed (`endedLines`).

Results:
* `segments_joinLines`, `joinLines_segments`: cutting undoes joining, joining undoes cutting.
* `eq_endedLines`: a text that is empty or ends its last line is made of ended lines.
* `fullLines_endedLines`, `segments_endedLines`, `lines_endedLines`: how such a text is cut.
-/

namespace Transcript.Text

/-! ## Pieces -/

theorem pieces_of_none {p : Char → Bool} {s : List Char} (h : ∀ c ∈ s, p c = false) : pieces p s = [s] := by
  induction s with
  | nil => rfl
  | cons c cs ih =>
    obtain ⟨hc, hcs⟩ := List.forall_mem_cons.mp h
    simp [pieces, hc, ih hcs]

/-- Cutting takes off one piece at a time. -/
theorem pieces_append_cons {p : Char → Bool} {s : List Char} (h : ∀ c ∈ s, p c = false) {d : Char}
    (hd : p d = true) (rest : List Char) : pieces p (s ++ d :: rest) = s :: pieces p rest := by
  induction s with
  | nil => simp [pieces, hd]
  | cons c cs ih =>
    obtain ⟨hc, hcs⟩ := List.forall_mem_cons.mp h
    simp [pieces, hc, ih hcs]

/-! ## Segments -/

theorem ne_feed_of_not_mem {l : List Char} (h : '\n' ∉ l) : ∀ c ∈ l, (c == '\n') = false := fun _ hc =>
  beq_false_of_ne fun heq => h (heq ▸ hc)

theorem segments_of_not_mem {l : List Char} (h : '\n' ∉ l) : segments l = [l] :=
  pieces_of_none (ne_feed_of_not_mem h)

/-- Cutting takes off one line at a time. -/
theorem segments_append_feed {l : List Char} (h : '\n' ∉ l) (rest : List Char) :
    segments (l ++ '\n' :: rest) = l :: segments rest :=
  pieces_append_cons (ne_feed_of_not_mem h) rfl rest

theorem segments_ne_nil (s : List Char) : segments s ≠ [] := pieces_ne_nil _ s

theorem segments_cons (c : Char) (cs : List Char) :
    segments (c :: cs) =
      if c = '\n' then [] :: segments cs
      else (c :: (segments cs).headD []) :: (segments cs).tail := by
  by_cases hc : c = '\n'
  · simp [segments, pieces, hc]
  · have hc' : (c == '\n') = false := by simpa using hc
    rw [if_neg hc]
    cases h : segments cs with
    | nil => exact absurd h (segments_ne_nil cs)
    | cons f fs =>
      unfold segments at h ⊢
      simp [pieces, hc', h]

/-- A segment holds no line feed. -/
theorem feed_not_mem_of_mem_segments {s l : List Char} (h : l ∈ segments s) : '\n' ∉ l := by
  induction s generalizing l with
  | nil =>
    rw [show segments [] = [[]] from rfl, List.mem_singleton] at h
    simp [h]
  | cons c cs ih =>
    rw [segments_cons] at h
    cases hs : segments cs with
    | nil => exact absurd hs (segments_ne_nil cs)
    | cons f fs =>
      rw [hs] at h ih
      split_ifs at h with hc
      · rcases List.mem_cons.mp h with rfl | h
        · simp
        · exact ih h
      · rw [List.headD_cons, List.tail_cons] at h
        rcases List.mem_cons.mp h with rfl | h
        · have := ih (l := f) List.mem_cons_self
          simp [Ne.symm hc, this]
        · exact ih (List.mem_cons_of_mem f h)

/-- What a line of a text is made of stands in the text. -/
theorem mem_of_mem_segments {s l : List Char} {c : Char} (h : l ∈ segments s) (hc : c ∈ l) :
    c ∈ s := by
  induction s generalizing l with
  | nil =>
    rw [show segments [] = [[]] from rfl, List.mem_singleton] at h
    exact absurd hc (by simp [h])
  | cons d ds ih =>
    rw [segments_cons] at h
    cases hs : segments ds with
    | nil => exact absurd hs (segments_ne_nil ds)
    | cons f fs =>
      rw [hs] at h ih
      split_ifs at h with hd
      · rcases List.mem_cons.mp h with rfl | h
        · exact absurd hc (by simp)
        · exact List.mem_cons_of_mem d (ih h hc)
      · rw [List.headD_cons, List.tail_cons] at h
        rcases List.mem_cons.mp h with rfl | h
        · rcases List.mem_cons.mp hc with rfl | hc
          · exact List.mem_cons_self
          · exact List.mem_cons_of_mem d (ih List.mem_cons_self hc)
        · exact List.mem_cons_of_mem d (ih (List.mem_cons_of_mem f h) hc)

/-- What stands before a text without a line feed between goes to the first line. -/
theorem segments_append_left {s : List Char} (h : '\n' ∉ s) (t : List Char) :
    segments (s ++ t) = (s ++ (segments t).headD []) :: (segments t).tail := by
  induction s with
  | nil =>
    obtain ⟨f, fs, hf⟩ := List.exists_cons_of_ne_nil (segments_ne_nil t)
    simp [hf]
  | cons c cs ih =>
    rw [List.mem_cons, not_or] at h
    rw [List.cons_append, segments_cons, if_neg (Ne.symm h.1), ih h.2]
    rfl

/-- What stands behind a text without a line feed between goes to the last line. -/
theorem segments_append_right (s : List Char) {t : List Char} (h : '\n' ∉ t) :
    ∃ init last, segments s = init ++ [last] ∧ segments (s ++ t) = init ++ [last ++ t] := by
  induction s with
  | nil => exact ⟨[], [], rfl, segments_of_not_mem h⟩
  | cons c cs ih =>
    obtain ⟨init, last, hcs, happend⟩ := ih
    rw [List.cons_append, segments_cons, segments_cons, hcs, happend]
    split_ifs with hc
    · exact ⟨[] :: init, last, rfl, rfl⟩
    · cases init with
      | nil => exact ⟨[], c :: last, rfl, rfl⟩
      | cons f fs => exact ⟨(c :: f) :: fs, last, rfl, rfl⟩

/-! ## Joined lines -/

theorem joinLines_cons_cons (l m : List Char) (ls : List (List Char)) :
    joinLines (l :: m :: ls) = l ++ '\n' :: joinLines (m :: ls) := by
  simp [joinLines, joinWith]

theorem joinLines_cons {ls : List (List Char)} (h : ls ≠ []) (l : List Char) :
    joinLines (l :: ls) = l ++ '\n' :: joinLines ls := by
  obtain ⟨m, ms, rfl⟩ := List.exists_cons_of_ne_nil h
  exact joinLines_cons_cons l m ms

theorem head?_segments_joinLines {l : List Char} (h : '\n' ∉ l) (ls : List (List Char)) :
    (segments (joinLines (l :: ls))).head? = some l := by
  cases ls with
  | nil =>
    have hone : joinLines [l] = l := rfl
    rw [hone, segments_of_not_mem h]
    rfl
  | cons m ms =>
    rw [joinLines_cons_cons, segments_append_feed h]
    rfl

/-- **Cutting undoes joining.** -/
theorem segments_joinLines {ls : List (List Char)} (hne : ls ≠ []) (h : ∀ l ∈ ls, '\n' ∉ l) :
    segments (joinLines ls) = ls := by
  induction ls with
  | nil => exact absurd rfl hne
  | cons l ls ih =>
    cases ls with
    | nil => exact segments_of_not_mem (h l List.mem_cons_self)
    | cons m ms =>
      rw [joinLines_cons_cons, segments_append_feed (h l List.mem_cons_self),
        ih (List.cons_ne_nil m ms) fun x hx => h x (List.mem_cons_of_mem l hx)]

/-- **Joining undoes cutting.** -/
theorem joinLines_segments (s : List Char) : joinLines (segments s) = s := by
  induction s with
  | nil => rfl
  | cons c cs ih =>
    rw [segments_cons]
    split_ifs with hc
    · rw [joinLines_cons (segments_ne_nil cs), ih, hc, List.nil_append]
    · cases hs : segments cs with
      | nil => exact absurd hs (segments_ne_nil cs)
      | cons f fs =>
        rw [hs] at ih
        cases fs with
        | nil =>
          rw [← ih]
          rfl
        | cons g gs =>
          rw [joinLines_cons_cons] at ih
          rw [List.headD_cons, List.tail_cons, joinLines_cons_cons, ← ih, List.cons_append]

/-! ## Ended lines -/

/-- Lines with a line feed behind each. -/
def endedLines (ls : List (List Char)) : List Char := (ls.map (· ++ ['\n'])).flatten

@[simp] theorem endedLines_nil : endedLines [] = [] := rfl

@[simp] theorem endedLines_cons (l : List Char) (ls : List (List Char)) :
    endedLines (l :: ls) = l ++ '\n' :: endedLines ls := by
  simp [endedLines]

@[simp] theorem endedLines_append (ls ms : List (List Char)) :
    endedLines (ls ++ ms) = endedLines ls ++ endedLines ms := by
  simp [endedLines]

theorem joinLines_append_feed {ls : List (List Char)} (h : ls ≠ []) :
    joinLines ls ++ ['\n'] = endedLines ls := by
  induction ls with
  | nil => exact absurd rfl h
  | cons l ls ih =>
    cases ls with
    | nil => simp [joinLines, joinWith]
    | cons m ms =>
      rw [joinLines_cons_cons, endedLines_cons, ← ih (List.cons_ne_nil m ms)]
      simp

/-- The lines of a text, ended, are the text with its last line ended. -/
theorem endedLines_segments (s : List Char) : endedLines (segments s) = s ++ ['\n'] := by
  rw [← joinLines_append_feed (segments_ne_nil s), joinLines_segments]

theorem segments_endedLines {ls : List (List Char)} (h : ∀ l ∈ ls, '\n' ∉ l) :
    segments (endedLines ls) = ls ++ [[]] := by
  induction ls with
  | nil => rfl
  | cons l ls ih =>
    rw [endedLines_cons, segments_append_feed (h l List.mem_cons_self),
      ih fun x hx => h x (List.mem_cons_of_mem l hx), List.cons_append]

theorem endedLines_inj {ls ms : List (List Char)} (hls : ∀ l ∈ ls, '\n' ∉ l)
    (hms : ∀ l ∈ ms, '\n' ∉ l) (h : endedLines ls = endedLines ms) : ls = ms := by
  have hsegments := congrArg segments h
  rw [segments_endedLines hls, segments_endedLines hms] at hsegments
  exact List.append_cancel_right hsegments

theorem endedLines_getLast? {ls : List (List Char)} (h : ls ≠ []) :
    (endedLines ls).getLast? = some '\n' := by
  rw [← joinLines_append_feed h, List.getLast?_concat]

/-- The segments of a text that ends its last line. -/
theorem segments_append_last (s : List Char) : segments (s ++ ['\n']) = segments s ++ [[]] := by
  have h : ∀ l ∈ segments s, '\n' ∉ l := fun l hl => feed_not_mem_of_mem_segments hl
  conv_lhs => rw [← joinLines_segments s]
  rw [joinLines_append_feed (segments_ne_nil s), segments_endedLines h]

/-- **A text that is empty or ends its last line is made of ended lines.** -/
theorem eq_endedLines {s : List Char} (h : s = [] ∨ s.getLast? = some '\n') :
    ∃ ls : List (List Char), (∀ l ∈ ls, '\n' ∉ l) ∧ s = endedLines ls ∧ segments s = ls ++ [[]] := by
  rcases h with rfl | h
  · exact ⟨[], by simp, rfl, rfl⟩
  · obtain ⟨body, rfl⟩ := List.getLast?_eq_some_iff.mp h
    exact ⟨segments body, fun l hl => feed_not_mem_of_mem_segments hl,
      (endedLines_segments body).symm, segments_append_last body⟩

theorem fullLines_append_feed {l : List Char} (h : '\n' ∉ l) (rest : List Char) :
    fullLines (l ++ '\n' :: rest) = (l ++ ['\n']) :: fullLines rest := by
  induction l with
  | nil => simp [fullLines]
  | cons c cs ih =>
    rw [List.mem_cons, not_or] at h
    have hc : c ≠ '\n' := Ne.symm h.1
    simp [fullLines, hc, ih h.2]

theorem fullLines_endedLines {ls : List (List Char)} (h : ∀ l ∈ ls, '\n' ∉ l) :
    fullLines (endedLines ls) = ls.map (· ++ ['\n']) := by
  induction ls with
  | nil => rfl
  | cons l ls ih =>
    rw [endedLines_cons, fullLines_append_feed (h l List.mem_cons_self),
      ih fun x hx => h x (List.mem_cons_of_mem l hx), List.map_cons]

theorem withoutLineEnd_append_feed {l : List Char} (h : l.getLast? ≠ some '\r') :
    withoutLineEnd (l ++ ['\n']) = l := by
  unfold withoutLineEnd
  rw [List.reverse_append]
  split
  · rename_i rest hrev
    have hl : l.reverse = '\r' :: rest := by simpa using hrev
    rw [← List.head?_reverse, hl] at h
    exact absurd rfl h
  · rename_i rest _ hrev
    have hl : l.reverse = rest := by simpa using hrev
    rw [← hl, List.reverse_reverse]
  · rename_i _ hne
    exact absurd rfl (hne l.reverse)

/-- The lines of such a text are those that it is made of, unless one ends like a line end. -/
theorem lines_endedLines {ls : List (List Char)} (h : ∀ l ∈ ls, '\n' ∉ l)
    (hr : ∀ l ∈ ls, l.getLast? ≠ some '\r') : lines (endedLines ls) = ls := by
  unfold lines
  rw [fullLines_endedLines h, List.map_map]
  exact (List.map_congr_left fun l hl => withoutLineEnd_append_feed (hr l hl)).trans (List.map_id ls)

/-- The full lines of a text are its segments, those before the last with a line feed. -/
theorem segments_of_fullLines {s l : List Char} {i : Nat} (h : (fullLines s)[i]? = some l) :
    ∃ seg, (segments s)[i]? = some seg ∧ (l = seg ∨ l = seg ++ ['\n']) := by
  induction s generalizing i l with
  | nil => cases h
  | cons c cs ih =>
    rw [segments_cons]
    unfold fullLines at h
    split_ifs at h ⊢ with hc
    · cases i with
      | zero =>
        cases h
        exact ⟨[], rfl, .inr rfl⟩
      | succ i => exact ih h
    · cases hs : fullLines cs with
      | nil =>
        rw [hs] at h
        cases i with
        | zero =>
          cases h
          cases cs with
          | nil => exact ⟨[c], rfl, .inl rfl⟩
          | cons d ds =>
            have hflat := flatten_fullLines (d :: ds)
            rw [hs] at hflat
            cases hflat
        | succ i => cases h
      | cons f fs =>
        rw [hs] at h ih
        cases i with
        | zero =>
          cases h
          obtain ⟨seg, hseg, hf⟩ := ih (i := 0) rfl
          refine ⟨c :: seg, ?_, ?_⟩
          · obtain ⟨g, gs, hg⟩ := List.exists_cons_of_ne_nil (segments_ne_nil cs)
            rw [hg] at hseg ⊢
            cases hseg
            rfl
          · rcases hf with rfl | rfl
            · exact .inl rfl
            · exact .inr rfl
        | succ i =>
          rw [List.getElem?_cons_succ] at h
          obtain ⟨seg, hseg, hl⟩ := ih (i := i + 1) h
          refine ⟨seg, ?_, hl⟩
          rw [List.getElem?_cons_succ, List.getElem?_tail]
          exact hseg

/-- The lines of a text are its segments without carriage returns at their ends. -/
theorem segments_of_lines {s l : List Char} {i : Nat} (h : (lines s)[i]? = some l) :
    ∃ seg, (segments s)[i]? = some seg ∧ (seg = l ∨ seg = l ++ ['\r']) := by
  unfold lines at h
  rw [List.getElem?_map, Option.map_eq_some_iff] at h
  obtain ⟨full, hfull, rfl⟩ := h
  obtain ⟨seg, hseg, hl⟩ := segments_of_fullLines hfull
  refine ⟨seg, hseg, ?_⟩
  have hfeed := feed_not_mem_of_mem_segments (List.mem_of_getElem? hseg)
  unfold withoutLineEnd
  rcases hl with rfl | rfl
  · split
    · rename_i rest hrev
      exact absurd (List.mem_reverse.mp (hrev ▸ List.mem_cons_self)) hfeed
    · rename_i rest _ hrev
      exact absurd (List.mem_reverse.mp (hrev ▸ List.mem_cons_self)) hfeed
    · exact .inl rfl
  · rw [List.reverse_append]
    split
    · rename_i rest hrev
      have hseg : seg.reverse = '\r' :: rest := by simpa using hrev
      refine .inr ?_
      rw [← List.reverse_reverse seg, hseg, List.reverse_cons]
    · rename_i rest _ hrev
      have hseg : seg.reverse = rest := by simpa using hrev
      refine .inl ?_
      rw [← hseg, List.reverse_reverse]
    · rename_i _ h
      exact absurd rfl (h seg.reverse)

/-- A line of a text holds no line feed. -/
theorem feed_not_mem_of_mem_lines {s l : List Char} (h : l ∈ lines s) : '\n' ∉ l := by
  obtain ⟨i, hi⟩ := List.mem_iff_getElem?.mp h
  obtain ⟨seg, hseg, hl⟩ := segments_of_lines hi
  have hfeed := feed_not_mem_of_mem_segments (List.mem_of_getElem? hseg)
  rcases hl with rfl | rfl
  · exact hfeed
  · exact fun hf => hfeed (List.mem_append_left _ hf)

/-! ## Numbered lines -/

/-- **Lines with their numbers,** of which the first one is given. -/
def numberedFrom {α : Type} (make : Nat → List Char → α) : Nat → List (List Char) → List α
  | _, [] => []
  | n, l :: ls => make n l :: numberedFrom make (n + 1) ls

section

variable {α : Type} (make : Nat → List Char → α)

theorem map_zipIdx_eq_numberedFrom (n : Nat) (ls : List (List Char)) :
    (ls.zipIdx.map fun (l, i) => make (n + i) l) = numberedFrom make n ls := by
  have key (k : Nat) : ((ls.zipIdx k).map fun (l, i) => make (n + i) l) = numberedFrom make (n + k) ls := by
    induction ls generalizing k with
    | nil => rfl
    | cons l ls ih => rw [List.zipIdx_cons, List.map_cons, ih]; rfl
  exact key 0

theorem numberedFrom_append (n : Nat) (a b : List (List Char)) :
    numberedFrom make n (a ++ b) = numberedFrom make n a ++ numberedFrom make (n + a.length) b := by
  induction a generalizing n with
  | nil => rfl
  | cons l ls ih =>
    rw [List.cons_append, numberedFrom, numberedFrom, ih, List.length_cons, Nat.add_right_comm, Nat.add_assoc]
    rfl

theorem length_numberedFrom (n : Nat) (ls : List (List Char)) :
    (numberedFrom make n ls).length = ls.length := by
  induction ls generalizing n with
  | nil => rfl
  | cons l ls ih => rw [numberedFrom, List.length_cons, List.length_cons, ih]

theorem map_numberedFrom {β : Type} (f : α → β) (n : Nat) (ls : List (List Char)) :
    (numberedFrom make n ls).map f = numberedFrom (fun n l => f (make n l)) n ls := by
  induction ls generalizing n with
  | nil => rfl
  | cons l ls ih => rw [numberedFrom, List.map_cons, ih]; rfl

theorem numberedFrom_map (f : List Char → List Char) (n : Nat) (ls : List (List Char)) :
    numberedFrom make n (ls.map f) = numberedFrom (fun n l => make n (f l)) n ls := by
  induction ls generalizing n with
  | nil => rfl
  | cons l ls ih => rw [List.map_cons, numberedFrom, ih]; rfl

variable {make} in
theorem numberedFrom_congr {make' : Nat → List Char → α} {ls : List (List Char)}
    (h : ∀ l ∈ ls, ∀ n, make n l = make' n l) (n : Nat) : numberedFrom make n ls = numberedFrom make' n ls := by
  induction ls generalizing n with
  | nil => rfl
  | cons l ls ih =>
    obtain ⟨hl, hls⟩ := List.forall_mem_cons.mp h
    rw [numberedFrom, numberedFrom, hl, ih hls]

theorem drop_numberedFrom (n k : Nat) (ls : List (List Char)) :
    (numberedFrom make n ls).drop k = numberedFrom make (n + k) (ls.drop k) := by
  induction ls generalizing n k with
  | nil => rw [List.drop_nil, numberedFrom, numberedFrom, List.drop_nil]
  | cons l ls ih =>
    cases k with
    | zero => rfl
    | succ k => rw [numberedFrom, List.drop_succ_cons, List.drop_succ_cons, ih, Nat.add_assoc, Nat.add_comm 1 k]

/-- Without their numbers the lines are what they were. -/
theorem numberedFrom_text (n : Nat) (ls : List (List Char)) : numberedFrom (fun _ l => l) n ls = ls := by
  induction ls generalizing n with
  | nil => rfl
  | cons l ls ih => rw [numberedFrom, ih]

variable {make}

theorem mem_numberedFrom {n : Nat} {ls : List (List Char)} {x : α} :
    x ∈ numberedFrom make n ls ↔ ∃ i l, ls[i]? = some l ∧ x = make (n + i) l := by
  rw [← map_zipIdx_eq_numberedFrom, List.mem_map]
  constructor
  · rintro ⟨⟨l, i⟩, h, rfl⟩
    exact ⟨i, l, List.mem_zipIdx_iff_getElem?.mp h, rfl⟩
  · rintro ⟨i, l, h, rfl⟩
    exact ⟨(l, i), List.mem_zipIdx_iff_getElem?.mpr h, rfl⟩

end

/-! ## Cuts -/

/-- **The members from one index up to another one.** There are none if the indices are out of order or behind
the end. -/
def between? {α : Type} (first last : Nat) (l : List α) : Option (List α) :=
  if first ≤ last ∧ last ≤ l.length then some ((l.take last).drop first) else none

theorem between?_of_le {α : Type} {first last : Nat} {l : List α} (h : first ≤ last) (hl : last ≤ l.length) :
    between? first last l = some ((l.take last).drop first) := if_pos ⟨h, hl⟩

/-- What stands at an index is cut out from there on. -/
theorem between?_drop {α : Type} {i : Nat} {l run : List α} (h : run <+: l.drop i) (hi : i ≤ l.length) :
    between? i (i + run.length) l = some run := by
  have hlength : i + run.length ≤ l.length := by
    have := h.length_le
    rw [List.length_drop] at this
    omega
  rw [between?_of_le (Nat.le_add_right i _) hlength, List.drop_take, Nat.add_sub_cancel_left,
    ← List.prefix_iff_eq_take.mp h]

/-! ## Trimming -/

theorem dropEndWhile_isPrefix (p : Char → Bool) (s : List Char) : dropEndWhile p s <+: s := by
  induction s with
  | nil => exact List.prefix_rfl
  | cons c cs ih =>
    unfold dropEndWhile
    cases h : dropEndWhile p cs with
    | nil =>
      dsimp only
      split_ifs
      · exact List.nil_prefix
      · exact ⟨cs, rfl⟩
    | cons d ds =>
      rw [h] at ih
      exact List.cons_prefix_cons.mpr ⟨rfl, ih⟩

/-- Trimming takes characters off the end. -/
theorem trimEnd_isPrefix (s : List Char) : trimEnd s <+: s := dropEndWhile_isPrefix isBlank s

/-- Nothing is dropped at the end of a list whose last member is to be kept. -/
theorem dropWhile_reverse_of_last {α : Type} {p : α → Bool} {l : List α} (h : ∀ x ∈ l.getLast?, p x = false) :
    (l.reverse.dropWhile p).reverse = l := by
  rw [← List.head?_reverse] at h
  cases hrev : l.reverse with
  | nil =>
    rw [List.reverse_eq_nil_iff.mp hrev]
    rfl
  | cons x xs =>
    rw [hrev] at h
    rw [List.dropWhile_cons_of_neg (by simp [h x rfl]), ← hrev, List.reverse_reverse]

/-! ## Tabs -/

theorem tab_not_mem_expandTabsFrom (n : Nat) (s : List Char) : '\t' ∉ expandTabsFrom n s := by
  induction s generalizing n with
  | nil => simp [expandTabsFrom]
  | cons c cs ih =>
    unfold expandTabsFrom
    split_ifs with hc
    · simp [ih]
    · simp [ih, Ne.symm hc]

/-- After its tabs are expanded, a line has none. -/
theorem tab_not_mem_expandTabs (s : List Char) : '\t' ∉ expandTabs s := tab_not_mem_expandTabsFrom 0 s

theorem feed_mem_expandTabsFrom {n : Nat} {s : List Char} (h : '\n' ∈ expandTabsFrom n s) :
    '\n' ∈ s := by
  induction s generalizing n with
  | nil => exact absurd h (by simp [expandTabsFrom])
  | cons c cs ih =>
    unfold expandTabsFrom at h
    split_ifs at h with hc
    · rcases List.mem_append.mp h with h | h
      · exact absurd (List.eq_of_mem_replicate h) (by decide)
      · exact List.mem_cons_of_mem c (ih h)
    · rcases List.mem_cons.mp h with rfl | h
      · exact List.mem_cons_self
      · exact List.mem_cons_of_mem c (ih h)

/-! ## Bytes -/

theorem dropBytes_suffix {n : Nat} {s t : List Char} (h : dropBytes n s = some t) : t <:+ s := by
  fun_induction dropBytes n s with
  | case1 cs =>
    cases h
    exact List.suffix_rfl
  | case2 => cases h
  | case3 n c cs hc ih => exact (ih h).trans (List.suffix_cons c cs)
  | case4 => cases h

/-- Cutting off bytes brings in no character. -/
theorem mem_of_mem_dropBytes {n : Nat} {s : List Char} {c : Char}
    (h : c ∈ (dropBytes n s).getD []) : c ∈ s := by
  cases hs : dropBytes n s with
  | none =>
    rw [hs] at h
    exact absurd h (by simp)
  | some t =>
    rw [hs] at h
    exact (dropBytes_suffix hs).subset h

theorem charAtByte_append (s t : List Char) :
    charAtByte (byteLength s) (s ++ t) = t.head?.map some := by
  induction s with
  | nil => cases t <;> rfl
  | cons c cs ih =>
    have hpos : 0 < c.utf8Size := Char.utf8Size_pos c
    obtain ⟨n, hn⟩ : ∃ n, byteLength (c :: cs) = n + 1 :=
      ⟨byteLength (c :: cs) - 1, by rw [byteLength]; omega⟩
    have hle : c.utf8Size ≤ n + 1 := by rw [byteLength] at hn; omega
    have hsub : n + 1 - c.utf8Size = byteLength cs := by rw [byteLength] at hn; omega
    rw [hn, List.cons_append, charAtByte, if_pos hle, hsub]
    exact ih

theorem takeBytes_append (s t : List Char) : takeBytes (byteLength s) (s ++ t) = some s := by
  induction s with
  | nil => cases t <;> rfl
  | cons c cs ih =>
    have hpos : 0 < c.utf8Size := Char.utf8Size_pos c
    obtain ⟨n, hn⟩ : ∃ n, byteLength (c :: cs) = n + 1 :=
      ⟨byteLength (c :: cs) - 1, by rw [byteLength]; omega⟩
    have hle : c.utf8Size ≤ n + 1 := by rw [byteLength] at hn; omega
    have hsub : n + 1 - c.utf8Size = byteLength cs := by rw [byteLength] at hn; omega
    rw [hn, List.cons_append, takeBytes, if_pos hle, hsub, ih]
    rfl

/-- Spaces, digits and the signs of markup take one byte each. -/
theorem byteLength_of_ascii {s : List Char} (h : ∀ c ∈ s, c.utf8Size = 1) : byteLength s = s.length := by
  induction s with
  | nil => rfl
  | cons c cs ih =>
    rw [byteLength, h c List.mem_cons_self, ih fun d hd => h d (List.mem_cons_of_mem c hd),
      List.length_cons, Nat.add_comm]

theorem dropBytes_append_ascii {s : List Char} (h : ∀ c ∈ s, c.utf8Size = 1) (t : List Char) :
    dropBytes s.length (s ++ t) = some t := by
  rw [← byteLength_of_ascii h]
  exact dropBytes_append s t

theorem dropBytes_of_lt {n : Nat} {s : List Char} (h : byteLength s < n) : dropBytes n s = none := by
  induction s generalizing n with
  | nil =>
    cases n with
    | zero => exact absurd h (Nat.not_lt_zero _)
    | succ n => rfl
  | cons c cs ih =>
    rw [byteLength] at h
    cases n with
    | zero => exact absurd h (Nat.not_lt_zero _)
    | succ n =>
      rw [dropBytes, if_pos (by omega)]
      exact ih (by omega)

end Transcript.Text
