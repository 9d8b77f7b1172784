import Transcript.Proofs.Text.Line

/-!
# Fields of a text

A text is its pieces with the separators between them. The fields are the pieces that are not empty, so
what is put between two texts does not matter for the fields as long as it separates them.

Results:
* `pieces_weave`: the pieces of a text that is woven from them.
* `fields_append`: the fields of two texts with separators between them.
* `fields_without`: what is left of the fields if some of them are taken out of the text.
* `fields_intercalate`: the fields of words with a separator between neighbours.
-/

namespace Transcript.Text

variable {p : Char → Bool}

/-! ## Pieces and separators -/

/-- Pieces of a text with separators between them. -/
def weave : List (List Char) → List Char → List Char
  | [], _ => []
  | t :: _, [] => t
  | t :: ts, c :: cs => t ++ c :: weave ts cs

theorem pieces_cons_of_neg {c : Char} (hc : p c = false) (cs : List Char) :
    ∃ f fs, pieces p cs = f :: fs ∧ pieces p (c :: cs) = (c :: f) :: fs := by
  obtain ⟨f, fs, hcs⟩ := List.exists_cons_of_ne_nil (pieces_ne_nil p cs)
  refine ⟨f, fs, hcs, ?_⟩
  rw [pieces, hcs, hc]
  rfl

theorem pieces_cons_of_pos {c : Char} (hc : p c = true) (cs : List Char) :
    pieces p (c :: cs) = [] :: pieces p cs := by
  rw [pieces, hc]
  rfl

theorem length_pieces (p : Char → Bool) (s : List Char) :
    (pieces p s).length = (s.filter p).length + 1 := by
  induction s with
  | nil => rfl
  | cons c cs ih =>
    cases hc : p c with
    | true => rw [pieces_cons_of_pos hc, List.filter_cons_of_pos hc, List.length_cons, ih, List.length_cons]
    | false =>
      obtain ⟨f, fs, hcs, hpieces⟩ := pieces_cons_of_neg hc cs
      rw [hcs] at ih
      rw [hpieces, List.filter_cons_of_neg (by simp [hc])]
      exact ih

/-- A piece holds no separator. -/
theorem not_separator_of_mem_pieces {s t : List Char} (h : t ∈ pieces p s) : ∀ c ∈ t, p c = false := by
  induction s generalizing t with
  | nil =>
    rw [List.mem_singleton.mp h]
    exact List.forall_mem_nil _
  | cons c cs ih =>
    cases hc : p c with
    | true =>
      rw [pieces_cons_of_pos hc] at h
      rcases List.mem_cons.mp h with rfl | h
      · exact List.forall_mem_nil _
      · exact ih h
    | false =>
      obtain ⟨f, fs, hcs, hpieces⟩ := pieces_cons_of_neg hc cs
      rw [hcs] at ih
      rw [hpieces] at h
      rcases List.mem_cons.mp h with rfl | h
      · exact List.forall_mem_cons.mpr ⟨hc, ih List.mem_cons_self⟩
      · exact ih (List.mem_cons_of_mem f h)

/-- **Pieces without separators are the pieces** of the text that they make with separators. -/
theorem pieces_weave {ts : List (List Char)} {seps : List Char} (hlength : ts.length = seps.length + 1)
    (hts : ∀ t ∈ ts, ∀ c ∈ t, p c = false) (hseps : ∀ c ∈ seps, p c = true) :
    pieces p (weave ts seps) = ts := by
  induction seps generalizing ts with
  | nil =>
    obtain ⟨t, rfl⟩ := List.length_eq_one_iff.mp hlength
    exact pieces_of_none (hts t List.mem_cons_self)
  | cons d ds ih =>
    cases ts with
    | nil => cases hlength
    | cons t ts =>
      obtain ⟨ht, hts⟩ := List.forall_mem_cons.mp hts
      obtain ⟨hd, hds⟩ := List.forall_mem_cons.mp hseps
      rw [weave, pieces_append_cons ht hd, ih (Nat.succ.inj hlength) hts hds]

theorem pieces_append (s : List Char) {d : Char} (hd : p d = true) (t : List Char) :
    pieces p (s ++ d :: t) = pieces p s ++ pieces p t := by
  induction s with
  | nil => exact pieces_cons_of_pos hd t
  | cons c cs ih =>
    cases hc : p c with
    | true => rw [List.cons_append, pieces_cons_of_pos hc, pieces_cons_of_pos hc, ih, List.cons_append]
    | false =>
      obtain ⟨f, fs, hcs, hpieces⟩ := pieces_cons_of_neg hc cs
      obtain ⟨g, gs, hall, hboth⟩ := pieces_cons_of_neg hc (cs ++ d :: t)
      rw [ih, hcs, List.cons_append] at hall
      cases hall
      rw [List.cons_append, hboth, hpieces, List.cons_append]

/-! ## Fields -/

theorem fields_append_cons (s : List Char) {d : Char} (hd : p d = true) (t : List Char) :
    fields p (s ++ d :: t) = fields p s ++ fields p t := by
  unfold fields
  rw [pieces_append s hd, List.filter_append]

/-- Separators at the beginning add no field. -/
theorem fields_of_separators {gap : List Char} (hgap : ∀ c ∈ gap, p c = true) (t : List Char) :
    fields p (gap ++ t) = fields p t := by
  induction gap with
  | nil => rfl
  | cons d ds ih =>
    obtain ⟨hd, hds⟩ := List.forall_mem_cons.mp hgap
    exact (fields_append_cons [] hd (ds ++ t)).trans (ih hds)

/-- **The fields of two texts** with separators between them. -/
theorem fields_append (s : List Char) {gap : List Char} (hne : gap ≠ []) (hgap : ∀ c ∈ gap, p c = true)
    (t : List Char) : fields p (s ++ gap ++ t) = fields p s ++ fields p t := by
  obtain ⟨d, ds, rfl⟩ := List.exists_cons_of_ne_nil hne
  obtain ⟨hd, hds⟩ := List.forall_mem_cons.mp hgap
  rw [List.append_assoc, List.cons_append, fields_append_cons s hd, fields_of_separators hds]

theorem fields_of_field {w : List Char} (hne : w ≠ []) (hw : ∀ c ∈ w, p c = false) : fields p w = [w] := by
  unfold fields
  rw [pieces_of_none hw]
  exact List.filter_cons_of_pos (by simpa using hne)

/-- **Words with a separator between neighbours** are the fields. -/
theorem fields_intercalate {d : Char} (hd : p d = true) {ws : List (List Char)}
    (hws : ∀ w ∈ ws, w ≠ [] ∧ ∀ c ∈ w, p c = false) : fields p (List.intercalate [d] ws) = ws := by
  induction ws with
  | nil => rfl
  | cons w ws ih =>
    obtain ⟨⟨hne, hw⟩, hws⟩ := List.forall_mem_cons.mp hws
    cases ws with
    | nil =>
      rw [List.intercalate_singleton]
      exact fields_of_field hne hw
    | cons v vs =>
      rw [List.intercalate_cons_cons, fields_append w (List.cons_ne_nil d []) (by simpa using hd), ih hws,
        fields_of_field hne hw]
      rfl

/-! ## Taking fields out -/

/-- **A text without some of its fields.** The separators stay. -/
def without (p : Char → Bool) (drop : List Char → Bool) (s : List Char) : List Char :=
  weave ((pieces p s).map fun t => if drop t then [] else t) (s.filter p)

/-- **The fields that are left** are the other ones. -/
theorem fields_without (p : Char → Bool) (drop : List Char → Bool) (s : List Char) :
    fields p (without p drop s) = (fields p s).filter fun t => !drop t := by
  have hpieces : pieces p (without p drop s) = (pieces p s).map fun t => if drop t then [] else t := by
    refine pieces_weave ?_ ?_ fun c hc => (List.mem_filter.mp hc).2
    · rw [List.length_map, length_pieces]
    · intro t ht
      obtain ⟨u, hu, rfl⟩ := List.mem_map.mp ht
      split_ifs
      · exact List.forall_mem_nil _
      · exact not_separator_of_mem_pieces hu
  unfold fields
  rw [hpieces]
  induction pieces p s with
  | nil => rfl
  | cons t ts ih =>
    rw [List.map_cons]
    cases hdrop : drop t <;> cases t <;> simp_all

end Transcript.Text
