/-!
# Bindings

A finite map from names to values that is listed in the order of the names. The order is part of
the type, so two maps with the same values are equal.

Results:
* `get?_insert_self`, `get?_insert_of_ne`, `get?_erase_self`, `get?_erase_of_ne`: what a change of one name does.
* `ext_get?`: maps that give the same values are equal.
* `get?_update`: where one map is put over another, its values count.
-/

namespace Transcript

/-- **A finite map from names**, its entries in strictly ascending order of the names. -/
structure Bindings (α : Type) where
  /-- The names with their values. -/
  entries : List (String × α)
  /-- The names ascend. -/
  sorted : entries.Pairwise (fun a b => a.1 < b.1)

namespace Bindings

variable {α β : Type}

/-- No bindings. -/
def empty : Bindings α := ⟨[], .nil⟩

instance : Inhabited (Bindings α) := ⟨empty⟩

/-- The value of a name in a list of entries. -/
def lookup (k : String) : List (String × α) → Option α
  | [] => none
  | (k', v) :: rest => if k' = k then some v else lookup k rest

/-- Puts an entry in its place. -/
def put (k : String) (v : α) : List (String × α) → List (String × α)
  | [] => [(k, v)]
  | (k', v') :: rest =>
    if k < k' then (k, v) :: (k', v') :: rest
    else if k = k' then (k, v) :: rest
    else (k', v') :: put k v rest

theorem mem_put {k : String} {v : α} {e : String × α} {l : List (String × α)} :
    e ∈ put k v l → e = (k, v) ∨ e ∈ l := by
  induction l with
  | nil => simp [put]
  | cons hd tl ih =>
    obtain ⟨k', v'⟩ := hd
    rw [put]
    split
    · simp
    · split
      · simp only [List.mem_cons]; rintro (h | h) <;> simp [h]
      · simp only [List.mem_cons]
        rintro (h | h)
        · simp [h]
        · rcases ih h with h | h <;> simp [h]

theorem put_sorted (k : String) (v : α) {l : List (String × α)}
    (h : l.Pairwise (fun a b => a.1 < b.1)) :
    (put k v l).Pairwise (fun a b => a.1 < b.1) := by
  induction l with
  | nil => simp [put]
  | cons hd tl ih =>
    obtain ⟨k', v'⟩ := hd
    rw [List.pairwise_cons] at h
    rw [put]
    split
    · rename_i hlt
      refine .cons (fun e he => ?_) (.cons h.1 h.2)
      rcases List.mem_cons.1 he with rfl | he
      · exact hlt
      · exact String.lt_trans hlt (h.1 e he)
    · split
      · rename_i heq; subst heq; exact .cons h.1 h.2
      · rename_i hlt hne
        refine .cons (fun e he => ?_) (ih h.2)
        rcases mem_put he with rfl | he
        · exact Std.lt_of_le_of_ne (String.not_lt.1 hlt) (Ne.symm hne)
        · exact h.1 e he

/-- The value of a name. -/
def get? (b : Bindings α) (k : String) : Option α := lookup k b.entries

/-- Binds a name to a value. -/
def insert (b : Bindings α) (k : String) (v : α) : Bindings α :=
  ⟨put k v b.entries, put_sorted k v b.sorted⟩

/-- Takes a name away. -/
def erase (b : Bindings α) (k : String) : Bindings α :=
  ⟨b.entries.filter (·.1 != k), b.sorted.filter _⟩

/-- Whether a name is bound. -/
def contains (b : Bindings α) (k : String) : Bool := (b.get? k).isSome

/-- The names in ascending order. -/
def keys (b : Bindings α) : List String := b.entries.map Prod.fst

/-- The number of names. -/
def size (b : Bindings α) : Nat := b.entries.length

/-- Binds all names of a list, from the first to the last. -/
def insertAll (b : Bindings α) (l : List (String × α)) : Bindings α :=
  l.foldl (fun b (k, v) => b.insert k v) b

/-- The bindings with those of another map put over them. -/
def update (b other : Bindings α) : Bindings α := b.insertAll other.entries

theorem lookup_put_self (k : String) (v : α) (l : List (String × α)) :
    lookup k (put k v l) = some v := by
  induction l with
  | nil => simp [put, lookup]
  | cons hd tl ih =>
    obtain ⟨k', v'⟩ := hd
    rw [put]
    split
    · simp [lookup]
    · split
      · simp [lookup]
      · rename_i hne; simp [lookup, Ne.symm hne, ih]

theorem lookup_put_of_ne {k k' : String} (v : α) (h : k ≠ k') (l : List (String × α)) :
    lookup k' (put k v l) = lookup k' l := by
  induction l with
  | nil => simp [put, lookup, h]
  | cons hd tl ih =>
    obtain ⟨k'', v''⟩ := hd
    rw [put]
    split
    · simp [lookup, h]
    · split
      · rename_i heq; subst heq; simp [lookup, h]
      · simp [lookup, ih]

theorem lookup_filter_self (k : String) (l : List (String × α)) :
    lookup k (l.filter (·.1 != k)) = none := by
  induction l with
  | nil => rfl
  | cons hd tl ih =>
    obtain ⟨k', v'⟩ := hd
    by_cases h : k' = k <;> simp [h, lookup, ih]

theorem lookup_filter_of_ne {k k' : String} (h : k ≠ k') (l : List (String × α)) :
    lookup k' (l.filter (·.1 != k)) = lookup k' l := by
  induction l with
  | nil => rfl
  | cons hd tl ih =>
    obtain ⟨k'', v''⟩ := hd
    by_cases h' : k'' = k
    · subst h'; simp [lookup, h, ih]
    · simp [h', lookup, ih]

@[simp] theorem get?_empty (k : String) : (empty : Bindings α).get? k = none := rfl

@[simp] theorem get?_insert_self (b : Bindings α) (k : String) (v : α) :
    (b.insert k v).get? k = some v := lookup_put_self k v b.entries

theorem get?_insert_of_ne (b : Bindings α) {k k' : String} (v : α) (h : k ≠ k') :
    (b.insert k v).get? k' = b.get? k' := lookup_put_of_ne v h b.entries

@[simp] theorem get?_erase_self (b : Bindings α) (k : String) : (b.erase k).get? k = none :=
  lookup_filter_self k b.entries

theorem get?_erase_of_ne (b : Bindings α) {k k' : String} (h : k ≠ k') :
    (b.erase k).get? k' = b.get? k' := lookup_filter_of_ne h b.entries

theorem lookup_eq_none_of_lt {k : String} {l : List (String × α)} (h : ∀ e ∈ l, k < e.1) :
    lookup k l = none := by
  induction l with
  | nil => rfl
  | cons hd tl ih =>
    have hne : hd.1 ≠ k := fun e => String.lt_irrefl k (e ▸ h hd (by simp))
    simp [lookup, hne, ih fun e he => h e (by simp [he])]

theorem eq_of_lookup {l l' : List (String × α)} (hl : l.Pairwise (fun a b => a.1 < b.1))
    (hl' : l'.Pairwise (fun a b => a.1 < b.1)) (h : ∀ k, lookup k l = lookup k l') : l = l' := by
  induction l generalizing l' with
  | nil =>
    cases l' with
    | nil => rfl
    | cons e tl => have := h e.1; simp [lookup] at this
  | cons e tl ih =>
    cases l' with
    | nil => have := h e.1; simp [lookup] at this
    | cons e' tl' =>
      rw [List.pairwise_cons] at hl hl'
      have hkey : e.1 = e'.1 := by
        have h₁ := h e.1
        have h₂ := h e'.1
        rcases Classical.em (e.1 = e'.1) with heq | hne
        · exact heq
        · by_cases hlt : e.1 < e'.1
          · have : lookup e.1 (e' :: tl') = none := lookup_eq_none_of_lt fun x hx => by
              rcases List.mem_cons.1 hx with rfl | hx
              · exact hlt
              · exact String.lt_trans hlt (hl'.1 x hx)
            rw [this] at h₁; simp [lookup] at h₁
          · have hgt : e'.1 < e.1 := Std.lt_of_le_of_ne (String.not_lt.1 hlt) (Ne.symm hne)
            have : lookup e'.1 (e :: tl) = none := lookup_eq_none_of_lt fun x hx => by
              rcases List.mem_cons.1 hx with rfl | hx
              · exact hgt
              · exact String.lt_trans hgt (hl.1 x hx)
            rw [this] at h₂; simp [lookup] at h₂
      have hval : e.2 = e'.2 := by have := h e.1; simpa [lookup, hkey] using this
      have htl : tl = tl' := ih hl.2 hl'.2 fun k => by
        rcases Classical.em (e.1 = k) with heq | hne
        · subst heq
          rw [lookup_eq_none_of_lt hl.1, lookup_eq_none_of_lt (hkey ▸ hl'.1)]
        · have := h k
          simpa [lookup, hne, hkey ▸ hne] using this
      rw [htl, Prod.ext hkey hval]

theorem ext_get? {b c : Bindings α} (h : ∀ k, b.get? k = c.get? k) : b = c := by
  have := eq_of_lookup b.sorted c.sorted h
  cases b; cases c; simp_all

theorem mem_iff_lookup {l : List (String × α)} (hl : l.Pairwise (fun a b => a.1 < b.1)) (k : String) (v : α) :
    (k, v) ∈ l ↔ lookup k l = some v := by
  induction l with
  | nil => simp [lookup]
  | cons hd tl ih =>
    obtain ⟨k', v'⟩ := hd
    rw [List.pairwise_cons] at hl
    rw [List.mem_cons, lookup]
    split
    · rename_i heq
      subst heq
      have hnone : (k', v) ∉ tl := fun h => String.lt_irrefl k' (hl.1 _ h)
      simp [hnone, eq_comm]
    · rename_i hne
      simp [Ne.symm hne, ih hl.2]

/-- The entries of a map are its values. -/
theorem mem_entries {b : Bindings α} {k : String} {v : α} : (k, v) ∈ b.entries ↔ b.get? k = some v :=
  mem_iff_lookup b.sorted k v

theorem get?_insertAll (b : Bindings α) {l : List (String × α)} (hl : l.Pairwise (fun a b => a.1 < b.1))
    (k : String) : (b.insertAll l).get? k = (lookup k l).or (b.get? k) := by
  induction l generalizing b with
  | nil => rfl
  | cons hd tl ih =>
    obtain ⟨k', v⟩ := hd
    rw [List.pairwise_cons] at hl
    have hrest : (b.insertAll ((k', v) :: tl)).get? k = (lookup k tl).or ((b.insert k' v).get? k) := ih _ hl.2
    rw [hrest, lookup]
    split
    · rename_i heq
      subst heq
      rw [lookup_eq_none_of_lt hl.1, get?_insert_self]
      rfl
    · rename_i hne
      rw [get?_insert_of_ne b v hne]

/-- **Where one map is put over another,** its values count. -/
theorem get?_update (b c : Bindings α) (k : String) : (b.update c).get? k = (c.get? k).or (b.get? k) :=
  get?_insertAll b c.sorted k

/-- Nothing is left of the map below if and only if all of its names are bound above. -/
theorem update_eq_right_iff (b c : Bindings α) : b.update c = c ↔ ∀ k, b.contains k → c.contains k := by
  constructor
  · intro h k hb
    rw [← h]
    unfold contains at hb ⊢
    rw [get?_update, Option.isSome_or, hb, Bool.or_true]
  · intro h
    refine ext_get? fun k => ?_
    rw [get?_update]
    cases hc : c.get? k with
    | some v => rfl
    | none =>
      cases hb : b.get? k with
      | none => rfl
      | some v =>
        have hk := h k (by unfold contains; rw [hb]; rfl)
        unfold contains at hk
        rw [hc] at hk
        cases hk

end Bindings

end Transcript
