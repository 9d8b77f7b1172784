import Transcript.Proofs.Lang.DatumValue
import Transcript.Proofs.Lang.Ranking

/-!
# Equality and order are coherent

On values that are finite trees without doubles, equality is an equivalence relation. For dictionaries, it looks
for each entry of the first one among those of the second one; as there are as many, and no two keys are equal, all
of the second one are met on the way. The order of such values is the opposite one the other way round, is that of
equals exactly on equal values, and where it succeeds twice on the way up, it succeeds over the two steps.

Results:
* `Datum.equal_trans`, `Datum.equal_symm`: equality of data.
* `Ranks.trans_less`, `Ranks.congr_right`: what the order of plain values makes of less and of equal ones.
* `coherent_of_plain`: equality and order of three plain values.
-/

namespace Transcript.Lang

/-! ## Equality of data -/

/-- **A matching that meets everything:** if each item of a list matches one of another list that is as long, and
no two match the same one, each of the other list is matched. -/
theorem exists_match {α β : Type} {R : α → β → Prop} {xs : List α} {ys : List β} (hlength : ys.length ≤ xs.length)
    (h : ∀ x ∈ xs, ∃ y ∈ ys, R x y) (hone : xs.Pairwise fun x x' => ∀ y, R x y → ¬ R x' y) :
    ∀ y ∈ ys, ∃ x ∈ xs, R x y := by
  induction xs generalizing ys with
  | nil =>
    rw [List.eq_nil_of_length_eq_zero (Nat.le_zero.mp hlength)]
    exact nofun
  | cons x xs ih =>
    obtain ⟨⟨y, hy, hxy⟩, hxs⟩ := List.forall_mem_cons.mp h
    obtain ⟨hfirst, hone⟩ := List.pairwise_cons.mp hone
    obtain ⟨before, after, rfl⟩ := List.append_of_mem hy
    -- Without the item that the first one matches, the other ones still match all that they did.
    have hrest : ∀ x' ∈ xs, ∃ y' ∈ before ++ after, R x' y' := by
      intro x' hx'
      obtain ⟨y', hy', hR⟩ := hxs x' hx'
      refine ⟨y', ?_, hR⟩
      rcases List.mem_append.mp hy' with hy' | hy'
      · exact List.mem_append_left after hy'
      · rcases List.mem_cons.mp hy' with rfl | hy'
        · exact absurd hR (hfirst x' hx' _ hxy)
        · exact List.mem_append_right before hy'
    have hmet := ih (by simp only [List.length_append, List.length_cons] at hlength ⊢; omega) hrest hone
    intro y' hy'
    by_cases heq : y' = y
    · exact ⟨x, List.mem_cons_self, heq ▸ hxy⟩
    · have hmem : y' ∈ before ++ after := by
        rcases List.mem_append.mp hy' with hy' | hy'
        · exact List.mem_append_left after hy'
        · exact List.mem_append_right before ((List.mem_cons.mp hy').resolve_left heq)
      obtain ⟨x', hx', hR⟩ := hmet y' hmem
      exact ⟨x', List.mem_cons_of_mem x hx', hR⟩

namespace Datum

/-- Whether two entries of dictionaries are equal. -/
def EqualEntries (e e' : Datum × Datum) : Prop := e.1.equal e'.1 = true ∧ e.2.equal e'.2 = true

theorem allEqual_iff {xs ys : List Datum} :
    allEqual xs ys = true ↔ List.Forall₂ (fun x y => x.equal y = true) xs ys := by
  induction xs generalizing ys with
  | nil =>
    cases ys with
    | nil => exact iff_of_true rfl .nil
    | cons y ys => exact iff_of_false nofun nofun
  | cons x xs ih =>
    cases ys with
    | nil => exact iff_of_false nofun nofun
    | cons y ys => rw [allEqual, Bool.and_eq_true, List.forall₂_cons, ih]

theorem allAmong_iff {xs ys : List (Datum × Datum)} :
    allAmong xs ys = true ↔ ∀ x ∈ xs, ∃ y ∈ ys, EqualEntries x y := by
  induction xs with
  | nil => exact iff_of_true rfl nofun
  | cons x xs ih =>
    rw [allAmong, Bool.and_eq_true, List.any_eq_true, List.forall_mem_cons, ih]
    simp only [Bool.and_eq_true, EqualEntries]

/-- **The ways to be equal** for data. -/
inductive EqualStep : Datum → Datum → Prop
  /-- The same datum. -/
  | same (a : Datum) : EqualStep a a
  /-- The same number. -/
  | number {a b : Datum} {n : Int64} (ha : a.asInt? = some n) (hb : b.asInt? = some n) : EqualStep a b
  /-- Lists with equal items. -/
  | list {xs ys : List Datum} (h : List.Forall₂ (fun x y => x.equal y = true) xs ys) :
      EqualStep (.list xs) (.list ys)
  /-- Tuples with equal items. -/
  | tuple {xs ys : List Datum} (h : List.Forall₂ (fun x y => x.equal y = true) xs ys) :
      EqualStep (.tuple xs) (.tuple ys)
  /-- Dictionaries with as many entries, each of the first one equal to one of the second one. -/
  | dict {xs ys : List (Datum × Datum)} (hlength : xs.length = ys.length)
      (h : ∀ x ∈ xs, ∃ y ∈ ys, EqualEntries x y) : EqualStep (.dict xs) (.dict ys)

theorem equal_of_numbers {a b : Datum} {n : Int64} (ha : a.asInt? = some n) (hb : b.asInt? = some n) :
    a.equal b = true := by
  cases a with
  | bool x =>
    cases b with
    | bool y => simp [equal, ha, hb]
    | int y => simp [equal, ha, hb]
    | _ => cases hb
  | int x =>
    cases b with
    | bool y => simp [equal, ha, hb]
    | int y => simp [equal, ha, hb]
    | _ => cases hb
  | _ => cases ha

theorem equal_iff {a b : Datum} : a.equal b = true ↔ EqualStep a b := by
  constructor
  · intro h
    cases a with
    | none =>
      cases b with
      | none => exact .same .none
      | _ => cases h
    | str s =>
      cases b with
      | str t => exact beq_iff_eq.mp h ▸ .same _
      | _ => cases h
    | bytes s =>
      cases b with
      | bytes t => exact beq_iff_eq.mp h ▸ .same _
      | _ => cases h
    | range a₁ a₂ a₃ =>
      cases b with
      | range b₁ b₂ b₃ =>
        rw [equal, Bool.and_eq_true, Bool.and_eq_true, beq_iff_eq, beq_iff_eq, beq_iff_eq] at h
        obtain ⟨⟨rfl, rfl⟩, rfl⟩ := h
        exact .same _
      | _ => cases h
    | list xs =>
      cases b with
      | list ys => exact .list (allEqual_iff.mp h)
      | _ => cases h
    | tuple xs =>
      cases b with
      | tuple ys => exact .tuple (allEqual_iff.mp h)
      | _ => cases h
    | dict xs =>
      cases b with
      | dict ys =>
        rw [equal, Bool.and_eq_true, beq_iff_eq] at h
        exact .dict h.1 (allAmong_iff.mp h.2)
      | _ => cases h
    | bool x =>
      cases b with
      | bool y => exact .number rfl (beq_iff_eq.mp h ▸ rfl)
      | int y => exact .number rfl (beq_iff_eq.mp h ▸ rfl)
      | _ => cases h
    | int x =>
      cases b with
      | bool y => exact .number rfl (beq_iff_eq.mp h ▸ rfl)
      | int y => exact .number rfl (beq_iff_eq.mp h ▸ rfl)
      | _ => cases h
  · intro h
    cases h with
    | same => exact a.equal_self
    | number ha hb => exact equal_of_numbers ha hb
    | list h => exact allEqual_iff.mpr h
    | tuple h => exact allEqual_iff.mpr h
    | dict hlength h =>
      rw [equal, allAmong_iff.mpr h, beq_iff_eq.mpr hlength]
      rfl

/-- **Equality of data is transitive.** -/
theorem equal_trans {a b c : Datum} (hab : a.equal b = true) (hbc : b.equal c = true) : a.equal c = true := by
  have hitems {xs ys zs : List Datum}
      (ih : ∀ x ∈ xs, ∀ {y z : Datum}, x.equal y = true → y.equal z = true → x.equal z = true)
      (hxy : List.Forall₂ (fun x y => x.equal y = true) xs ys)
      (hyz : List.Forall₂ (fun x y => x.equal y = true) ys zs) :
      List.Forall₂ (fun x y => x.equal y = true) xs zs := by
    induction hxy generalizing zs with
    | nil => cases hyz; exact .nil
    | cons hxy _ ihs =>
      obtain ⟨hx, hxs⟩ := List.forall_mem_cons.mp ih
      cases hyz with
      | cons hyz hyzs => exact .cons (hx hxy hyz) (ihs hxs hyzs)
  induction a generalizing b c with
  | list xs ih =>
    cases equal_iff.mp hab with
    | same => exact hbc
    | number ha _ => cases ha
    | list hxy =>
      cases equal_iff.mp hbc with
      | same => exact hab
      | number ha _ => cases ha
      | list hyz => exact equal_iff.mpr (.list (hitems ih hxy hyz))
  | tuple xs ih =>
    cases equal_iff.mp hab with
    | same => exact hbc
    | number ha _ => cases ha
    | tuple hxy =>
      cases equal_iff.mp hbc with
      | same => exact hab
      | number ha _ => cases ha
      | tuple hyz => exact equal_iff.mpr (.tuple (hitems ih hxy hyz))
  | dict xs ihk ihv =>
    cases equal_iff.mp hab with
    | same => exact hbc
    | number ha _ => cases ha
    | dict hlength hxy =>
      cases equal_iff.mp hbc with
      | same => exact hab
      | number ha _ => cases ha
      | dict hlength' hyz =>
        refine equal_iff.mpr (.dict (hlength.trans hlength') fun x hx => ?_)
        obtain ⟨y, hy, hkey, hvalue⟩ := hxy x hx
        obtain ⟨z, hz, hkey', hvalue'⟩ := hyz y hy
        exact ⟨z, hz, ihk x hx hkey hkey', ihv x hx hvalue hvalue'⟩
  | _ =>
    cases equal_iff.mp hab with
    | same => exact hbc
    | number ha hb =>
      cases equal_iff.mp hbc with
      | same => exact hab
      | number hb' hc =>
        cases hb.symm.trans hb'
        exact equal_iff.mpr (.number ha hc)
      | _ => cases hb

/-- **Data whose dictionaries have different keys** only. -/
inductive Distinct : Datum → Prop
  | none : Distinct .none
  | bool (b : Bool) : Distinct (.bool b)
  | int (n : Int64) : Distinct (.int n)
  | str (s : List Char) : Distinct (.str s)
  | bytes (b : List UInt8) : Distinct (.bytes b)
  | range (start stop step : Int64) : Distinct (.range start stop step)
  | list {ds : List Datum} (h : ∀ d ∈ ds, Distinct d) : Distinct (.list ds)
  | tuple {ds : List Datum} (h : ∀ d ∈ ds, Distinct d) : Distinct (.tuple ds)
  | dict {ds : List (Datum × Datum)} (hk : ∀ item ∈ ds, Distinct item.1) (hv : ∀ item ∈ ds, Distinct item.2)
      (hd : ds.Pairwise fun a b => a.1.equal b.1 = false) : Distinct (.dict ds)

/-- **Equality of data is symmetric,** if the keys of each dictionary are different. -/
theorem equal_symm {a b : Datum} (ha : a.Distinct) (hab : a.equal b = true) : b.equal a = true := by
  have hitems {xs ys : List Datum} (ih : ∀ x ∈ xs, ∀ {y : Datum}, x.Distinct → x.equal y = true → y.equal x = true)
      (hxs : ∀ x ∈ xs, x.Distinct) (hxy : List.Forall₂ (fun x y => x.equal y = true) xs ys) :
      List.Forall₂ (fun x y => x.equal y = true) ys xs := by
    induction hxy with
    | nil => exact .nil
    | cons hxy _ ihs =>
      obtain ⟨hx, hrest⟩ := List.forall_mem_cons.mp ih
      obtain ⟨hdx, hdxs⟩ := List.forall_mem_cons.mp hxs
      exact .cons (hx hdx hxy) (ihs hrest hdxs)
  induction a generalizing b with
  | list xs ih =>
    cases equal_iff.mp hab with
    | same => exact hab
    | number ha _ => cases ha
    | list hxy =>
      cases ha with
      | list hxs => exact equal_iff.mpr (.list (hitems ih hxs hxy))
  | tuple xs ih =>
    cases equal_iff.mp hab with
    | same => exact hab
    | number ha _ => cases ha
    | tuple hxy =>
      cases ha with
      | tuple hxs => exact equal_iff.mpr (.tuple (hitems ih hxs hxy))
  | dict xs ihk ihv =>
    cases equal_iff.mp hab with
    | same => exact hab
    | number ha _ => cases ha
    | dict hlength hxy =>
      cases ha with
      | dict hk hv hd =>
        refine equal_iff.mpr (.dict hlength.symm fun y hy => ?_)
        have hone : xs.Pairwise fun x x' => ∀ y, EqualEntries x y → ¬ EqualEntries x' y := by
          refine hd.imp_of_mem fun {x x'} _ hx' hne y hxy hxy' => ?_
          have hsame := equal_trans hxy.1 (ihk x' hx' (hk x' hx') hxy'.1)
          exact Bool.false_ne_true (hne.symm.trans hsame)
        obtain ⟨x, hx, hkey, hvalue⟩ := exists_match (Nat.le_of_eq hlength.symm) hxy hone y hy
        exact ⟨x, hx, ihk x hx (hk x hx) hkey, ihv x hx (hv x hx) hvalue⟩
  | _ =>
    cases equal_iff.mp hab with
    | same => exact hab
    | number ha hb => exact equal_iff.mpr (.number hb ha)

end Datum

/-! ## Plain values -/

/-- **A plain value** of a world: built in finitely many steps of nothing, truth values, integers, texts, bytes,
ranges, lists, tuples, and dictionaries with different keys. -/
inductive Plain (w : World) : Value → Prop
  | none : Plain w .none
  | bool (b : Bool) : Plain w (.bool b)
  | int (n : Int64) : Plain w (.int n)
  | str (i : Nat) (s : List Char) : Plain w (.str i s)
  | bytes (b : List UInt8) : Plain w (.bytes b)
  | range (start stop step : Int64) : Plain w (.range start stop step)
  | list {r : Ref} (hr : r < w.lists.size) (h : ∀ v ∈ w.list r, Plain w v) : Plain w (.list r)
  | tuple (i : Nat) {vs : List Value} (h : ∀ v ∈ vs, Plain w v) : Plain w (.tuple i vs)
  | dict {r : Ref} (hr : r < w.dicts.size) (hk : ∀ e ∈ w.dict r, Plain w e.1) (hv : ∀ e ∈ w.dict r, Plain w e.2)
      (hd : (w.dict r).Pairwise fun a b => w.equal? a.1 b.1 = some false) : Plain w (.dict r)

namespace Plain

variable {w : World} {a b c : Value}

theorem holds (h : Plain w a) : ∃ d, Holds w w.places a d ∧ d.Distinct := by
  induction h with
  | none => exact ⟨_, .none, .none⟩
  | bool b => exact ⟨_, .bool b, .bool b⟩
  | int n => exact ⟨_, .int n, .int n⟩
  | str i s => exact ⟨_, .str i s, .str s⟩
  | bytes b => exact ⟨_, .bytes b, .bytes b⟩
  | range start stop step => exact ⟨_, .range start stop step, .range start stop step⟩
  | list hr h ih =>
    obtain ⟨ds, hds, hdistinct⟩ := exists_forall₂ ih
    exact ⟨.list ds, .list (Finset.mem_range.mpr hr) hds, .list hdistinct⟩
  | tuple i h ih =>
    obtain ⟨ds, hds, hdistinct⟩ := exists_forall₂ ih
    exact ⟨.tuple ds, .tuple hds, .tuple hdistinct⟩
  | @dict r hr hk hv hd ihk ihv =>
    have hentries : ∀ e ∈ w.dict r, ∃ item, EntriesHold w e item ∧ item.1.Distinct ∧ item.2.Distinct := by
      intro e he
      obtain ⟨dk, hdk, hkey⟩ := ihk e he
      obtain ⟨dv, hdv, hvalue⟩ := ihv e he
      exact ⟨(dk, dv), ⟨hdk, hdv⟩, hkey, hvalue⟩
    obtain ⟨items, hitems, hdistinct⟩ := exists_forall₂ hentries
    refine ⟨.dict items, .dict (Finset.mem_range.mpr hr) ?_ ?_, .dict ?_ ?_ (keys_differ hitems hd)⟩
    · rw [List.forall₂_map_left_iff, List.forall₂_map_right_iff]
      exact hitems.imp fun _ _ h => h.1
    · rw [List.forall₂_map_left_iff, List.forall₂_map_right_iff]
      exact hitems.imp fun _ _ h => h.2
    · exact fun item hi => (hdistinct item hi).1
    · exact fun item hi => (hdistinct item hi).2

theorem floatFree (h : Plain w a) : w.FloatFree a := by
  induction h with
  | list hr h ih => exact .of_pieces rfl fun u hu => by cases hu with | item hu => exact ih u hu
  | tuple i h ih => exact .of_pieces rfl fun u hu => by cases hu with | member hu => exact ih u hu
  | dict hr hk hv hd ihk ihv =>
    refine .of_pieces rfl fun u hu => ?_
    cases hu with
    | key he => exact ihk _ he
    | value he => exact ihv _ he
  | _ => exact .of_pieces rfl fun u hu => nomatch hu

theorem exists_equalValue (ha : Plain w a) (hb : Plain w b) : ∃ e, w.equal? a b = some e := by
  obtain ⟨d, hd, -⟩ := ha.holds
  obtain ⟨d', hd', -⟩ := hb.holds
  exact ⟨_, hd.equalValue_eq hd'⟩

theorem equal_self (ha : Plain w a) : w.Equal a a := by
  obtain ⟨d, hd, -⟩ := ha.holds
  exact (hd.equalValue_eq hd).trans (congrArg some d.equal_self)

theorem equal_symm (ha : Plain w a) (hb : Plain w b) (h : w.Equal a b) : w.Equal b a := by
  obtain ⟨d, hd, hdistinct⟩ := ha.holds
  obtain ⟨d', hd', -⟩ := hb.holds
  have heq := Option.some.inj ((hd.equalValue_eq hd').symm.trans h)
  exact (hd'.equalValue_eq hd).trans (congrArg some (Datum.equal_symm hdistinct heq))

theorem equal_trans (ha : Plain w a) (hb : Plain w b) (hc : Plain w c) (hab : w.Equal a b) (hbc : w.Equal b c) :
    w.Equal a c := by
  obtain ⟨d, hd, -⟩ := ha.holds
  obtain ⟨d', hd', -⟩ := hb.holds
  obtain ⟨d'', hd'', -⟩ := hc.holds
  have heq := Option.some.inj ((hd.equalValue_eq hd').symm.trans hab)
  have heq' := Option.some.inj ((hd'.equalValue_eq hd'').symm.trans hbc)
  exact (hd.equalValue_eq hd'').trans (congrArg some (Datum.equal_trans heq heq'))

theorem unequal_iff (ha : Plain w a) (hb : Plain w b) : w.Unequal a b ↔ ¬ w.Equal a b := by
  obtain ⟨e, he⟩ := ha.exists_equalValue hb
  unfold World.Unequal World.Equal
  rw [he]
  cases e <;> simp

theorem items {r : Ref} (h : Plain w (.list r)) : ∀ x ∈ w.list r, Plain w x := by
  cases h with
  | list hr h => exact h

theorem members {i : Nat} {xs : List Value} (h : Plain w (.tuple i xs)) : ∀ x ∈ xs, Plain w x := by
  cases h with
  | tuple i h => exact h

end Plain

/-! ## Order of plain values -/

namespace ListOrder

variable {α : Type} {E N : α → α → Prop} {R : α → α → Ordering → Prop} {xs ys zs : List α} {o : Ordering}

/-- A list takes the place of one with the same items. -/
theorem congr_right (h : ListOrder E N R xs ys o) (hE : List.Forall₂ E ys zs)
    (htrans : ∀ {x y z}, E x y → E y z → E x z) (hN : ∀ {x y z}, N x y → E y z → N x z)
    (hR : ∀ {x y z o}, R x y o → E y z → R x z o) : ListOrder E N R xs zs o := by
  induction h generalizing zs with
  | @ends xs ys h =>
    rw [hE.length_eq]
    refine .ends (h.imp id ?_)
    rintro rfl
    cases hE
    rfl
  | same hxy _ ih =>
    cases hE with
    | cons hyz hE => exact .same (htrans hxy hyz) (ih hE)
  | differ hxy h =>
    cases hE with
    | cons hyz _ => exact .differ (hN hxy hyz) (hR h hyz)

/-- **What a list that is less comes before:** a longer one, or one with a greater item. -/
theorem less_cases (h : ListOrder E N R xs ys .lt) :
    ∃ y ys', ys = y :: ys' ∧ (xs = [] ∨ ∃ x xs', xs = x :: xs' ∧
      (E x y ∧ ListOrder E N R xs' ys' .lt ∨ N x y ∧ R x y .lt)) := by
  generalize ho : Ordering.lt = o at h
  cases h with
  | ends h =>
    have hless : xs.length < ys.length := compare_lt_iff_lt.mp ho.symm
    cases ys with
    | nil => exact absurd hless (Nat.not_lt_zero _)
    | cons y ys => exact ⟨y, ys, rfl, .inl (h.resolve_right nofun)⟩
  | same hxy h => exact ⟨_, _, rfl, .inr ⟨_, _, rfl, .inl ⟨hxy, h⟩⟩⟩
  | differ hxy h => exact ⟨_, _, rfl, .inr ⟨_, _, rfl, .inr ⟨hxy, h⟩⟩⟩

/-- Less than less is less, if it is for the items. -/
theorem trans_less (hxy : ListOrder E N R xs ys .lt) (hyz : ListOrder E N R ys zs .lt)
    (htrans : ∀ {x y z}, E x y → E y z → E x z)
    (hleft : ∀ {x y z}, E x y → N y z → R y z .lt → N x z ∧ R x z .lt)
    (hright : ∀ {x y z}, N x y → R x y .lt → E y z → N x z ∧ R x z .lt)
    (hboth : ∀ {x y z}, N x y → R x y .lt → N y z → R y z .lt → N x z ∧ R x z .lt) :
    ListOrder E N R xs zs .lt := by
  induction xs generalizing ys zs with
  | nil =>
    obtain ⟨z, zs, rfl, -⟩ := hyz.less_cases
    exact .ends (.inl rfl)
  | cons x xs ih =>
    obtain ⟨y, ys, rfl, hempty | ⟨_, _, ⟨⟩, hfirst⟩⟩ := hxy.less_cases
    · cases hempty
    obtain ⟨z, zs, rfl, hempty | ⟨_, _, ⟨⟩, hsecond⟩⟩ := hyz.less_cases
    · cases hempty
    rcases hfirst with ⟨hxy, hrest⟩ | ⟨hxy, hless⟩
    · rcases hsecond with ⟨hyz, hrest'⟩ | ⟨hyz, hless'⟩
      · exact .same (htrans hxy hyz) (ih hrest hrest')
      · exact .differ (hleft hxy hyz hless').1 (hleft hxy hyz hless').2
    · rcases hsecond with ⟨hyz, -⟩ | ⟨hyz, hless'⟩
      · exact .differ (hright hxy hless hyz).1 (hright hxy hless hyz).2
      · exact .differ (hboth hxy hless hyz hless').1 (hboth hxy hless hyz hless').2

end ListOrder

namespace World

variable {w : World} {L : List Value → List Value → Ordering → Prop} {n : Nat} {a b c : Value} {o : Ordering}

/-- **Plain values that are equal.** -/
structure PlainEqual (w : World) (a b : Value) : Prop where
  /-- The first one is plain. -/
  left : Plain w a
  /-- The second one is plain. -/
  right : Plain w b
  /-- The first one equals the second one. -/
  equal : w.Equal a b

/-- **Plain values that are not equal.** -/
structure PlainUnequal (w : World) (a b : Value) : Prop where
  /-- The first one is plain. -/
  left : Plain w a
  /-- The second one is plain. -/
  right : Plain w b
  /-- The first one does not equal the second one. -/
  unequal : w.Unequal a b

theorem PlainEqual.symm (h : w.PlainEqual a b) : w.PlainEqual b a :=
  ⟨h.right, h.left, h.left.equal_symm h.right h.equal⟩

theorem PlainEqual.trans (hab : w.PlainEqual a b) (hbc : w.PlainEqual b c) : w.PlainEqual a c :=
  ⟨hab.left, hbc.right, hab.left.equal_trans hab.right hbc.right hab.equal hbc.equal⟩

theorem PlainUnequal.of_not (ha : Plain w a) (hb : Plain w b) (h : ¬ w.PlainEqual a b) : w.PlainUnequal a b :=
  ⟨ha, hb, (ha.unequal_iff hb).mpr fun he => h ⟨ha, hb, he⟩⟩

theorem PlainUnequal.not_equal (h : w.PlainUnequal a b) : ¬ w.PlainEqual a b :=
  fun ha => h.unequal.not_equal ha.equal

theorem PlainUnequal.symm (h : w.PlainUnequal a b) : w.PlainUnequal b a :=
  .of_not h.right h.left fun ha => h.not_equal ha.symm

theorem PlainUnequal.trans_equal (hab : w.PlainUnequal a b) (hbc : w.PlainEqual b c) : w.PlainUnequal a c :=
  .of_not hab.left hbc.right fun hac => hab.not_equal (hac.trans hbc.symm)

/-- **The order of plain values** is found among plain values. -/
theorem Ranks.plain (h : w.Ranks w.Equal w.Unequal n a b o) (ha : Plain w a) (hb : Plain w b) :
    w.Ranks w.PlainEqual w.PlainUnequal n a b o := by
  induction n generalizing a b o with
  | zero => exact h.elim
  | succ n ih =>
    have hitems {xs ys : List Value} {o : Ordering}
        (h : ListOrder w.Equal w.Unequal (w.Ranks w.Equal w.Unequal n) xs ys o) (hxs : ∀ x ∈ xs, Plain w x)
        (hys : ∀ y ∈ ys, Plain w y) :
        ListOrder w.PlainEqual w.PlainUnequal (w.Ranks w.PlainEqual w.PlainUnequal n) xs ys o :=
      h.imp_of_mem (fun x hx y hy h => ⟨hxs x hx, hys y hy, h⟩) (fun x hx y hy h => ⟨hxs x hx, hys y hy, h⟩)
        fun x hx y hy o h => ih h (hxs x hx) (hys y hy)
    cases h with
    | text i j s t => exact .text i j s t
    | bytes s t => exact .bytes s t
    | number hx hy => exact .number hx hy
    | list h => exact .list (hitems h ha.items hb.items)
    | tuple h => exact .tuple (hitems h ha.members hb.members)

theorem Ranks.of_plain (h : w.Ranks w.PlainEqual w.PlainUnequal n a b o) : w.Ranks w.Equal w.Unequal n a b o :=
  h.imp PlainEqual.equal PlainUnequal.unequal

/-- **A plain value takes the place of an equal one** on the right. -/
theorem Ranks.congr_right (h : w.Ranks w.PlainEqual w.PlainUnequal n a b o) (hbc : w.PlainEqual b c) :
    w.Ranks w.PlainEqual w.PlainUnequal n a c o := by
  have hitems {xs ys : List Value} (hxy : List.Forall₂ w.Equal xs ys) (hxs : ∀ x ∈ xs, Plain w x)
      (hys : ∀ y ∈ ys, Plain w y) : List.Forall₂ w.PlainEqual xs ys := by
    have hleft := (List.forall₂_and_left _ _).mpr ⟨hxs, hxy⟩
    have hright := List.Forall₂.flip ((List.forall₂_and_left _ _).mpr ⟨hys, hxy.flip⟩)
    exact hleft.mp (fun _ _ h h' => ⟨h.1, h'.1, h.2⟩) hright
  induction n generalizing a b c o with
  | zero => exact h.elim
  | succ n ih =>
    have hstep := hbc.equal.step hbc.left.floatFree.isDouble hbc.right.floatFree.isDouble
    cases h with
    | text i j s t =>
      cases hstep with
      | text => exact .text i _ s t
      | number hb _ => cases hb
      | other hno => cases hno
    | bytes s t =>
      cases hstep with
      | bytes => exact .bytes s t
      | number hb _ => cases hb
      | other hno => cases hno
    | number hx hy =>
      cases hstep with
      | number hy' hz =>
        cases hy.symm.trans hy'
        exact .number hx hz
      | other hno => exact absurd (Value.isSortable_of_asInt? hy) (by rw [hno]; exact Bool.false_ne_true)
      | _ => cases hy
    | list h =>
      cases hstep with
      | same => exact .list h
      | list hE =>
        have hE := hitems hE hbc.left.items hbc.right.items
        exact .list (h.congr_right hE PlainEqual.trans PlainUnequal.trans_equal ih)
      | number hb _ => cases hb
      | other hno => cases hno
    | tuple h =>
      cases hstep with
      | tuple hE =>
        have hE := hitems hE hbc.left.members hbc.right.members
        exact .tuple (h.congr_right hE PlainEqual.trans PlainUnequal.trans_equal ih)
      | number hb _ => cases hb
      | other hno => cases hno

theorem compareLists_trans {α : Type} {cmp : α → α → Ordering} [Std.TransCmp cmp] {xs ys zs : List α}
    (hxy : compareLists cmp xs ys = .lt) (hyz : compareLists cmp ys zs = .lt) : compareLists cmp xs zs = .lt := by
  rw [compareLists_eq] at hxy hyz ⊢
  exact Std.TransCmp.lt_trans hxy hyz

/-- Less than less is less, if it is for lists of items. -/
theorem OrderStep.trans_less (hab : w.OrderStep L a b .lt) (hbc : w.OrderStep L b c .lt)
    (hL : ∀ {xs ys zs}, L xs ys .lt → L ys zs .lt → L xs zs .lt) : w.OrderStep L a c .lt := by
  obtain ⟨o, hless, hab⟩ : ∃ o, o = .lt ∧ w.OrderStep L a b o := ⟨_, rfl, hab⟩
  obtain ⟨o', hless', hbc⟩ : ∃ o, o = .lt ∧ w.OrderStep L b c o := ⟨_, rfl, hbc⟩
  cases hab with
  | @number _ _ x y ha hb =>
    obtain ⟨z, hz, rfl⟩ := hbc.of_number hb
    exact Std.TransCmp.lt_trans hless hless' ▸ .number ha hz
  | text i j s t =>
    cases hbc with
    | number hb _ => cases hb
    | text _ k _ u => exact compareLists_trans hless hless' ▸ .text i k s u
  | bytes s t =>
    cases hbc with
    | number hb _ => cases hb
    | bytes _ u => exact compareLists_trans hless hless' ▸ .bytes s u
  | list hxy =>
    cases hbc with
    | number hb _ => cases hb
    | list hyz =>
      subst hless hless'
      exact .list (hL hxy hyz)
  | tuple hxy =>
    cases hbc with
    | number hb _ => cases hb
    | tuple hyz =>
      subst hless hless'
      exact .tuple (hL hxy hyz)

/-- **Less than less is less** for plain values. -/
theorem Ranks.trans_less (hab : w.Ranks w.PlainEqual w.PlainUnequal n a b .lt)
    (hbc : w.Ranks w.PlainEqual w.PlainUnequal n b c .lt) : w.Ranks w.PlainEqual w.PlainUnequal n a c .lt := by
  induction n generalizing a b c with
  | zero => exact hab.elim
  | succ n ih =>
    have hdiffer {x z : Value} (hx : Plain w x) (hz : Plain w z)
        (h : w.Ranks w.PlainEqual w.PlainUnequal n x z .lt) :
        w.PlainUnequal x z ∧ w.Ranks w.PlainEqual w.PlainUnequal n x z .lt := by
      refine ⟨.of_not hx hz fun hE => ?_, h⟩
      cases h.of_plain.eq_iff.mpr hE.equal
    refine OrderStep.trans_less hab hbc fun hxy hyz => hxy.trans_less hyz PlainEqual.trans ?_ ?_ ?_
    · intro x y z hxy hyz h
      have hswap := (h.swap PlainEqual.symm PlainUnequal.symm).congr_right hxy.symm
      exact hdiffer hxy.left hyz.right (hswap.swap PlainEqual.symm PlainUnequal.symm)
    · exact fun hxy h hyz => hdiffer hxy.left hyz.right (h.congr_right hyz)
    · exact fun hxy h hyz h' => hdiffer hxy.left hyz.right (ih h h')

/-- **Equality and order are coherent** on three values: the ways in which they are equal and in which ordering
them succeeds fit together. -/
structure Coherent (w : World) (a b c : Value) : Prop where
  /-- Whether two values are equal is found, without a change. -/
  answers : ∃ e, equal a b w = .ok (e, w)
  /-- A value equals itself. -/
  refl : equal a a w = .ok (true, w)
  /-- Equality holds the other way round as well. -/
  symm : equal a b w = .ok (true, w) → equal b a w = .ok (true, w)
  /-- What equals an equal one is equal. -/
  trans : equal a b w = .ok (true, w) → equal b c w = .ok (true, w) → equal a c w = .ok (true, w)
  /-- Where ordering two values succeeds, it changes nothing, and they are ordered as equal iff they are equal. -/
  eq_iff : ∀ symbol o w', order symbol a b w = .ok (o, w') → w' = w ∧ (o = .eq ↔ equal a b w = .ok (true, w))
  /-- Ordering two values succeeds iff it does the other way round, with the opposite order. -/
  swap : ∀ symbol symbol' o, order symbol a b w = .ok (o, w) ↔ order symbol' b a w = .ok (o.swap, w)
  /-- What is less than a lesser one is less. -/
  trans_less : ∀ symbol, order symbol a b w = .ok (.lt, w) → order symbol b c w = .ok (.lt, w) →
    order symbol a c w = .ok (.lt, w)

/-- **Equality and order of plain values are coherent.** -/
theorem coherent_of_plain (w : World) (a b c : Value) (ha : Plain w a) (hb : Plain w b) (hc : Plain w c) :
    w.Coherent a b c := by
  have horder {symbol : String} {x y : Value} {o : Ordering} (hx : Plain w x) (hy : Plain w y) :
      order symbol x y w = .ok (o, w) ↔ ∃ n, w.Ranks w.PlainEqual w.PlainUnequal n x y o := by
    rw [order_iff hx.floatFree hy.floatFree]
    exact ⟨fun ⟨_, n, h⟩ => ⟨n, h.plain hx hy⟩, fun ⟨n, h⟩ => ⟨rfl, n, h.of_plain⟩⟩
  refine ⟨?_, ?_, ?_, ?_, ?_, ?_, ?_⟩
  · obtain ⟨e, he⟩ := ha.exists_equalValue hb
    exact ⟨e, equal_eq_ok.mpr ⟨he, rfl⟩⟩
  · exact equal_eq_ok_true.mpr ha.equal_self
  · exact fun h => equal_eq_ok_true.mpr (ha.equal_symm hb (equal_eq_ok_true.mp h))
  · intro h h'
    exact equal_eq_ok_true.mpr (ha.equal_trans hb hc (equal_eq_ok_true.mp h) (equal_eq_ok_true.mp h'))
  · intro symbol o w' h
    obtain ⟨hw, n, h⟩ := (order_iff ha.floatFree hb.floatFree).mp h
    exact ⟨hw, h.eq_iff.trans equal_eq_ok_true.symm⟩
  · intro symbol symbol' o
    rw [horder ha hb, horder hb ha]
    constructor
    · rintro ⟨n, h⟩
      exact ⟨n, h.swap PlainEqual.symm PlainUnequal.symm⟩
    · rintro ⟨n, h⟩
      have hswap := h.swap PlainEqual.symm PlainUnequal.symm
      rw [Ordering.swap_swap] at hswap
      exact ⟨n, hswap⟩
  · intro symbol h h'
    obtain ⟨m, h⟩ := (horder ha hb).mp h
    obtain ⟨n, h'⟩ := (horder hb hc).mp h'
    exact (horder ha hc).mpr
      ⟨max m n, (h.mono (Nat.le_max_left m n)).trans_less (h'.mono (Nat.le_max_right m n))⟩

/-- Tuples of dictionaries that have the same entries in another order. -/
theorem coherent_of_plain_nested :
    let w : World := { World.empty with
      lists := #[[.int 2], [.int 2]]
      dicts := #[[(.str 0 ['x'], .int 1), (.str 1 ['y'], .list 0)],
        [(.str 2 ['y'], .list 1), (.str 3 ['x'], .bool true)]] }
    let a := Value.tuple 0 [.dict 0, .int 1]
    let b := Value.tuple 1 [.dict 1, .int 2]
    let c := Value.tuple 2 [.dict 0, .int 3]
    Plain w a ∧ Plain w b ∧ Plain w c ∧ w.Coherent a b c := by
  intro w a b c
  have hfirst : Plain w (.dict 0) := by
    refine .dict (by decide) ?_ ?_ ?_
    · exact List.forall_mem_cons.mpr ⟨.str 0 ['x'], List.forall_mem_singleton.mpr (.str 1 ['y'])⟩
    · have hlist : Plain w (.list 0) := .list (by decide) (List.forall_mem_singleton.mpr (.int 2))
      exact List.forall_mem_cons.mpr ⟨.int 1, List.forall_mem_singleton.mpr hlist⟩
    · have hkeys : w.equal? (.str 0 ['x']) (.str 1 ['y']) = some false := equalValue_str ..
      exact .cons (List.forall_mem_singleton.mpr hkeys) (List.pairwise_singleton _ _)
  have hsecond : Plain w (.dict 1) := by
    refine .dict (by decide) ?_ ?_ ?_
    · exact List.forall_mem_cons.mpr ⟨.str 2 ['y'], List.forall_mem_singleton.mpr (.str 3 ['x'])⟩
    · have hlist : Plain w (.list 1) := .list (by decide) (List.forall_mem_singleton.mpr (.int 2))
      exact List.forall_mem_cons.mpr ⟨hlist, List.forall_mem_singleton.mpr (.bool true)⟩
    · have hkeys : w.equal? (.str 2 ['y']) (.str 3 ['x']) = some false := equalValue_str ..
      exact .cons (List.forall_mem_singleton.mpr hkeys) (List.pairwise_singleton _ _)
  have hpair {i : Nat} {v : Value} (hv : Plain w v) (n : Int64) : Plain w (.tuple i [v, .int n]) :=
    .tuple i (List.forall_mem_cons.mpr ⟨hv, List.forall_mem_singleton.mpr (.int n)⟩)
  exact ⟨hpair hfirst 1, hpair hsecond 2, hpair hfirst 3,
    coherent_of_plain w a b c (hpair hfirst 1) (hpair hsecond 2) (hpair hfirst 3)⟩

end World

end Transcript.Lang
