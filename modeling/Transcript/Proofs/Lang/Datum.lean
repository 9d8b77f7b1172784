import Transcript.Lang.Operation
import Transcript.Lang.Show
import Transcript.Proofs.Both
import Mathlib.Algebra.BigOperators.Group.Finset.Basic
import Mathlib.Data.Finset.Lattice.Basic

/-!
# Data

A value that is nothing but data is a finite tree: truth values, integers, texts, bytes, ranges, and
lists, tuples and dictionaries of such. Its form and its equality with another one depend on the tree only.

A value holds a datum in a world if its lists and dictionaries do. The form that shows the value and its
equality with another one are those of the datum. The depth that is enough to show or compare any value of
a world is enough for the datum, because no list and no dictionary lies inside itself.

Results:
* `Datum.induct`: what a datum is made of comes first.
* `Datum.equal_self`: a datum equals itself.
* `Holds.unique`: a value holds one datum.
* `Holds.depth_le`: how deep a datum is nested in a world.
* `Holds.showValue_eq`: the form of a value is the text of the datum it holds.
* `Holds.equalValue_eq`: values are equal iff the data they hold are.
-/

namespace Transcript.Lang

/-- **A datum:** a value as a finite tree. -/
inductive Datum
  | none
  | bool (b : Bool)
  | int (n : Int64)
  | str (s : List Char)
  | bytes (b : List UInt8)
  | range (start stop step : Int64)
  | list (items : List Datum)
  | tuple (items : List Datum)
  | dict (items : List (Datum × Datum))

namespace Datum

/-- **Induction on a datum:** what it is made of has the property already. -/
@[elab_as_elim, induction_eliminator]
theorem induct {P : Datum → Prop} (none : P .none) (bool : ∀ b, P (.bool b)) (int : ∀ n, P (.int n))
    (str : ∀ s, P (.str s)) (bytes : ∀ b, P (.bytes b)) (range : ∀ a b c, P (.range a b c))
    (list : ∀ items, (∀ d ∈ items, P d) → P (.list items))
    (tuple : ∀ items, (∀ d ∈ items, P d) → P (.tuple items))
    (dict : ∀ items, (∀ item ∈ items, P item.1) → (∀ item ∈ items, P item.2) → P (.dict items))
    (d : Datum) : P d :=
  @Datum.rec P (fun items => ∀ d ∈ items, P d)
    (fun items => (∀ item ∈ items, P item.1) ∧ ∀ item ∈ items, P item.2) (fun item => P item.1 ∧ P item.2)
    none bool int str bytes range list tuple (fun items h => dict items h.1 h.2)
    nofun (fun _ _ hd hds => List.forall_mem_cons.mpr ⟨hd, hds⟩)
    ⟨nofun, nofun⟩
    (fun _ _ h hs => ⟨List.forall_mem_cons.mpr ⟨h.1, hs.1⟩, List.forall_mem_cons.mpr ⟨h.2, hs.2⟩⟩)
    (fun _ _ hk hv => ⟨hk, hv⟩) d

mutual

/-- **The text of a datum.** -/
def text : Datum → List Char
  | .none => "None".toList
  | .bool true => "True".toList
  | .bool false => "False".toList
  | .int n => showInt n.toInt
  | .str s => showText s
  | .bytes b => showBytes b
  | .range start stop step =>
    "range(".toList ++ commas (if step = 1 then [showInt start.toInt, showInt stop.toInt]
      else [showInt start.toInt, showInt stop.toInt] ++ [showInt step.toInt]) ++ [')']
  | .list items => '[' :: (commas (texts items) ++ [']'])
  | .tuple items => showTuple (texts items)
  | .dict items => '\x7b' :: (commas (pairTexts items) ++ ['\x7d'])

/-- The texts of data. -/
def texts : List Datum → List (List Char)
  | [] => []
  | d :: ds => d.text :: texts ds

/-- The texts of the entries of a dictionary. -/
def pairTexts : List (Datum × Datum) → List (List Char)
  | [] => []
  | (k, v) :: items => (k.text ++ [':', ' '] ++ v.text) :: pairTexts items

end

theorem texts_eq_map (ds : List Datum) : texts ds = ds.map text := by
  induction ds with
  | nil => rfl
  | cons d ds ih => exact congrArg (_ :: ·) ih

theorem pairTexts_eq_map (items : List (Datum × Datum)) :
    pairTexts items = items.map fun item => item.1.text ++ [':', ' '] ++ item.2.text := by
  induction items with
  | nil => rfl
  | cons item items ih => exact congrArg (_ :: ·) ih

mutual

/-- How deep a datum is nested. -/
def depth : Datum → Nat
  | .list items | .tuple items => depths items + 1
  | .dict items => pairDepths items + 1
  | _ => 1

/-- How deep data are nested in a list. -/
def depths : List Datum → Nat
  | [] => 0
  | d :: ds => max d.depth (depths ds)

/-- How deep data are nested in the entries of a dictionary. -/
def pairDepths : List (Datum × Datum) → Nat
  | [] => 0
  | (k, v) :: items => max (max k.depth v.depth) (pairDepths items)

end

theorem depths_le_iff {ds : List Datum} {n : Nat} : depths ds ≤ n ↔ ∀ d ∈ ds, d.depth ≤ n := by
  induction ds with
  | nil => simp [depths]
  | cons d ds ih => rw [depths, Nat.max_le, ih, List.forall_mem_cons]

theorem pairDepths_le_iff {items : List (Datum × Datum)} {n : Nat} :
    pairDepths items ≤ n ↔ ∀ item ∈ items, item.1.depth ≤ n ∧ item.2.depth ≤ n := by
  induction items with
  | nil => simp [pairDepths]
  | cons item items ih => rw [pairDepths, Nat.max_le, Nat.max_le, ih, List.forall_mem_cons]

/-- A fuel that is enough for a datum is not spent. -/
theorem exists_succ {d : Datum} {fuel : Nat} (h : d.depth ≤ fuel) : ∃ f, fuel = f + 1 := by
  have hpos : 0 < d.depth := by cases d <;> exact Nat.zero_lt_succ _
  exact Nat.exists_eq_add_of_le' (Nat.lt_of_lt_of_le hpos h)

/-- The integer that a datum counts as. -/
def asInt? : Datum → Option Int64
  | .bool b => some (if b then 1 else 0)
  | .int n => some n
  | _ => Option.none

mutual

/-- **Equality of data.** Entries of a dictionary may stand in any order. -/
def equal : Datum → Datum → Bool
  | .none, .none => true
  | .str s, .str t => s == t
  | .bytes s, .bytes t => s == t
  | .list xs, .list ys => allEqual xs ys
  | .tuple xs, .tuple ys => allEqual xs ys
  | .dict xs, .dict ys => xs.length == ys.length && allAmong xs ys
  | .range a₁ a₂ a₃, .range b₁ b₂ b₃ => a₁ == b₁ && a₂ == b₂ && a₃ == b₃
  | a, b =>
    match a.asInt?, b.asInt? with
    | some x, some y => x == y
    | _, _ => false

/-- Equality of lists of data. -/
def allEqual : List Datum → List Datum → Bool
  | [], [] => true
  | a :: as, b :: bs => a.equal b && allEqual as bs
  | _, _ => false

/-- Whether entries are among those of another dictionary. -/
def allAmong : List (Datum × Datum) → List (Datum × Datum) → Bool
  | [], _ => true
  | (k, v) :: xs, ys => ys.any (fun item => k.equal item.1 && v.equal item.2) && allAmong xs ys

end

theorem allEqual_self {ds : List Datum} (h : ∀ d ∈ ds, d.equal d = true) : allEqual ds ds = true := by
  induction ds with
  | nil => rfl
  | cons d ds ih =>
    obtain ⟨hd, hds⟩ := List.forall_mem_cons.mp h
    rw [allEqual, hd, ih hds]
    rfl

theorem allEqual_of_length_ne {ds ds' : List Datum} (h : ds.length ≠ ds'.length) :
    allEqual ds ds' = false := by
  induction ds generalizing ds' with
  | nil =>
    cases ds' with
    | nil => exact absurd rfl h
    | cons d' ds' => rfl
  | cons d ds ih =>
    cases ds' with
    | nil => rfl
    | cons d' ds' =>
      rw [allEqual, ih fun heq => h (congrArg Nat.succ heq), Bool.and_false]

theorem allAmong_of_subset {xs ys : List (Datum × Datum)} (hk : ∀ item ∈ xs, item.1.equal item.1 = true)
    (hv : ∀ item ∈ xs, item.2.equal item.2 = true) (hsub : xs ⊆ ys) : allAmong xs ys = true := by
  induction xs with
  | nil => rfl
  | cons item xs ih =>
    obtain ⟨hkey, hkeys⟩ := List.forall_mem_cons.mp hk
    obtain ⟨hvalue, hvalues⟩ := List.forall_mem_cons.mp hv
    obtain ⟨hmem, hmems⟩ := List.cons_subset.mp hsub
    have hany : ys.any (fun other => item.1.equal other.1 && item.2.equal other.2) = true :=
      List.any_eq_true.mpr ⟨item, hmem, by rw [hkey, hvalue]; rfl⟩
    rw [allAmong, hany, ih hkeys hvalues hmems]
    rfl

/-- **A datum equals itself.** -/
theorem equal_self (d : Datum) : d.equal d = true := by
  induction d with
  | none => rfl
  | bool b => simp [equal, asInt?]
  | int n => simp [equal, asInt?]
  | str s => simp [equal]
  | bytes b => simp [equal]
  | range a b c => simp [equal]
  | list items ih => exact allEqual_self ih
  | tuple items ih => exact allEqual_self ih
  | dict items ihk ihv =>
    rw [equal, allAmong_of_subset ihk ihv (List.Subset.refl items)]
    simp

end Datum

/-! ## Values that hold data -/

/-- Some lists and dictionaries of a world. -/
structure Places where
  /-- The lists. -/
  lists : Finset Ref
  /-- The dictionaries. -/
  dicts : Finset Ref

/-- All lists and dictionaries of a world. -/
def World.places (w : World) : Places := ⟨Finset.range w.lists.size, Finset.range w.dicts.size⟩

/-- **A value holds a datum** in a world, with nothing inside but lists and dictionaries at some places. -/
inductive Holds (w : World) (p : Places) : Value → Datum → Prop
  | none : Holds w p .none .none
  | bool (b : Bool) : Holds w p (.bool b) (.bool b)
  | int (n : Int64) : Holds w p (.int n) (.int n)
  | str (i : Nat) (s : List Char) : Holds w p (.str i s) (.str s)
  | bytes (b : List UInt8) : Holds w p (.bytes b) (.bytes b)
  | range (start stop step : Int64) : Holds w p (.range start stop step) (.range start stop step)
  | list {r : Ref} {ds : List Datum} (hr : r ∈ p.lists) (h : List.Forall₂ (Holds w p) (w.list r) ds) :
      Holds w p (.list r) (.list ds)
  | tuple {i : Nat} {vs : List Value} {ds : List Datum} (h : List.Forall₂ (Holds w p) vs ds) :
      Holds w p (.tuple i vs) (.tuple ds)
  | dict {r : Ref} {ds : List (Datum × Datum)} (hr : r ∈ p.dicts)
      (hk : List.Forall₂ (Holds w p) ((w.dict r).map Prod.fst) (ds.map Prod.fst))
      (hv : List.Forall₂ (Holds w p) ((w.dict r).map Prod.snd) (ds.map Prod.snd)) :
      Holds w p (.dict r) (.dict ds)

namespace Holds

variable {w w' : World} {p q : Places} {u v : Value} {d d' : Datum}

/-- **A value holds one datum.** -/
theorem unique (h : Holds w p v d) (h' : Holds w q v d') : d = d' := by
  induction d generalizing v d' with
  | none => cases h; cases h'; rfl
  | bool b => cases h; cases h'; rfl
  | int n => cases h; cases h'; rfl
  | str s => cases h; cases h'; rfl
  | bytes b => cases h; cases h'; rfl
  | range a b c => cases h; cases h'; rfl
  | list ds ih =>
    cases h with
    | list hr h =>
      cases h' with
      | list hr' h' => rw [forall₂_unique h h' fun d hd x d' => ih d hd]
  | tuple ds ih =>
    cases h with
    | tuple h =>
      cases h' with
      | tuple h' => rw [forall₂_unique h h' fun d hd x d' => ih d hd]
  | dict ds ihk ihv =>
    cases h with
    | dict hr hk hv =>
      cases h' with
      | dict hr' hk' hv' =>
        have hkeys := forall₂_unique hk hk' (List.forall_mem_map.mpr fun item hi x d' => ihk item hi)
        have hvalues := forall₂_unique hv hv' (List.forall_mem_map.mpr fun item hi x d' => ihv item hi)
        exact congrArg Datum.dict
          ((List.zip_of_prod hkeys hvalues).trans (List.zip_of_prod rfl rfl).symm)

/-- What a world keeps, and where. -/
theorem mono (h : Holds w p v d) (hlist : ∀ r ∈ p.lists, r ∈ q.lists ∧ w'.list r = w.list r)
    (hdict : ∀ r ∈ p.dicts, r ∈ q.dicts ∧ w'.dict r = w.dict r) : Holds w' q v d := by
  induction d generalizing v with
  | none => cases h; exact .none
  | bool b => cases h; exact .bool b
  | int n => cases h; exact .int n
  | str s => cases h; exact .str _ s
  | bytes b => cases h; exact .bytes b
  | range a b c => cases h; exact .range a b c
  | list ds ih =>
    cases h with
    | list hr h =>
      refine .list (hlist _ hr).1 ?_
      rw [(hlist _ hr).2]
      exact forall₂_of_mem h fun d hd x hx => ih d hd hx
  | tuple ds ih =>
    cases h with
    | tuple h => exact .tuple (forall₂_of_mem h fun d hd x hx => ih d hd hx)
  | dict ds ihk ihv =>
    cases h with
    | dict hr hk hv =>
      refine .dict (hdict _ hr).1 ?_ ?_
      · rw [(hdict _ hr).2]
        exact forall₂_of_mem hk (List.forall_mem_map.mpr fun item hi x hx => ihk item hi hx)
      · rw [(hdict _ hr).2]
        exact forall₂_of_mem hv (List.forall_mem_map.mpr fun item hi x hx => ihv item hi hx)

end Holds

/-! ## How deep data are nested -/

/-- Places without that of a value. -/
def Places.without (p : Places) : Value → Places
  | .list r => ⟨p.lists.erase r, p.dicts⟩
  | .dict r => ⟨p.lists, p.dicts.erase r⟩
  | _ => p

namespace Holds

variable {w : World} {p q : Places} {u v : Value} {d d' : Datum}

/-- **Nothing lies inside itself:** a datum that is nested less deeply than that of a value does without
the place of the value. -/
theorem without (h : Holds w p v d) (hu : Holds w q u d') (hlt : d.depth < d'.depth) :
    Holds w (p.without u) v d := by
  induction d generalizing v with
  | none => cases h; exact .none
  | bool b => cases h; exact .bool b
  | int n => cases h; exact .int n
  | str s => cases h; exact .str _ s
  | bytes b => cases h; exact .bytes b
  | range a b c => cases h; exact .range a b c
  | list ds ih =>
    have hitems : ∀ d ∈ ds, d.depth < d'.depth := fun d hd =>
      Nat.lt_trans (Nat.lt_succ_of_le (Datum.depths_le_iff.mp (Nat.le_refl _) d hd)) hlt
    cases h with
    | @list r _ hr h =>
      refine .list ?_ (forall₂_of_mem h fun d hd x hx => ih d hd hx (hitems d hd))
      have hne : u ≠ .list r := by
        rintro rfl
        rw [(Holds.list hr h).unique hu] at hlt
        exact Nat.lt_irrefl _ hlt
      cases u with
      | list s => exact Finset.mem_erase.mpr ⟨fun heq => hne (heq ▸ rfl), hr⟩
      | _ => exact hr
  | tuple ds ih =>
    have hitems : ∀ d ∈ ds, d.depth < d'.depth := fun d hd =>
      Nat.lt_trans (Nat.lt_succ_of_le (Datum.depths_le_iff.mp (Nat.le_refl _) d hd)) hlt
    cases h with
    | tuple h => exact .tuple (forall₂_of_mem h fun d hd x hx => ih d hd hx (hitems d hd))
  | dict ds ihk ihv =>
    have hitems : ∀ item ∈ ds, item.1.depth < d'.depth ∧ item.2.depth < d'.depth := fun item hi =>
      have hle := Datum.pairDepths_le_iff.mp (Nat.le_refl _) item hi
      ⟨Nat.lt_trans (Nat.lt_succ_of_le hle.1) hlt, Nat.lt_trans (Nat.lt_succ_of_le hle.2) hlt⟩
    cases h with
    | @dict r _ hr hk hv =>
      refine .dict ?_
        (forall₂_of_mem hk (List.forall_mem_map.mpr fun item hi x hx => ihk item hi hx (hitems item hi).1))
        (forall₂_of_mem hv (List.forall_mem_map.mpr fun item hi x hx => ihv item hi hx (hitems item hi).2))
      have hne : u ≠ .dict r := by
        rintro rfl
        rw [(Holds.dict hr hk hv).unique hu] at hlt
        exact Nat.lt_irrefl _ hlt
      cases u with
      | dict s => exact Finset.mem_erase.mpr ⟨fun heq => hne (heq ▸ rfl), hr⟩
      | _ => exact hr

end Holds

/-- How deep values are nested in the entries of a dictionary. -/
def entryDepths (entries : List (Value × Value)) : Nat :=
  entries.foldl (fun m (k, v) => max m (max k.depth v.depth)) 0

/-- How deep values can be nested with nothing inside but lists and dictionaries at some places. -/
def World.weight (w : World) (p : Places) : Nat :=
  ∑ r ∈ p.lists, (Value.depths (w.list r) + 1) + ∑ r ∈ p.dicts, (entryDepths (w.dict r) + 1)

theorem foldl_eq_sum {α : Type} (f : α → Nat) (x : α) (l : List α) :
    l.foldl (fun n a => n + 1 + f a) 0 = ∑ r ∈ Finset.range l.length, (f ((l[r]?).getD x) + 1) := by
  induction l using List.reverseRecOn with
  | nil => rfl
  | append_singleton l a ih =>
    rw [List.foldl_append, ih, List.length_append, List.length_singleton, Finset.sum_range_succ]
    have hsame : ∑ r ∈ Finset.range l.length, (f (((l ++ [a])[r]?).getD x) + 1) =
        ∑ r ∈ Finset.range l.length, (f ((l[r]?).getD x) + 1) :=
      Finset.sum_congr rfl fun r hr => by rw [List.getElem?_append_left (Finset.mem_range.mp hr)]
    rw [hsame]
    simp
    omega

theorem World.nesting_eq (w : World) : w.nesting = w.weight w.places := by
  have hlists := foldl_eq_sum Value.depths [] w.lists.toList
  have hdicts := foldl_eq_sum entryDepths [] w.dicts.toList
  simp only [Array.foldl_toList, Array.length_toList, Array.getElem?_toList] at hlists hdicts
  exact congrArg₂ (· + ·) hlists hdicts

theorem Value.depths_le_iff {vs : List Value} {n : Nat} : Value.depths vs ≤ n ↔ ∀ v ∈ vs, v.depth ≤ n := by
  induction vs with
  | nil => simp [Value.depths]
  | cons v vs ih => rw [Value.depths, Nat.max_le, ih, List.forall_mem_cons]

theorem entryDepths_le_iff {entries : List (Value × Value)} {n : Nat} :
    entryDepths entries ≤ n ↔ ∀ e ∈ entries, e.1.depth ≤ n ∧ e.2.depth ≤ n := by
  have hfold (m : Nat) : entries.foldl (fun m (k, v) => max m (max k.depth v.depth)) m ≤ n ↔
      m ≤ n ∧ ∀ e ∈ entries, e.1.depth ≤ n ∧ e.2.depth ≤ n := by
    induction entries generalizing m with
    | nil => simp
    | cons e entries ih =>
      rw [List.foldl_cons, ih, List.forall_mem_cons, Nat.max_le, Nat.max_le, and_assoc]
  rw [entryDepths, hfold]
  exact and_iff_right (Nat.zero_le n)

namespace Holds

variable {w : World} {p : Places} {v : Value} {d : Datum}

/-- **How deep a datum is nested:** no deeper than its value and the lists and dictionaries of the world. -/
theorem depth_le_weight (h : Holds w p v d) : d.depth ≤ v.depth + w.weight p := by
  induction d generalizing p v with
  | none => cases h; exact Nat.le_add_right 1 _
  | bool b => cases h; exact Nat.le_add_right 1 _
  | int n => cases h; exact Nat.le_add_right 1 _
  | str s => cases h; exact Nat.le_add_right 1 _
  | bytes b => cases h; exact Nat.le_add_right 1 _
  | range a b c => cases h; exact Nat.le_add_right 1 _
  | list ds ih =>
    cases h with
    | @list r _ hr h =>
      have hweight : w.weight p = Value.depths (w.list r) + 1 + w.weight (p.without (.list r)) := by
        simp only [World.weight, Places.without]
        rw [← Finset.add_sum_erase p.lists _ hr]
        omega
      have hitems : Datum.depths ds ≤ Value.depths (w.list r) + w.weight (p.without (.list r)) := by
        refine Datum.depths_le_iff.mpr fun d hd => ?_
        obtain ⟨x, hx, hxd⟩ := exists_of_forall₂ h hd
        have hlt : d.depth < (Datum.list ds).depth :=
          Nat.lt_succ_of_le (Datum.depths_le_iff.mp (Nat.le_refl _) d hd)
        have hle := ih d hd (hxd.without (.list hr h) hlt)
        have hdepth := Value.depths_le_iff.mp (Nat.le_refl _) x hx
        omega
      change Datum.depths ds + 1 ≤ 1 + _
      omega
  | tuple ds ih =>
    cases h with
    | @tuple i vs _ h =>
      have hitems : Datum.depths ds ≤ Value.depths vs + w.weight p := by
        refine Datum.depths_le_iff.mpr fun d hd => ?_
        obtain ⟨x, hx, hxd⟩ := exists_of_forall₂ h hd
        have hle := ih d hd hxd
        have hdepth := Value.depths_le_iff.mp (Nat.le_refl _) x hx
        omega
      change Datum.depths ds + 1 ≤ Value.depths vs + 1 + _
      omega
  | dict ds ihk ihv =>
    cases h with
    | @dict r _ hr hk hv =>
      have hweight : w.weight p = entryDepths (w.dict r) + 1 + w.weight (p.without (.dict r)) := by
        simp only [World.weight, Places.without]
        rw [← Finset.add_sum_erase p.dicts _ hr]
        omega
      have hitems : Datum.pairDepths ds ≤ entryDepths (w.dict r) + w.weight (p.without (.dict r)) := by
        have hheld := Holds.dict hr hk hv
        refine Datum.pairDepths_le_iff.mpr fun item hi => ?_
        have hlt := Datum.pairDepths_le_iff.mp (Nat.le_refl (Datum.pairDepths ds)) item hi
        obtain ⟨x, hx, hxk⟩ := exists_of_forall₂ hk (List.mem_map_of_mem hi)
        obtain ⟨y, hy, hyv⟩ := exists_of_forall₂ hv (List.mem_map_of_mem hi)
        obtain ⟨e, he, rfl⟩ := List.mem_map.mp hx
        obtain ⟨e', he', rfl⟩ := List.mem_map.mp hy
        have hkey := ihk item hi (hxk.without hheld (Nat.lt_succ_of_le hlt.1))
        have hvalue := ihv item hi (hyv.without hheld (Nat.lt_succ_of_le hlt.2))
        have hdepth := entryDepths_le_iff.mp (Nat.le_refl _) e he
        have hdepth' := entryDepths_le_iff.mp (Nat.le_refl _) e' he'
        omega
      change Datum.pairDepths ds + 1 ≤ 1 + _
      omega

theorem depth_le (h : Holds w w.places v d) : d.depth ≤ v.depth + w.nesting := by
  rw [w.nesting_eq]
  exact h.depth_le_weight

end Holds

/-! ## Forms and equality -/

theorem mapM_of_forall₂ {α β γ : Type} {R : α → β → Prop} {f : α → Option γ} {g : β → γ} {xs : List α}
    {ds : List β} (h : List.Forall₂ R xs ds) (hf : ∀ d ∈ ds, ∀ x, R x d → f x = some (g d)) :
    xs.mapM f = some (ds.map g) := by
  induction h with
  | nil => rfl
  | cons hd _ ih =>
    obtain ⟨hfd, hfds⟩ := List.forall_mem_cons.mp hf
    rw [List.mapM_cons, hfd _ hd, ih hfds]
    rfl

namespace Holds

variable {w : World} {p : Places} {v v' : Value} {d d' : Datum} {fuel : Nat}

/-- The entries of a dictionary hold the entries of its datum. -/
theorem entries {entries : List (Value × Value)} {ds : List (Datum × Datum)}
    (hk : List.Forall₂ (Holds w p) (entries.map Prod.fst) (ds.map Prod.fst))
    (hv : List.Forall₂ (Holds w p) (entries.map Prod.snd) (ds.map Prod.snd)) :
    List.Forall₂ (fun e item => Holds w p e.1 item.1 ∧ Holds w p e.2 item.2) entries ds := by
  induction entries generalizing ds with
  | nil =>
    cases ds with
    | nil => exact .nil
    | cons item ds => cases hk
  | cons e entries ih =>
    cases ds with
    | nil => cases hk
    | cons item ds =>
      obtain ⟨hkey, hkeys⟩ := List.forall₂_cons.mp hk
      obtain ⟨hvalue, hvalues⟩ := List.forall₂_cons.mp hv
      exact .cons ⟨hkey, hvalue⟩ (ih hkeys hvalues)

/-- **The form of a value** is the text of the datum that it holds. -/
theorem show?_eq (h : Holds w p v d) (hfuel : d.depth ≤ fuel) : Lang.show? fuel w v = some d.text := by
  induction d generalizing v fuel with
  | list ds ih =>
    obtain ⟨fuel, rfl⟩ := Datum.exists_succ hfuel
    have hitems := Datum.depths_le_iff.mp (Nat.le_of_succ_le_succ hfuel)
    cases h with
    | list hr h =>
      have htexts := mapM_of_forall₂ h fun d hd x hx => ih d hd hx (hitems d hd)
      rw [Lang.show?, htexts, ← Datum.texts_eq_map]
      rfl
  | tuple ds ih =>
    obtain ⟨fuel, rfl⟩ := Datum.exists_succ hfuel
    have hitems := Datum.depths_le_iff.mp (Nat.le_of_succ_le_succ hfuel)
    cases h with
    | tuple h =>
      have htexts := mapM_of_forall₂ h fun d hd x hx => ih d hd hx (hitems d hd)
      rw [Lang.show?, htexts, ← Datum.texts_eq_map]
      rfl
  | dict ds ihk ihv =>
    obtain ⟨fuel, rfl⟩ := Datum.exists_succ hfuel
    have hitems := Datum.pairDepths_le_iff.mp (Nat.le_of_succ_le_succ hfuel)
    cases h with
    | dict hr hk hv =>
      have htexts := mapM_of_forall₂ (entries hk hv)
        (f := fun e : Value × Value => do return (← Lang.show? fuel w e.1) ++ [':', ' '] ++ (← Lang.show? fuel w e.2))
        (g := fun item => item.1.text ++ [':', ' '] ++ item.2.text) fun item hi e he => by
          rw [ihk item hi he.1 (hitems item hi).1, ihv item hi he.2 (hitems item hi).2]
          rfl
      rw [Lang.show?]
      change Option.map _ (List.mapM (fun e : Value × Value => do
        return (← Lang.show? fuel w e.1) ++ [':', ' '] ++ (← Lang.show? fuel w e.2)) _) = _
      rw [htexts, ← Datum.pairTexts_eq_map]
      rfl
  | bool b =>
    obtain ⟨fuel, rfl⟩ := Datum.exists_succ hfuel
    cases h
    cases b <;> rfl
  | _ =>
    obtain ⟨fuel, rfl⟩ := Datum.exists_succ hfuel
    cases h
    rfl

theorem showValue_eq (h : Holds w w.places v d) : w.show? v = some d.text := by
  refine h.show?_eq ?_
  have hdepth := h.depth_le
  unfold World.depthFor
  omega

/-! ### Equality -/

theorem allPairs?_eq {test : Value → Value → Option Bool} {vs vs' : List Value} {ds ds' : List Datum}
    (h : List.Forall₂ (Holds w p) vs ds) (h' : List.Forall₂ (Holds w p) vs' ds')
    (htest : ∀ d ∈ ds, ∀ d' ∈ ds', ∀ v v', Holds w p v d → Holds w p v' d' → test v v' = some (d.equal d')) :
    allPairs? test vs vs' = some (Datum.allEqual ds ds') := by
  induction h generalizing vs' ds' with
  | nil => cases h' <;> rfl
  | cons hd _ ih =>
    cases h' with
    | nil => rfl
    | cons hd' hds' =>
      rw [allPairs?, htest _ List.mem_cons_self _ List.mem_cons_self _ _ hd hd', Datum.allEqual]
      have hrest := ih hds' fun d hd d' hd' => htest d (List.mem_cons_of_mem _ hd) d' (List.mem_cons_of_mem _ hd')
      change (if _ = true then _ else _) = _
      rw [hrest]
      cases Datum.equal _ _ <;> rfl

theorem equalItems_eq {same : Bool} {vs vs' : List Value} {ds ds' : List Datum}
    (h : List.Forall₂ (Holds w p) vs ds) (h' : List.Forall₂ (Holds w p) vs' ds')
    (hsame : same = true → ds = ds')
    (htest : ∀ d ∈ ds, ∀ v v' d', Holds w p v d → Holds w p v' d' →
      Lang.equal? fuel w v v' = some (d.equal d')) :
    equal?.equalItems fuel w same vs vs' = some (Datum.allEqual ds ds') := by
  unfold equal?.equalItems
  split
  · rename_i hs
    rw [hsame hs, Datum.allEqual_self fun d _ => d.equal_self]
  · split
    · rename_i hlength
      rw [h.length_eq, h'.length_eq] at hlength
      rw [Datum.allEqual_of_length_ne hlength]
    · exact allPairs?_eq h h' fun d hd d' _ v v' => htest d hd v v' d'

/-- Whether two entries of dictionaries are equal. -/
def equalEntries? (fuel : Nat) (w : World) (e e' : Value × Value) : Option Bool := do
  if ← Lang.equal? fuel w e.1 e'.1 then Lang.equal? fuel w e.2 e'.2 else some false

theorem equalEntries?_eq {e e' : Value × Value} {item item' : Datum × Datum}
    (hk : Lang.equal? fuel w e.1 e'.1 = some (item.1.equal item'.1))
    (hv : Lang.equal? fuel w e.2 e'.2 = some (item.2.equal item'.2)) :
    equalEntries? fuel w e e' = some (item.1.equal item'.1 && item.2.equal item'.2) := by
  unfold equalEntries?
  rw [hk, hv]
  change (if _ = true then _ else _) = _
  cases item.1.equal item'.1 <;> rfl

/-- An entry of a dictionary that equals one. -/
theorem anyM_eq {e : Value × Value} {item : Datum × Datum} {entries' : List (Value × Value)}
    {ds' : List (Datum × Datum)}
    (h' : List.Forall₂ (fun e item => Holds w p e.1 item.1 ∧ Holds w p e.2 item.2) entries' ds')
    (hk : ∀ v' d', Holds w p v' d' → Lang.equal? fuel w e.1 v' = some (item.1.equal d'))
    (hv : ∀ v' d', Holds w p v' d' → Lang.equal? fuel w e.2 v' = some (item.2.equal d')) :
    entries'.anyM (equalEntries? fuel w e) =
      some (ds'.any fun other => item.1.equal other.1 && item.2.equal other.2) := by
  induction h' with
  | nil => rfl
  | @cons e' item' entries' ds' he' _ ih =>
    rw [List.anyM, List.any_cons, equalEntries?_eq (hk _ _ he'.1) (hv _ _ he'.2), ih]
    cases item.1.equal item'.1 && item.2.equal item'.2 <;> rfl

/-- The entries of a dictionary that are among those of another one. -/
theorem allM_eq {entries entries' : List (Value × Value)} {ds ds' : List (Datum × Datum)}
    (h : List.Forall₂ (fun e item => Holds w p e.1 item.1 ∧ Holds w p e.2 item.2) entries ds)
    (h' : List.Forall₂ (fun e item => Holds w p e.1 item.1 ∧ Holds w p e.2 item.2) entries' ds')
    (hk : ∀ item ∈ ds, ∀ v v' d', Holds w p v item.1 → Holds w p v' d' →
      Lang.equal? fuel w v v' = some (item.1.equal d'))
    (hv : ∀ item ∈ ds, ∀ v v' d', Holds w p v item.2 → Holds w p v' d' →
      Lang.equal? fuel w v v' = some (item.2.equal d')) :
    entries.allM (fun e => entries'.anyM (equalEntries? fuel w e)) = some (Datum.allAmong ds ds') := by
  induction h with
  | nil => rfl
  | @cons e item entries ds he _ ih =>
    obtain ⟨hkey, hkeys⟩ := List.forall_mem_cons.mp hk
    obtain ⟨hvalue, hvalues⟩ := List.forall_mem_cons.mp hv
    have hany := anyM_eq h' (fun v' d' => hkey e.1 v' d' he.1) fun v' d' => hvalue e.2 v' d' he.2
    rw [List.allM, Datum.allAmong, hany, ih hkeys hvalues]
    cases ds'.any fun other => item.1.equal other.1 && item.2.equal other.2 <;> rfl

/-- **Equality of values** is that of the data that they hold. -/
theorem equal?_eq (h : Holds w p v d) (h' : Holds w p v' d') (hfuel : d.depth ≤ fuel) :
    Lang.equal? fuel w v v' = some (d.equal d') := by
  induction d generalizing v v' d' fuel with
  | list ds ih =>
    obtain ⟨fuel, rfl⟩ := Datum.exists_succ hfuel
    have hitems := Datum.depths_le_iff.mp (Nat.le_of_succ_le_succ hfuel)
    cases h with
    | list hr h =>
      cases h' with
      | list hr' h' =>
        rw [Lang.equal?]
        refine equalItems_eq h h' (fun hs => ?_) fun d hd v v' d' hv hv' => ih d hd hv hv' (hitems d hd)
        cases beq_iff_eq.mp hs
        exact forall₂_unique h h' fun d _ x d' hd hd' => hd.unique hd'
      | _ => simp [Lang.equal?, Datum.equal, equalNumbers, Value.asInt?, Value.asFloat?, Datum.asInt?]
  | tuple ds ih =>
    obtain ⟨fuel, rfl⟩ := Datum.exists_succ hfuel
    have hitems := Datum.depths_le_iff.mp (Nat.le_of_succ_le_succ hfuel)
    cases h with
    | tuple h =>
      cases h' with
      | tuple h' =>
        rw [Lang.equal?]
        exact equalItems_eq h h' (by rintro ⟨⟩) fun d hd v v' d' hv hv' => ih d hd hv hv' (hitems d hd)
      | _ => simp [Lang.equal?, Datum.equal, equalNumbers, Value.asInt?, Value.asFloat?, Datum.asInt?]
  | dict ds ihk ihv =>
    obtain ⟨fuel, rfl⟩ := Datum.exists_succ hfuel
    have hitems := Datum.pairDepths_le_iff.mp (Nat.le_of_succ_le_succ hfuel)
    cases h with
    | dict hr hk hv =>
      cases h' with
      | dict hr' hk' hv' =>
        have hall := allM_eq (entries hk hv) (entries hk' hv')
          (fun item hi v v' d' hx hx' => ihk item hi hx hx' (hitems item hi).1)
          fun item hi v v' d' hx hx' => ihv item hi hx hx' (hitems item hi).2
        have hlength := (entries hk hv).length_eq
        have hlength' := (entries hk' hv').length_eq
        rw [Lang.equal?, Datum.equal]
        simp only [hlength, hlength']
        split
        · rename_i hne
          rw [beq_false_of_ne hne, Bool.false_and]
        · rename_i heq
          rw [not_not.mp heq, beq_self_eq_true, Bool.true_and]
          exact hall
      | _ => simp [Lang.equal?, Datum.equal, equalNumbers, Value.asInt?, Value.asFloat?, Datum.asInt?]
  | _ =>
    obtain ⟨fuel, rfl⟩ := Datum.exists_succ hfuel
    cases h
    cases h' <;> simp [Lang.equal?, Datum.equal, equalNumbers, Value.asInt?, Value.asFloat?, Datum.asInt?]

theorem equalValue_eq (h : Holds w w.places v d) (h' : Holds w w.places v' d') :
    w.equal? v v' = some (d.equal d') := by
  refine h.equal?_eq h' ?_
  have hdepth := h.depth_le
  have hnesting := Nat.le_mul_self w.nesting
  unfold World.equalDepth
  omega

end Holds

end Transcript.Lang
