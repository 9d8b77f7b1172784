import Transcript.Lang.Interpreter
import Transcript.Proofs.Lang.Depth
import Transcript.Proofs.Lang.Dictionary
import Transcript.Proofs.Lang.Report
import Transcript.Proofs.Lang.Sequence
import Mathlib.Data.Fintype.Order
import Mathlib.Data.Set.Finite.Lattice
import Mathlib.Logic.Relation

/-!
# Values that lie in themselves

Lists and dictionaries change after they have been stored, so one can come to lie in itself. Showing values and
comparing them go down into them like into trees and do not look whether they have been somewhere before. So
they have an answer where every way down ends. There are finitely many lists and dictionaries, so a way down
without end meets one of them twice, and every way down ends iff nothing is met that lies in itself.

Whether something lies in itself is decided where something is stored: a change of a list or dictionary stores
values in one place, and makes something lie in itself iff one of them already led to that place.

Results:
* `Descent.Places.founded_iff`: every way down ends iff nothing on it lies in itself.
* `World.isSome_showValue`, `World.isSome_readValue`, `World.isSome_message?`: what has forms.
* `World.isSome_equalValue`: what is compared.
* `World.Mutation.founded_iff`: what a change of a list or dictionary does to that.
* `told_iff_not_circular`: all of it, also for all changes that a program makes one after the other.
-/

namespace Transcript.Lang

/-! ## Ways down -/

namespace Descent

variable {X K β : Type} {F : Nat → X → Option β} {Piece : X → X → Prop} {x x' : X}

/-- **Every way down ends.** -/
def Founded (Piece : X → X → Prop) : X → Prop := Acc (Function.swap Piece)

/-- **Something is met on a way down that lies in itself.** -/
def Circular (Piece : X → X → Prop) (x : X) : Prop :=
  ∃ u, Relation.ReflTransGen Piece x u ∧ Relation.TransGen Piece u u

theorem Founded.not_circular (h : Founded Piece x) : ¬ Circular Piece x := by
  induction h with
  | intro x _ ih =>
    rintro ⟨u, hu, hround⟩
    rcases hu.cases_head with rfl | ⟨x', hx, hu⟩
    · -- What lies in itself lies in one of its pieces, which then lies in itself as well.
      obtain ⟨x', hx, hback⟩ := Relation.TransGen.head'_iff.mp hround
      exact ih x' hx ⟨x', .refl, .tail' hback hx⟩
    · exact ih x' hx ⟨u, hu, hround⟩

theorem Circular.of_piece (h : Circular Piece x') (hx : Piece x x') : Circular Piece x := by
  obtain ⟨u, hu, hround⟩ := h
  exact ⟨u, .head hx hu, hround⟩

section Places

variable {depth : X → Nat} {places : Finset K} {at? : K → X} {inside : K → Nat}

open scoped Classical in
/-- The places that are met on the ways down. -/
noncomputable def met (Piece : X → X → Prop) (places : Finset K) (at? : K → X) (x : X) : Finset K :=
  places.filter fun k => Relation.ReflTransGen Piece x (at? k)

theorem mem_met {k : K} :
    k ∈ met Piece places at? x ↔ k ∈ places ∧ Relation.ReflTransGen Piece x (at? k) :=
  @Finset.mem_filter _ _ (_) _ _

theorem met_subset (hx : Piece x x') : met Piece places at? x' ⊆ met Piece places at? x := by
  intro k hk
  obtain ⟨hk, hmet⟩ := mem_met.mp hk
  exact mem_met.mpr ⟨hk, .head hx hmet⟩

/-- A place that does not lie in itself is met no more below. -/
theorem met_ssubset {k : K} (hk : k ∈ places) (hnot : ¬ Circular Piece (at? k)) (hx : Piece (at? k) x') :
    met Piece places at? x' ⊂ met Piece places at? (at? k) := by
  refine (Finset.ssubset_iff_of_subset (met_subset hx)).mpr ⟨k, mem_met.mpr ⟨hk, .refl⟩, fun hmet => ?_⟩
  exact hnot ⟨at? k, .refl, .head' hx (mem_met.mp hmet).2⟩

/-- **Where nothing lies in itself, every way down ends:** it comes to fewer and fewer places. -/
theorem Places.founded (hp : Places Piece depth places at? inside) (h : ¬ Circular Piece x) :
    Founded Piece x := by
  induction hn : (met Piece places at? x).card using Nat.strong_induction_on generalizing x with
  | _ n ih =>
    induction hd : depth x using Nat.strong_induction_on generalizing x with
    | _ d ihd =>
      refine Acc.intro x fun x' hx => ?_
      have hx' : ¬ Circular Piece x' := fun h' => h (h'.of_piece hx)
      rcases hp.piece hx with hlt | ⟨k, hk, rfl, -⟩
      · have hle : (met Piece places at? x').card ≤ (met Piece places at? x).card :=
          Finset.card_le_card (met_subset hx)
        rcases hle.lt_or_eq with hfew | hsame
        · exact ih _ (hn ▸ hfew) hx' rfl
        · exact ihd _ (hd ▸ hlt) hx' (hsame.trans hn) rfl
      · exact ih _ (hn ▸ Finset.card_lt_card (met_ssubset hk h hx)) hx' rfl

theorem Places.founded_iff (hp : Places Piece depth places at? inside) : Founded Piece x ↔ ¬ Circular Piece x :=
  ⟨Founded.not_circular, hp.founded⟩

end Places

/-- **A recursion on finitely many pieces** that has an answer as soon as all of them have one. -/
structure Total (F : Nat → X → Option β) (Piece : X → X → Prop) : Prop extends Descent F Piece where
  /-- There are finitely many pieces. -/
  finite : ∀ x, {x' | Piece x x'}.Finite
  /-- The answers of the pieces are enough. -/
  answer : ∀ {n x}, (∀ x', Piece x x' → (F n x').isSome) → (F (n + 1) x).isSome

theorem isSome_mono (hF : Descent F Piece) {n m : Nat} (h : (F n x).isSome) (hnm : n ≤ m) : (F m x).isSome := by
  obtain ⟨b, hb⟩ := Option.isSome_iff_exists.mp h
  exact Option.isSome_iff_exists.mpr ⟨b, hF.mono hb hnm⟩

/-- **Where every way down ends, there is an answer.** -/
theorem Total.exists_isSome (hF : Total F Piece) (h : Founded Piece x) : ∃ n, (F n x).isSome := by
  induction h with
  | intro x _ ih =>
    have : Finite {x' // Piece x x'} := (hF.finite x).to_subtype
    choose levels hlevels using ih
    obtain ⟨n, hn⟩ := Finite.exists_le fun x' : {x' // Piece x x'} => levels x'.1 x'.2
    exact ⟨n + 1, hF.answer fun x' hx => isSome_mono hF.toDescent (hlevels x' hx) (hn ⟨x', hx⟩)⟩

/-- Where an answer needs those of all pieces, every way down ends. -/
theorem founded_of_isSome (hzero : ∀ x, F 0 x = none)
    (hneeds : ∀ {n x x'}, (F (n + 1) x).isSome → Piece x x' → (F n x').isSome) {n : Nat}
    (h : (F n x).isSome) : Founded Piece x := by
  induction n generalizing x with
  | zero =>
    rw [hzero] at h
    cases h
  | succ n ih => exact Acc.intro x fun x' hx => ih (hneeds h hx)

end Descent

/-! ## Forms -/

section

variable {α β : Type} {f : α → Option β} {l : List α}

theorem isSome_mapM : (l.mapM f).isSome ↔ ∀ a ∈ l, (f a).isSome := by
  induction l with
  | nil => simp
  | cons a l ih =>
    rw [List.mapM_cons, List.forall_mem_cons, ← ih]
    cases f a with
    | none => simp
    | some b => cases l.mapM f <;> simp

end

/-- **Every way down into a value ends.** -/
abbrev World.Founded (w : World) : Value → Prop := Descent.Founded (Value.Piece w)

/-- **Something is met on a way down into a value that lies in itself.** -/
abbrev World.Circular (w : World) : Value → Prop := Descent.Circular (Value.Piece w)

theorem World.founded_iff {w : World} {v : Value} : w.Founded v ↔ ¬ w.Circular v :=
  (containers_places w).founded_iff

namespace Value

variable {w : World}

/-- The keys and values of entries. -/
def sides (es : Entries) : List Value := es.flatMap fun e => [e.1, e.2]

/-- What lies in a value, one after the other. -/
def pieces (w : World) : Value → List Value
  | .list r => w.list r
  | .dict r => sides (w.dict r)
  | .tuple _ xs | .exception _ _ xs => xs
  | _ => []

theorem piece_iff {v x : Value} : Piece w v x ↔ x ∈ v.pieces w := by
  constructor
  · intro h
    cases h with
    | key h => exact List.mem_flatMap.mpr ⟨_, h, List.mem_cons_self⟩
    | value h => exact List.mem_flatMap.mpr ⟨_, h, List.mem_cons_of_mem _ List.mem_cons_self⟩
    | item h => exact h
    | member h => exact h
    | argument h => exact h
  · intro h
    cases v with
    | list r => exact .item h
    | tuple i xs => exact .member h
    | exception i k xs => exact .argument h
    | dict r =>
      obtain ⟨e, he, hx⟩ := List.mem_flatMap.mp h
      rcases List.mem_pair.mp hx with rfl | rfl
      · exact .key he
      · exact .value he
    | _ => cases h

theorem finite_pieces (w : World) (v : Value) : {x | Piece w v x}.Finite := by
  simp only [piece_iff]
  exact List.finite_toSet _

end Value

/-- A value has a form with one more level iff all that lies in it has one. -/
theorem isSome_show?_succ {w : World} {n : Nat} {v : Value} :
    (Lang.show? (n + 1) w v).isSome ↔ ∀ x, Value.Piece w v x → (Lang.show? n w x).isSome := by
  simp only [Value.piece_iff]
  cases v with
  | list r => simp [Lang.show?, Value.pieces, isSome_mapM]
  | tuple i xs => simp [Lang.show?, Value.pieces, isSome_mapM]
  | exception i k xs => simp [Lang.show?, Value.pieces, isSome_mapM]
  | dict r =>
    have hentry (e : Value × Value) :
        (do return (← Lang.show? n w e.1) ++ [':', ' '] ++ (← Lang.show? n w e.2) : Option (List Char)).isSome ↔
          ∀ x ∈ [e.1, e.2], (Lang.show? n w x).isSome := by
      rw [List.forall_mem_cons, List.forall_mem_singleton]
      cases Lang.show? n w e.1 <;> cases Lang.show? n w e.2 <;> simp
    rw [Lang.show?, Option.isSome_map, isSome_mapM]
    simp only [hentry, Value.pieces, Value.sides, List.mem_flatMap]
    constructor
    · rintro h x ⟨e, he, hx⟩
      exact h e he x hx
    · exact fun h e he x hx => h x ⟨e, he, hx⟩
  | bool b => cases b <;> simp [Lang.show?, Value.pieces]
  | _ => simp [Lang.show?, Value.pieces]

theorem show?_total (w : World) : Descent.Total (fun n v => Lang.show? n w v) (Value.Piece w) where
  toDescent := show?_descent w
  finite := Value.finite_pieces w
  answer := isSome_show?_succ.mpr

/-- Values have forms iff every way down into them ends. -/
theorem exists_isSome_show? {w : World} {v : Value} : (∃ n, (Lang.show? n w v).isSome) ↔ w.Founded v := by
  constructor
  · rintro ⟨n, h⟩
    exact Descent.founded_of_isSome (F := fun n v => Lang.show? n w v) (fun _ => rfl)
      (fun h hx => isSome_show?_succ.mp h _ hx) h
  · exact (show?_total w).exists_isSome

/-- What has no pieces is founded. -/
theorem founded_of_pieces_nil {w : World} {v : Value} (h : v.pieces w = []) : w.Founded v :=
  .intro v fun x hx => by
    have hmem := Value.piece_iff.mp hx
    rw [h] at hmem
    cases hmem

theorem founded_exception {w : World} {i : Nat} {k : ExceptionKind} {args : List Value} :
    w.Founded (.exception i k args) ↔ ∀ a ∈ args, w.Founded a := by
  constructor
  · exact fun h a ha => h.inv (.argument ha)
  · intro h
    refine .intro _ fun x hx => ?_
    cases hx with
    | argument hx => exact h _ hx

mutual

theorem founded_of_read? {w : World} {n : Nat} {v : Value} (h : (Lang.read? n w v).isSome) : w.Founded v := by
  cases n with
  | zero => cases h
  | succ n =>
    cases v with
    | str i s => exact founded_of_pieces_nil rfl
    | exception i k args => exact founded_exception.mpr (founded_of_excMessage? (n := n) h)
    | _ => exact exists_isSome_show?.mp ⟨n + 1, h⟩

theorem founded_of_excMessage? {w : World} {n : Nat} {k : ExceptionKind} {args : List Value}
    (h : (excMessage? n w k args).isSome) : ∀ a ∈ args, w.Founded a := by
  cases n with
  | zero => cases h
  | succ n =>
    rcases args with _ | ⟨arg, _ | ⟨b, rest⟩⟩
    · exact List.forall_mem_nil _
    · rw [List.forall_mem_singleton]
      unfold excMessage? at h
      dsimp only at h
      split at h
      · exact exists_isSome_show?.mp ⟨n, h⟩
      · exact founded_of_read? h
    · unfold excMessage? at h
      rw [Option.isSome_map, isSome_mapM] at h
      exact fun x hx => exists_isSome_show?.mp ⟨n, h x hx⟩

end

theorem exists_isSome_excMessage? {w : World} {k : ExceptionKind} {args : List Value}
    (hread : ∀ a ∈ args, ∃ n, (Lang.read? n w a).isSome) (h : ∀ a ∈ args, w.Founded a) :
    ∃ n, (excMessage? n w k args).isSome := by
  rcases args with _ | ⟨arg, _ | ⟨b, rest⟩⟩
  · exact ⟨1, rfl⟩
  · rw [List.forall_mem_singleton] at hread h
    by_cases hk : k = .keyError
    · obtain ⟨n, hn⟩ := exists_isSome_show?.mpr h
      refine ⟨n + 1, ?_⟩
      unfold excMessage?
      dsimp only
      rwa [if_pos hk]
    · obtain ⟨n, hn⟩ := hread
      refine ⟨n + 1, ?_⟩
      unfold excMessage?
      dsimp only
      rwa [if_neg hk]
  · -- Several arguments are shown like those of the exception itself.
    obtain ⟨n, hn⟩ := exists_isSome_show?.mpr (founded_exception (i := 0) (k := k).mpr h)
    cases n with
    | zero => cases hn
    | succ n =>
      refine ⟨n + 1, ?_⟩
      unfold excMessage?
      rw [Option.isSome_map, isSome_mapM]
      exact fun x hx => isSome_show?_succ.mp hn x (.argument hx)

/-- Values have forms for reading iff every way down into them ends. -/
theorem exists_isSome_read? {w : World} {v : Value} : (∃ n, (Lang.read? n w v).isSome) ↔ w.Founded v := by
  constructor
  · rintro ⟨n, h⟩
    exact founded_of_read? h
  · intro h
    induction h with
    | intro v hpieces ih =>
      cases v with
      | str i s => exact ⟨1, rfl⟩
      | exception i k args =>
        obtain ⟨n, hn⟩ := exists_isSome_excMessage? (k := k) (fun a ha => ih a (.argument ha))
          fun a ha => hpieces a (.argument ha)
        exact ⟨n + 1, hn⟩
      | _ =>
        obtain ⟨n, hn⟩ := exists_isSome_show?.mpr (.intro _ hpieces)
        cases n with
        | zero => cases hn
        | succ n => exact ⟨n + 1, hn⟩

namespace World

variable {w : World}

theorem isSome_showValue {v : Value} : (w.show? v).isSome ↔ w.Founded v := by
  simp only [← exists_isSome_show?, Option.isSome_iff_exists, showValue_eq_some]
  exact exists_comm

theorem isSome_readValue {v : Value} : (w.read? v).isSome ↔ w.Founded v := by
  simp only [← exists_isSome_read?, Option.isSome_iff_exists, readValue_eq_some]
  exact exists_comm

theorem isSome_message? {e : Raised} : (w.message? e).isSome ↔ ∀ a ∈ e.args, w.Founded a := by
  constructor
  · exact founded_of_excMessage?
  · intro h
    obtain ⟨n, hn⟩ := exists_isSome_excMessage? (k := e.kind) (fun a ha => exists_isSome_read?.mpr (h a ha)) h
    obtain ⟨s, hs⟩ := Option.isSome_iff_exists.mp hn
    exact Option.isSome_iff_exists.mpr ⟨s, message?_eq_some.mpr ⟨n, hs⟩⟩

end World

/-! ## Equality -/

section

variable {test : Value → Value → Option Bool}

theorem isSome_allPairs? {xs ys : List Value} (h : ∀ x ∈ xs, ∀ y ∈ ys, (test x y).isSome) :
    (allPairs? test xs ys).isSome := by
  induction xs generalizing ys with
  | nil => cases ys <;> rfl
  | cons x xs ih =>
    cases ys with
    | nil => rfl
    | cons y ys =>
      obtain ⟨b, hb⟩ := Option.isSome_iff_exists.mp (h x List.mem_cons_self y List.mem_cons_self)
      rw [allPairs?, hb]
      cases b with
      | false => rfl
      | true => exact ih fun x hx y hy => h x (List.mem_cons_of_mem _ hx) y (List.mem_cons_of_mem _ hy)

end

section

variable {α : Type} {p : α → Option Bool} {as : List α}

theorem isSome_anyM (h : ∀ a ∈ as, (p a).isSome) : (as.anyM p).isSome := by
  induction as with
  | nil => rfl
  | cons a as ih =>
    obtain ⟨ha, has⟩ := List.forall_mem_cons.mp h
    obtain ⟨b, hb⟩ := Option.isSome_iff_exists.mp ha
    rw [List.anyM, hb]
    cases b with
    | true => rfl
    | false => exact ih has

theorem isSome_allM (h : ∀ a ∈ as, (p a).isSome) : (as.allM p).isSome := by
  induction as with
  | nil => rfl
  | cons a as ih =>
    obtain ⟨ha, has⟩ := List.forall_mem_cons.mp h
    obtain ⟨b, hb⟩ := Option.isSome_iff_exists.mp ha
    rw [List.allM, hb]
    cases b with
    | true => exact ih has
    | false => rfl

end

namespace Value.PairPiece

variable {w : World} {p p' : Value × Value}

theorem fst (h : PairPiece w p p') : Piece w p.1 p'.1 := by
  cases h with
  | items hx hy => exact .item hx
  | members hx hy => exact .member hx
  | @keys r s e e' he _ => exact .key (e := e) he
  | @values r s e e' he _ => exact .value (e := e) he

theorem snd (h : PairPiece w p p') : Piece w p.2 p'.2 := by
  cases h with
  | items hx hy => exact .item hy
  | members hx hy => exact .member hy
  | @keys r s e e' _ he' => exact .key (e := e') he'
  | @values r s e e' _ he' => exact .value (e := e') he'

end Value.PairPiece

theorem isSome_equalItems {w : World} {n : Nat} {same : Bool} {xs ys : List Value}
    (h : ∀ x ∈ xs, ∀ y ∈ ys, (Lang.equal? n w x y).isSome) : (equal?.equalItems n w same xs ys).isSome := by
  unfold equal?.equalItems
  split
  · rfl
  · split
    · rfl
    · exact isSome_allPairs? h

theorem equal?_total (w : World) :
    Descent.Total (fun n p => Lang.equal? n w p.1 p.2) (Value.PairPiece w) where
  toDescent := equal?_descent w
  finite p := by
    refine ((Value.finite_pieces w p.1).prod (Value.finite_pieces w p.2)).subset fun p' h => ?_
    exact ⟨Value.PairPiece.fst h, Value.PairPiece.snd h⟩
  answer {n p} h := by
    obtain ⟨u, v⟩ := p
    have hpair (x y : Value) (hxy : Value.PairPiece w (u, v) (x, y)) : (Lang.equal? n w x y).isSome :=
      h (x, y) hxy
    dsimp only
    unfold Lang.equal?
    cases u with
    | list r =>
      cases v with
      | list s => exact isSome_equalItems fun x hx y hy => hpair x y (.items hx hy)
      | _ => rfl
    | tuple i xs =>
      cases v with
      | tuple j ys => exact isSome_equalItems fun x hx y hy => hpair x y (.members hx hy)
      | _ => rfl
    | dict r =>
      cases v with
      | dict s =>
        dsimp only
        split
        · rfl
        · refine isSome_allM fun e he => isSome_anyM fun e' he' => ?_
          obtain ⟨b, hb⟩ := Option.isSome_iff_exists.mp (hpair e.1 e'.1 (.keys he he'))
          rw [hb]
          cases b with
          | false => rfl
          | true => exact hpair e.2 e'.2 (.values he he')
      | _ => rfl
    | _ => cases v <;> rfl

/-- Whether two values are equal comes out if every way down into one of them ends. -/
theorem World.isSome_equalValue {w : World} {u v : Value} (h : w.Founded u ∨ w.Founded v) :
    (w.equal? u v).isSome := by
  have hpair : Descent.Founded (Value.PairPiece w) (u, v) := by
    rcases h with h | h
    · exact Subrelation.accessible (fun hp => Value.PairPiece.fst hp) (InvImage.accessible (a := (u, v)) Prod.fst h)
    · exact Subrelation.accessible (fun hp => Value.PairPiece.snd hp) (InvImage.accessible (a := (u, v)) Prod.snd h)
  obtain ⟨n, hn⟩ := (equal?_total w).exists_isSome hpair
  obtain ⟨b, hb⟩ := Option.isSome_iff_exists.mp hn
  exact Option.isSome_iff_exists.mpr ⟨b, equalValue_eq_some.mpr ⟨n, hb⟩⟩

/-! ## Changes -/

namespace World

/-- **A value is met** on a way down into another one, or is that one. -/
abbrev Meets (w : World) : Value → Value → Prop := Relation.ReflTransGen (Value.Piece w)

variable {w w' : World} {place : Value} {stored : List Value}

/-- **Values are stored in a place:** they lie in it then, and nothing else is changed or comes to lie there. -/
structure Stores (w w' : World) (place : Value) (stored : List Value) : Prop where
  /-- Other values are as they were. -/
  others : ∀ v, v ≠ place → v.pieces w' = v.pieces w
  /-- What is stored is in its place. -/
  there : ∀ x ∈ stored, x ∈ place.pieces w'
  /-- Nothing else is new. -/
  rest : ∀ x ∈ place.pieces w', x ∈ stored ∨ x ∈ place.pieces w

/-- What does not meet the place is as founded as before. -/
theorem Stores.founded_of_not_meets (h : w.Stores w' place stored) {v : Value} (hv : w.Founded v)
    (hnot : ¬ w.Meets v place) : w'.Founded v := by
  induction hv with
  | intro v _ ih =>
    refine .intro v fun x hx => ?_
    have hne : v ≠ place := fun heq => hnot (heq ▸ .refl)
    have hpiece : Value.Piece w v x := Value.piece_iff.mpr (h.others v hne ▸ Value.piece_iff.mp hx)
    exact ih x hpiece fun hmeets => hnot (.head hpiece hmeets)

/-- What meets the place still does. -/
theorem Stores.meets (h : w.Stores w' place stored) {v : Value} (hv : w.Meets v place) : w'.Meets v place := by
  induction hv using Relation.ReflTransGen.head_induction_on with
  | refl => exact .refl
  | @head v x hx _ ih =>
    by_cases heq : v = place
    · exact heq ▸ .refl
    · exact .head (Value.piece_iff.mpr ((h.others v heq).symm ▸ Value.piece_iff.mp hx)) ih

/-- **Storing keeps all values founded iff nothing that is stored meets the place.** -/
theorem Stores.founded_iff (h : w.Stores w' place stored) (hw : ∀ v, w.Founded v) :
    (∀ v, w'.Founded v) ↔ ∀ x ∈ stored, ¬ w.Meets x place := by
  constructor
  · intro hw' x hx hmeets
    have hpiece : Value.Piece w' place x := Value.piece_iff.mpr (h.there x hx)
    exact (hw' place).not_circular ⟨place, .refl, .head' hpiece (h.meets hmeets)⟩
  · intro hstored
    have hplace : w'.Founded place := by
      refine .intro place fun x hx => ?_
      refine h.founded_of_not_meets (hw x) ?_
      rcases h.rest x (Value.piece_iff.mp hx) with hx | hx
      · exact hstored x hx
      · intro hmeets
        exact (hw place).not_circular ⟨place, .refl, .head' (Value.piece_iff.mpr hx) hmeets⟩
    intro v
    induction hw v with
    | intro v _ ih =>
      by_cases heq : v = place
      · exact heq ▸ hplace
      · refine .intro v fun x hx => ih x (Value.piece_iff.mpr ?_)
        exact h.others v heq ▸ Value.piece_iff.mp hx

/-! ### Lists and dictionaries -/

variable {r : Ref}

theorem pieces_setList_self (hr : r < w.lists.size) (items : List Value) :
    (Value.list r).pieces (w.setList r items) = items := by
  simp [Value.pieces, setList, list, hr]

theorem pieces_setList_of_ne {v : Value} (hv : v ≠ .list r) (items : List Value) :
    v.pieces (w.setList r items) = v.pieces w := by
  cases v with
  | list s =>
    have hne : r ≠ s := fun heq => hv (heq ▸ rfl)
    simp [Value.pieces, setList, list, hne]
  | _ => rfl

theorem pieces_setDict_of_ne {v : Value} (hv : v ≠ .dict r) (entries : Entries) :
    v.pieces (w.setDict r entries) = v.pieces w := by
  cases v with
  | dict s =>
    have hne : r ≠ s := fun heq => hv (heq ▸ rfl)
    simp [Value.pieces, setDict, dict, hne]
  | _ => rfl

theorem Stores.setList {items : List Value} (hr : r < w.lists.size) (hthere : ∀ x ∈ stored, x ∈ items)
    (hrest : ∀ x ∈ items, x ∈ stored ∨ x ∈ w.list r) : w.Stores (w.setList r items) (.list r) stored where
  others v hv := pieces_setList_of_ne hv items
  there := by rwa [pieces_setList_self hr]
  rest := by rwa [pieces_setList_self hr]

theorem pieces_setDict_self (hr : r < w.dicts.size) (entries : Entries) :
    (Value.dict r).pieces (w.setDict r entries) = Value.sides entries := by
  rw [Value.pieces, dict_setDict_self hr]

theorem Stores.setDict {entries : Entries} (hr : r < w.dicts.size)
    (hthere : ∀ x ∈ stored, x ∈ Value.sides entries)
    (hrest : ∀ x ∈ Value.sides entries, x ∈ stored ∨ x ∈ Value.sides (w.dict r)) :
    w.Stores (w.setDict r entries) (.dict r) stored where
  others v hv := pieces_setDict_of_ne hv entries
  there := by rwa [pieces_setDict_self hr]
  rest := by rwa [pieces_setDict_self hr]

/-- Nothing lies in a new place. -/
theorem Stores.newList (items : List Value) :
    w.Stores { w with lists := w.lists.push items } (.list w.lists.size) items := by
  have hitems : (Value.list w.lists.size).pieces { w with lists := w.lists.push items } = items := by
    simp [Value.pieces, list]
  refine ⟨fun v hv => ?_, by rw [hitems]; exact fun _ hx => hx, by rw [hitems]; exact fun _ hx => .inl hx⟩
  cases v with
  | list s =>
    have hne : s ≠ w.lists.size := fun heq => hv (heq ▸ rfl)
    simp [Value.pieces, list, Array.getElem?_push, hne]
  | _ => rfl

theorem Stores.newDict (entries : Entries) :
    w.Stores { w with dicts := w.dicts.push entries } (.dict w.dicts.size) (Value.sides entries) := by
  have hentries : (Value.dict w.dicts.size).pieces { w with dicts := w.dicts.push entries } =
      Value.sides entries := by
    simp [Value.pieces, dict]
  refine ⟨fun v hv => ?_, by rw [hentries]; exact fun _ hx => hx, by rw [hentries]; exact fun _ hx => .inl hx⟩
  cases v with
  | dict s =>
    have hne : s ≠ w.dicts.size := fun heq => hv (heq ▸ rfl)
    simp [Value.pieces, dict, Array.getElem?_push, hne]
  | _ => rfl

end World

theorem iterate_eq_ok {v : Value} {w w' : World} {xs : List Value} (h : iterate v w = .ok (xs, w')) :
    ∃ k, w' = { w with identities := k } := by
  cases v with
  | str i s =>
    obtain ⟨found, k, hfound, -⟩ := World.mapM_newText s w
    cases hfound.symm.trans h
    exact ⟨k, rfl⟩
  | list r => cases h; exact ⟨_, rfl⟩
  | tuple i xs => cases h; exact ⟨_, rfl⟩
  | bytes b => cases h; exact ⟨_, rfl⟩
  | dict r => cases h; exact ⟨_, rfl⟩
  | range a b c => cases h; exact ⟨_, rfl⟩
  | _ => cases h

section

variable {w w' : World} {k x y : Value} {es : Entries}

theorem putEntry_of_lookupKey_none (h : lookupKey k es w = .ok (none, w)) :
    putEntry k x es w = .ok (es ++ [(k, x)], w) := by
  induction es with
  | nil => rfl
  | cons e es ih =>
    obtain ⟨b, hb, h⟩ := equal_bind_eq_ok.mp h
    cases b with
    | true => cases h
    | false =>
      rw [putEntry, op_bind (equal_eq_ok.mpr ⟨hb, rfl⟩), if_neg Bool.false_ne_true, op_bind (ih h)]
      rfl

theorem putEntry_of_lookupKey_some (h : lookupKey k es w = .ok (some y, w)) :
    ∃ before k' after, es = before ++ (k', y) :: after ∧
      putEntry k x es w = .ok (before ++ (k', x) :: after, w) := by
  induction es with
  | nil => cases h
  | cons e es ih =>
    obtain ⟨b, hb, h⟩ := equal_bind_eq_ok.mp h
    cases b with
    | true =>
      cases h
      refine ⟨[], e.1, es, rfl, ?_⟩
      rw [putEntry, op_bind (equal_eq_ok.mpr ⟨hb, rfl⟩), if_pos rfl]
      rfl
    | false =>
      obtain ⟨before, k', after, rfl, hput⟩ := ih h
      refine ⟨e :: before, k', after, rfl, ?_⟩
      rw [putEntry, op_bind (equal_eq_ok.mpr ⟨hb, rfl⟩), if_neg Bool.false_ne_true, op_bind hput]
      rfl

theorem dropKey_eq_ok {left : Entries} (h : dropKey k es w = .ok (left, w')) : left.Sublist es ∧ w' = w := by
  induction es generalizing left w' with
  | nil =>
    cases h
    exact ⟨.refl _, rfl⟩
  | cons e es ih =>
    obtain ⟨b, hb, h⟩ := equal_bind_eq_ok.mp h
    obtain ⟨⟨rest, w₁⟩, hrest, hleft⟩ := Except.bind_eq_ok.mp h
    obtain ⟨hsub, rfl⟩ := ih hrest
    cases b with
    | true =>
      cases hleft
      exact ⟨hsub.cons e, rfl⟩
    | false =>
      cases hleft
      exact ⟨hsub.cons_cons e, rfl⟩

end

/-! ### What programs do -/

section

variable {α β : Type} {w w' : World} {b : β}

theorem op_bind_eq_ok {x : Op α} {f : α → Op β} :
    (x >>= f) w = .ok (b, w') ↔ ∃ a w₁, x w = .ok (a, w₁) ∧ f a w₁ = .ok (b, w') := by
  change (x w >>= fun p => f p.1 p.2) = _ ↔ _
  rw [Except.bind_eq_ok, Prod.exists]

theorem get_bind_eq_ok {f : World → Op β} : (get >>= f) w = .ok (b, w') ↔ f w w = .ok (b, w') := .rfl

end

theorem lt_of_placeOf? {i : Int64} {length n : Nat} (h : placeOf? i length = some n) : n < length := by
  unfold placeOf? at h
  generalize (if i < 0 then i.toInt + (length : Int) else i.toInt) = j at h
  obtain ⟨hbounds, hn⟩ := Option.ite_none_right_eq_some.mp h
  cases hn
  simp only [Bool.and_eq_true, decide_eq_true_eq] at hbounds
  omega

section

variable {r : Ref} {w w' : World} {x v : Value}

/-- Taking an item out leaves the other items. -/
theorem popItem_eq_ok {index : Option Value} (h : popItem r index w = .ok (v, w')) :
    ∃ n < (w.list r).length, w' = w.setList r ((w.list r).eraseIdx n) := by
  -- Without an index, it is the last item.
  obtain ⟨u, h⟩ : ∃ u, popItem r (some u) w = .ok (v, w') := by
    cases index with
    | none => exact ⟨.int (-1), h⟩
    | some u => exact ⟨u, h⟩
  unfold popItem at h
  rw [get_bind_eq_ok] at h
  dsimp only at h
  split at h
  · cases h
  · obtain ⟨i, w₁, hi, h⟩ := op_bind_eq_ok.mp h
    have hsame : w₁ = w := by
      unfold integerOf at hi
      cases hu : u.asInt? with
      | none =>
        rw [hu] at hi
        cases hi
      | some j =>
        rw [hu] at hi
        cases hi
        rfl
    subst hsame
    cases hn : placeOf? i (w₁.list r).length with
    | none =>
      rw [hn] at h
      cases h
    | some n =>
      rw [hn] at h
      cases h
      exact ⟨n, lt_of_placeOf? hn, rfl⟩

theorem assignedPlace_eq_ok {i : Value} {length n : Nat} (h : assignedPlace i length w = .ok (n, w')) :
    n < length ∧ w' = w := by
  unfold assignedPlace at h
  cases hn : i.asInt?.bind (placeOf? · length) with
  | none =>
    rw [hn] at h
    cases h
  | some m =>
    rw [hn] at h
    cases h
    obtain ⟨j, -, hj⟩ := Option.bind_eq_some_iff.mp hn
    exact ⟨lt_of_placeOf? hj, rfl⟩

theorem setItem_list_eq_ok {i : Value} (h : setItem (.list r) i x w = .ok ((), w')) :
    ∃ n < (w.list r).length, w' = w.setList r ((w.list r).set n x) := by
  obtain ⟨n, w₁, hn, h⟩ := op_bind_eq_ok.mp (get_bind_eq_ok.mp h)
  obtain ⟨hlt, rfl⟩ := assignedPlace_eq_ok hn
  cases h
  exact ⟨n, hlt, rfl⟩

theorem setItem_dict_eq_ok {k : Value} {es : Entries} (hput : putEntry k x (w.dict r) w = .ok (es, w))
    (h : setItem (.dict r) k x w = .ok ((), w')) : w' = w.setDict r es := by
  obtain ⟨es', w₁, hput', h⟩ := op_bind_eq_ok.mp (get_bind_eq_ok.mp h)
  cases hput.symm.trans hput'
  cases h
  rfl

theorem deleteItem_list_eq_ok {i : Value} (h : deleteItem (.list r) i w = .ok ((), w')) :
    ∃ n < (w.list r).length, w' = w.setList r ((w.list r).eraseIdx n) := by
  obtain ⟨n, w₁, hn, h⟩ := op_bind_eq_ok.mp (get_bind_eq_ok.mp h)
  obtain ⟨hlt, rfl⟩ := assignedPlace_eq_ok hn
  cases h
  exact ⟨n, hlt, rfl⟩

theorem deleteItem_dict_eq_ok {k : Value} (h : deleteItem (.dict r) k w = .ok ((), w')) :
    ∃ left : Entries, left.Sublist (w.dict r) ∧ left.length ≠ (w.dict r).length ∧ w' = w.setDict r left := by
  obtain ⟨left, w₁, hleft, h⟩ := op_bind_eq_ok.mp (get_bind_eq_ok.mp h)
  obtain ⟨hsub, rfl⟩ := dropKey_eq_ok hleft
  by_cases hlength : left.length = (w₁.dict r).length
  · rw [if_pos hlength] at h
    cases h
  · rw [if_neg hlength] at h
    cases h
    exact ⟨left, hsub, hlength, rfl⟩

end

/-- **A change of a list or dictionary** by a program: the place that changes, and what is stored in it. -/
inductive World.Mutation (w : World) : Value → List Value → World → Prop
  /-- A new list. -/
  | newList {xs : List Value} {v : Value} {w' : World} (h : Op.newList xs w = .ok (v, w')) : Mutation w v xs w'
  /-- A new dictionary. -/
  | newDict {es : Entries} {v : Value} {w' : World} (h : Op.newDict es w = .ok (v, w')) :
      Mutation w v (Value.sides es) w'
  /-- `l.append(x)`. -/
  | append {r : Ref} {x : Value} {o : Ending} {w' : World} (hr : r < w.lists.size)
      (h : callMethod (.list r) .append [x] [] w = .ok (o, w')) : Mutation w (.list r) [x] w'
  /-- `l.extend(v)` stores the items of `v`. -/
  | extend {r : Ref} {v : Value} {xs : List Value} {o : Ending} {w₁ w' : World} (hr : r < w.lists.size)
      (hv : iterate v w = .ok (xs, w₁)) (h : callMethod (.list r) .extend [v] [] w = .ok (o, w')) :
      Mutation w (.list r) xs w'
  /-- `l += v` stores the items of `v`. -/
  | augment {r : Ref} {v u : Value} {xs : List Value} {w₁ w' : World} (hr : r < w.lists.size)
      (hv : iterate v w = .ok (xs, w₁)) (h : augmented .add (.list r) v w = .ok (u, w')) :
      Mutation w (.list r) xs w'
  /-- `l.pop()` and `l.pop(i)`. -/
  | pop {r : Ref} {index : Option Value} {v : Value} {w' : World} (h : popItem r index w = .ok (v, w')) :
      Mutation w (.list r) [] w'
  /-- `l[i] = x`. -/
  | setItem {r : Ref} {i x : Value} {w' : World} (h : setItem (.list r) i x w = .ok ((), w')) :
      Mutation w (.list r) [x] w'
  /-- `d[k] = x` where no key equals `k`. -/
  | newEntry {r : Ref} {k x : Value} {w' : World} (hr : r < w.dicts.size)
      (hk : lookupKey k (w.dict r) w = .ok (none, w)) (h : setItem (.dict r) k x w = .ok ((), w')) :
      Mutation w (.dict r) [k, x] w'
  /-- `d[k] = x` where a key equals `k`, which stays. -/
  | setEntry {r : Ref} {k x y : Value} {w' : World} (hk : lookupKey k (w.dict r) w = .ok (some y, w))
      (h : setItem (.dict r) k x w = .ok ((), w')) : Mutation w (.dict r) [x] w'
  /-- `del v[i]`. -/
  | deleteItem {v i : Value} {w' : World} (h : deleteItem v i w = .ok ((), w')) : Mutation w v [] w'

namespace World

variable {w w' : World} {r : Ref} {place : Value} {stored : List Value}

/-- Items are added to those of a list. -/
theorem Stores.grow (hr : r < w.lists.size) (xs : List Value) (k : Nat) :
    w.Stores ({ w with identities := k }.setList r (w.list r ++ xs)) (.list r) xs :=
  have h : w.Stores (w.setList r (w.list r ++ xs)) (.list r) xs :=
    .setList hr (fun _ hx => List.mem_append_right _ hx) fun _ hx => (List.mem_append.mp hx).symm
  ⟨h.others, h.there, h.rest⟩

theorem Stores.shrink {items : List Value} (hr : r < w.lists.size) (h : items.Sublist (w.list r)) :
    w.Stores (w.setList r items) (.list r) [] :=
  .setList hr (List.forall_mem_nil _) fun _ hx => .inr (h.subset hx)

theorem Stores.setItem {x : Value} {n : Nat} (hn : n < (w.list r).length) :
    w.Stores (w.setList r ((w.list r).set n x)) (.list r) [x] := by
  refine .setList (lt_size_of_mem_list (List.getElem_mem hn)) ?_ fun y hy => ?_
  · rw [List.forall_mem_singleton]
    exact List.mem_set hn x
  · rcases List.mem_or_eq_of_mem_set hy with hy | rfl
    · exact .inr hy
    · exact .inl List.mem_cons_self

/-- **A change stores something in its place.** -/
theorem Mutation.stores (h : w.Mutation place stored w') : w.Stores w' place stored := by
  cases h with
  | newList h =>
    cases h
    exact .newList _
  | newDict h =>
    cases h
    exact .newDict _
  | @append r x o _ hr h =>
    cases h
    exact .grow hr [x] w.identities
  | @extend r v _ o w₁ _ hr hv h =>
    have hextend : callList r .extend ⟨Method.extend.name, [v], []⟩ w =
        .ok (.none, w₁.setList r (w₁.list r ++ stored)) := by
      change (iterate v >>= fun extra => do
        modify fun w => w.setList r (w.list r ++ extra)
        return .none : Op Value) w = _
      rw [op_bind hv]
      rfl
    change (callList r .extend ⟨Method.extend.name, [v], []⟩ >>= fun u => pure (.ok u) : Op Ending) w = _ at h
    rw [op_bind hextend] at h
    cases h
    obtain ⟨k, rfl⟩ := iterate_eq_ok hv
    exact .grow hr stored k
  | @augment r v u _ w₁ _ hr hv h =>
    have haugment : augmented .add (.list r) v w = .ok (.list r, w₁.setList r (w₁.list r ++ stored)) :=
      op_bind hv
    cases haugment.symm.trans h
    obtain ⟨k, rfl⟩ := iterate_eq_ok hv
    exact .grow hr stored k
  | pop h =>
    obtain ⟨n, hn, rfl⟩ := popItem_eq_ok h
    exact .shrink (lt_size_of_mem_list (List.getElem_mem hn)) (List.eraseIdx_sublist _ _)
  | setItem h =>
    obtain ⟨n, hn, rfl⟩ := setItem_list_eq_ok h
    exact .setItem hn
  | @newEntry r k x _ hr hk h =>
    obtain rfl := setItem_dict_eq_ok (putEntry_of_lookupKey_none hk) h
    have hsides : Value.sides (w.dict r ++ [(k, x)]) = Value.sides (w.dict r) ++ [k, x] := List.flatMap_append
    refine .setDict hr ?_ ?_
    · exact hsides ▸ fun y hy => List.mem_append_right _ hy
    · exact hsides ▸ fun y hy => (List.mem_append.mp hy).symm
  | @setEntry r k x y _ hk h =>
    obtain ⟨before, k', after, hes, hput⟩ := putEntry_of_lookupKey_some (x := x) hk
    obtain rfl := setItem_dict_eq_ok hput h
    have hr : r < w.dicts.size := lt_size_of_mem_dict (e := (k', y)) (by simp [hes])
    refine .setDict hr ?_ ?_
    · simp [Value.sides]
    · intro z hz
      simp only [Value.sides, hes, List.flatMap_append, List.flatMap_cons, List.mem_append, List.mem_cons,
        List.not_mem_nil, or_false] at hz ⊢
      tauto
  | @deleteItem _ i _ h =>
    cases place with
    | list r =>
      obtain ⟨n, hn, rfl⟩ := deleteItem_list_eq_ok h
      exact .shrink (lt_size_of_mem_list (List.getElem_mem hn)) (List.eraseIdx_sublist _ _)
    | dict r =>
      obtain ⟨left, hsub, hlength, rfl⟩ := deleteItem_dict_eq_ok h
      have hr : r < w.dicts.size := by
        by_contra hr
        simp [dict, hr] at hsub hlength
        exact hlength hsub
      refine .setDict hr (List.forall_mem_nil _) fun x hx => .inr ?_
      obtain ⟨e, he, hx⟩ := List.mem_flatMap.mp hx
      exact List.mem_flatMap.mpr ⟨e, hsub.subset he, hx⟩
    | _ => cases h

/-- **A change keeps all values founded iff nothing that it stores meets the place.** -/
theorem Mutation.founded_iff (h : w.Mutation place stored w') (hw : ∀ v, w.Founded v) :
    (∀ v, w'.Founded v) ↔ ∀ x ∈ stored, ¬ w.Meets x place :=
  h.stores.founded_iff hw

/-- **What a program does to lists and dictionaries:** nothing, or a change that stores nothing in a place
that it meets. -/
inductive Proceeds (w w' : World) : Prop
  /-- Something else happens. -/
  | other (hlists : w'.lists = w.lists) (hdicts : w'.dicts = w.dicts)
  /-- Something changes. -/
  | change {place : Value} {stored : List Value} (h : w.Mutation place stored w')
      (hstored : ∀ x ∈ stored, ¬ w.Meets x place)

theorem pieces_congr (hlists : w'.lists = w.lists) (hdicts : w'.dicts = w.dicts) (v : Value) :
    v.pieces w' = v.pieces w := by
  cases v with
  | list r => simp [Value.pieces, list, hlists]
  | dict r => simp [Value.pieces, dict, hdicts]
  | _ => rfl

theorem Proceeds.founded (h : w.Proceeds w') (hw : ∀ v, w.Founded v) : ∀ v, w'.Founded v := by
  cases h with
  | change h hstored => exact (h.founded_iff hw).mpr hstored
  | other hlists hdicts =>
    intro v
    refine Subrelation.accessible (fun hx => ?_) (hw v)
    exact Value.piece_iff.mpr (pieces_congr hlists hdicts _ ▸ Value.piece_iff.mp hx)

/-- **However many steps are taken,** all values stay founded. -/
theorem founded_of_proceeds (h : Relation.ReflTransGen Proceeds w w') (hw : ∀ v, w.Founded v) :
    ∀ v, w'.Founded v := by
  induction h with
  | refl => exact hw
  | tail _ hstep ih => exact hstep.founded ih

/-- Nothing lies in itself at first. -/
theorem founded_empty (v : Value) : World.empty.Founded v := by
  induction hd : v.depth using Nat.strong_induction_on generalizing v with
  | _ d ih =>
    refine .intro v fun x hx => ?_
    rcases (containers_places .empty).piece hx with hlt | ⟨k, hk, -⟩
    · exact ih _ (hd ▸ hlt) x rfl
    · exact absurd hk (Finset.notMem_empty k)

end World

/-! ## Whether values are told -/

/-- **Values are shown and compared exactly as far as nothing in them lies in itself,** and exceptions are
reported as far as that holds of their arguments. A change of a list or dictionary makes something lie in itself
iff it stores what meets the place; as long as a program does not do that, nothing does. -/
theorem told_iff_not_circular (w : World) (v : Value) :
    ((w.show? v).isSome ↔ ¬ w.Circular v) ∧ ((w.read? v).isSome ↔ ¬ w.Circular v) ∧
    (∀ u, ¬ w.Circular u ∨ ¬ w.Circular v → (w.equal? u v).isSome) ∧
    (∀ (e : Exc) (filename : String), (e.traceback filename w).isSome ↔ ∀ a ∈ e.args, ¬ w.Circular a) ∧
    ((∀ x, ¬ w.Circular x) → ∀ (w' : World) (place : Value) (stored : List Value), w.Mutation place stored w' →
      ((∀ x, ¬ w'.Circular x) ↔ ∀ x ∈ stored, ¬ w.Meets x place)) ∧
    (Relation.ReflTransGen World.Proceeds World.empty w → ¬ w.Circular v) := by
  simp only [← World.founded_iff]
  refine ⟨World.isSome_showValue, World.isSome_readValue, fun u => World.isSome_equalValue, fun e filename => ?_,
    fun hw w' place stored h => h.founded_iff hw, fun h => World.founded_of_proceeds h World.founded_empty v⟩
  rw [Exc.traceback_apply, Option.isSome_map]
  exact World.isSome_message?

/-- A list in a list is told, and storing the outer one in the inner one makes them lie in themselves. -/
theorem told_iff_not_circular_nested :
    let w : World := { World.empty with lists := #[[], [.list 0]] }
    (w.show? (.list 1)).isSome ∧ (w.equal? (.list 0) (.list 1)).isSome ∧
      ∃ o w', callMethod (.list 0) .append [.list 1] [] w = .ok (o, w') ∧ ¬ ∀ v, ¬ w'.Circular v := by
  intro w
  let w₁ : World := { World.empty with lists := #[[]] }
  have hinner : World.empty.Mutation (.list 0) [] w₁ := .newList rfl
  have houter : w₁.Mutation (.list 1) [.list 0] w := .newList rfl
  have hempty : ¬ w₁.Meets (.list 0) (.list 1) := by
    intro h
    rcases h.cases_head with h | ⟨x, hx, -⟩
    · cases h
    · cases Value.piece_iff.mp hx
  have hsteps : Relation.ReflTransGen World.Proceeds World.empty w := by
    refine .tail (.single (.change hinner (List.forall_mem_nil _))) (.change houter ?_)
    rwa [List.forall_mem_singleton]
  have hw (v : Value) : ¬ w.Circular v := (told_iff_not_circular w v).2.2.2.2.2 hsteps
  obtain ⟨hshow, -, hequal, -, hmutation, -⟩ := told_iff_not_circular w (.list 1)
  refine ⟨hshow.mpr (hw _), hequal _ (.inl (hw _)), _, _, rfl, fun hall => ?_⟩
  have happend : w.Mutation (.list 0) [.list 1] (w.setList 0 [.list 1]) := .append (Nat.zero_lt_succ 1) rfl
  refine (hmutation hw _ _ _ happend).mp hall (.list 1) List.mem_cons_self (.single (.item ?_))
  exact List.mem_cons_self

/-- What a source binds to a name, and the world that it leaves. -/
def boundBy? (source : List Char) (name : String) : Option (Value × World) := do
  let code ← (compile source "<test>" .exec false).toOption
  let (_, w) ← evaluate code 0 (World.empty.newSpace .empty).2
  let v ← (w.space 0).get? name
  return (v, w)

/-- The number under which a dictionary has its only entry, and whether that entry is the dictionary itself. -/
def ownEntry? (v : Value) (w : World) : Option (Int64 × Bool) :=
  match v with
  | .dict r =>
    match w.dict r with
    | [(.int n, .dict s)] => some (n, r == s)
    | _ => none
  | _ => none

theorem eq_of_ownEntry? {v : Value} {w : World} {n : Int64} (h : ownEntry? v w = some (n, true)) :
    ∃ r, v = .dict r ∧ w.dict r = [(.int n, .dict r)] := by
  unfold ownEntry? at h
  split at h
  · split at h
    · rename_i hentries
      obtain ⟨rfl, hsame⟩ := Prod.mk.inj (Option.some.inj h)
      rw [← eq_of_beq hsame] at hentries
      exact ⟨_, rfl, hentries⟩
    · cases h
  · cases h

/-- A dictionary with nothing but itself as a value is not even compared with itself. -/
theorem World.equalValue_of_own_value {w : World} {r : Ref} {n : Int64} (h : w.dict r = [(.int n, .dict r)]) :
    w.equal? (.dict r) (.dict r) = none := by
  have hnone (m : Nat) : Lang.equal? m w (.dict r) (.dict r) = none := by
    induction m with
    | zero =>
      unfold Lang.equal?
      rfl
    | succ m ih =>
      unfold Lang.equal?
      cases m with
      | zero =>
        unfold Lang.equal?
        simp [h]
      | succ m => simp [h, ih, equal?_succ_int]
  exact hnone _

/-- Not all values can be shown, read or compared that a source binds to a name: one can be stored in
itself. -/
theorem stored_in_itself_not_told :
    ¬ (∀ source name v w, boundBy? source name = some (v, w) → (w.show? v).isSome) ∧
    ¬ (∀ source name v w, boundBy? source name = some (v, w) → (w.read? v).isSome) ∧
    ¬ (∀ source name v w, boundBy? source name = some (v, w) → (w.equal? v v).isSome) ∧
    (compile "def f():\n    a = []\n    a.append(a)\n    repr(a)\nf()\n".toList "<test>" .exec false).toOption.map
      (fun code => (evaluate code 0 (World.empty.newSpace .empty).2).isSome) = some false := by
  have hlist : (boundBy? "a = []\na.append(a)\n".toList "a").map (fun p =>
      ((p.2.show? p.1).isSome, (p.2.read? p.1).isSome)) = some (false, false) := by
    rw [String.toList_ofList]
    decide +kernel
  have hdict : (boundBy? "d = {}\nd[0] = d\n".toList "d").bind (fun p => ownEntry? p.1 p.2) = some (0, true) := by
    rw [String.toList_ofList]
    decide +kernel
  obtain ⟨⟨v, w⟩, ha, hv⟩ := Option.map_eq_some_iff.mp hlist
  obtain ⟨⟨u, w'⟩, hd, hu⟩ := Option.bind_eq_some_iff.mp hdict
  obtain ⟨hshow, hread⟩ := Prod.mk.inj hv
  refine ⟨fun h => ?_, fun h => ?_, fun h => ?_, ?_⟩
  · exact Bool.false_ne_true (hshow.symm.trans (h _ _ _ _ ha))
  · exact Bool.false_ne_true (hread.symm.trans (h _ _ _ _ ha))
  · have hequal := h _ _ _ _ hd
    obtain ⟨r, rfl, hentries⟩ := eq_of_ownEntry? hu
    rw [World.equalValue_of_own_value hentries] at hequal
    cases hequal
  · rw [String.toList_ofList]
    decide +kernel

end Transcript.Lang
