import Transcript.Lang.Order
import Transcript.Proofs.Except
import Transcript.Proofs.Lang.Datum
import Mathlib.Algebra.BigOperators.Ring.Finset
import Mathlib.Algebra.Order.BigOperators.Group.Finset

/-!
# The depth that is enough

Showing a value, comparing two values for equality and ordering them go down into lists and dictionaries
with so many levels left. Whatever comes out with some number of levels comes out with the number that a
world allows for: a way down that meets the same list twice has no end, so each list of the world is
counted once. Hence the forms of values and their order depend on no list or dictionary that is not met.

Results:
* `Descent.settles`: a recursion that has an answer has it at the depth of its places.
* `World.showValue_eq_some`, `World.message?_eq_some`: the forms of values, without a depth.
* `World.equalValue_eq_some`, `order_answer?`: equality and order, without a depth.
-/

namespace Transcript.Lang

/-! ## Recursions with levels left -/

/-- **A recursion on pieces:** without levels left it has no answer; with one more, its answer stands as
soon as those of the pieces do. -/
structure Descent {X β : Type} (F : Nat → X → Option β) (Piece : X → X → Prop) : Prop where
  /-- No answer without levels. -/
  zero : ∀ x, F 0 x = none
  /-- The answers of the pieces decide. -/
  succ : ∀ {n m : Nat} {x : X} {b : β}, F (n + 1) x = some b →
    (∀ x', Piece x x' → ∀ b', F n x' = some b' → F m x' = some b') → F (m + 1) x = some b

namespace Descent

variable {X K β : Type} {F : Nat → X → Option β} {Piece : X → X → Prop}

/-- An answer stands with more levels. -/
theorem mono (hF : Descent F Piece) {n m : Nat} {x : X} {b : β} (h : F n x = some b) (hnm : n ≤ m) :
    F m x = some b := by
  induction n generalizing m x b with
  | zero =>
    rw [hF.zero] at h
    cases h
  | succ n ih =>
    obtain ⟨m, rfl⟩ : ∃ k, m = k + 1 := ⟨m - 1, by omega⟩
    exact hF.succ h fun x' _ b' hx' => ih hx' (by omega)

/-- **Places** that a recursion can go through, and how deep pieces are nested outside of them: a piece lies
less deep, or inside a place. -/
structure Places (Piece : X → X → Prop) (depth : X → Nat) (places : Finset K) (at? : K → X)
    (inside : K → Nat) : Prop where
  /-- Nothing is nested less deep than once. -/
  pos : ∀ x, 0 < depth x
  /-- Pieces lie less deep, or inside a place. -/
  piece : ∀ {x x' : X}, Piece x x' → depth x' < depth x ∨ ∃ k ∈ places, x = at? k ∧ depth x' ≤ inside k

variable {depth : X → Nat} {places : Finset K} {at? : K → X} {inside : K → Nat}

/-- The places that have an answer with so many levels left. -/
def settled (F : Nat → X → Option β) (places : Finset K) (at? : K → X) (n : Nat) : Finset K :=
  places.filter fun k => (F n (at? k)).isSome

/-- How deep pieces are nested in places. -/
def weight (inside : K → Nat) (places : Finset K) : Nat := ∑ k ∈ places, (inside k + 1)

theorem weight_mono (inside : K → Nat) {s t : Finset K} (h : s ⊆ t) : weight inside s ≤ weight inside t :=
  Finset.sum_le_sum_of_subset h

/-- A place that gets its answer makes room for what lies inside it. -/
theorem weight_settled (inside : K → Nat) (hF : Descent F Piece) {n : Nat} {k : K} (hk : k ∈ places)
    (hnone : F n (at? k) = none) (hsome : (F (n + 1) (at? k)).isSome = true) :
    weight inside (settled F places at? n) + (inside k + 1) ≤
      weight inside (settled F places at? (n + 1)) := by
  classical
  have hnot : k ∉ settled F places at? n := by
    intro h
    have hn := (Finset.mem_filter.mp h).2
    rw [hnone] at hn
    cases hn
  have hsub : insert k (settled F places at? n) ⊆ settled F places at? (n + 1) := by
    intro j hj
    rcases Finset.mem_insert.mp hj with rfl | hj
    · exact Finset.mem_filter.mpr ⟨hk, hsome⟩
    · obtain ⟨hjp, hjn⟩ := Finset.mem_filter.mp hj
      obtain ⟨b, hb⟩ := Option.isSome_iff_exists.mp hjn
      refine Finset.mem_filter.mpr ⟨hjp, ?_⟩
      rw [hF.mono hb (Nat.le_succ n)]
      rfl
  have hle := weight_mono inside hsub
  unfold weight at hle ⊢
  rw [Finset.sum_insert hnot] at hle
  omega

theorem settled_subset (places : Finset K) (at? : K → X) (hF : Descent F Piece) (n : Nat) :
    settled F places at? n ⊆ settled F places at? (n + 1) := by
  intro k hk
  obtain ⟨hkp, hkn⟩ := Finset.mem_filter.mp hk
  obtain ⟨b, hb⟩ := Option.isSome_iff_exists.mp hkn
  refine Finset.mem_filter.mpr ⟨hkp, ?_⟩
  rw [hF.mono hb (Nat.le_succ n)]
  rfl

/-- The levels that the settled places make room for are enough. -/
theorem settles_at (hF : Descent F Piece) (hp : Places Piece depth places at? inside) {n : Nat} {x : X}
    {b : β} (h : F n x = some b) : F (weight inside (settled F places at? n) + depth x) x = some b := by
  induction n generalizing x b with
  | zero =>
    rw [hF.zero] at h
    cases h
  | succ n ih =>
    have hgrow := weight_mono inside (settled_subset places at? hF n)
    cases hn : F n x with
    | some b' =>
      have hb : b' = b := Option.some.inj ((hF.mono hn (Nat.le_succ n)).symm.trans h)
      subst hb
      exact hF.mono (ih hn) (by omega)
    | none =>
      have hpos := hp.pos x
      obtain ⟨m, hm⟩ : ∃ m, weight inside (settled F places at? (n + 1)) + depth x = m + 1 :=
        ⟨weight inside (settled F places at? (n + 1)) + depth x - 1, by omega⟩
      rw [hm]
      refine hF.succ h fun x' hx' b' hb' => hF.mono (ih hb') ?_
      rcases hp.piece hx' with hlt | ⟨k, hk, rfl, hle⟩
      · omega
      · have hroom := weight_settled inside hF hk hn (by rw [h]; rfl)
        omega

/-- **What has an answer has it at the depth of its places.** -/
theorem settles (hF : Descent F Piece) (hp : Places Piece depth places at? inside) {n m : Nat} {x : X}
    {b : β} (h : F n x = some b) (hm : weight inside places + depth x ≤ m) : F m x = some b := by
  have hle := weight_mono inside (Finset.filter_subset (fun k => (F n (at? k)).isSome) places)
  refine hF.mono (hF.settles_at hp h) ?_
  unfold settled
  omega

end Descent

/-! ## Forms -/

section

variable {α β : Type}

theorem mapM_of_imp {f g : α → Option β} {as : List α} {bs : List β} (h : as.mapM f = some bs)
    (hfg : ∀ a ∈ as, ∀ b, f a = some b → g a = some b) : as.mapM g = some bs := by
  induction as generalizing bs with
  | nil => exact h
  | cons a as ih =>
    obtain ⟨hga, hgas⟩ := List.forall_mem_cons.mp hfg
    rw [List.mapM_cons] at h ⊢
    obtain ⟨b, hb, h⟩ := Option.bind_eq_some_iff.mp h
    obtain ⟨bs', hbs, h⟩ := Option.bind_eq_some_iff.mp h
    rw [hga b hb, ih hbs hgas]
    exact h

end

namespace World

theorem lt_size_of_mem_list {w : World} {r : Ref} {v : Value} (h : v ∈ w.list r) : r < w.lists.size := by
  by_contra hr
  simp [list, hr] at h

theorem lt_size_of_mem_dict {w : World} {r : Ref} {e : Value × Value} (h : e ∈ w.dict r) :
    r < w.dicts.size := by
  by_contra hr
  simp [dict, hr] at h

/-- The lists and dictionaries of a world. -/
def containers (w : World) : Finset (Ref ⊕ Ref) := w.places.lists.disjSum w.places.dicts

/-- How deep values are nested in a list or dictionary. -/
def insideOf (w : World) : Ref ⊕ Ref → Nat :=
  Sum.elim (fun r => Value.depths (w.list r)) fun r => entryDepths (w.dict r)

theorem weight_containers (w : World) : Descent.weight w.insideOf w.containers = w.nesting := by
  rw [w.nesting_eq]
  exact Finset.sum_disjSum _ _ _

end World

/-- **What lies in a value.** -/
inductive Value.Piece (w : World) : Value → Value → Prop
  /-- Items of lists do. -/
  | item {r : Ref} {x : Value} (h : x ∈ w.list r) : Piece w (.list r) x
  /-- Keys of dictionaries do. -/
  | key {r : Ref} {e : Value × Value} (h : e ∈ w.dict r) : Piece w (.dict r) e.1
  /-- Values of dictionaries do. -/
  | value {r : Ref} {e : Value × Value} (h : e ∈ w.dict r) : Piece w (.dict r) e.2
  /-- Items of tuples do. -/
  | member {i : Nat} {xs : List Value} {x : Value} (h : x ∈ xs) : Piece w (.tuple i xs) x
  /-- Arguments of exceptions do. -/
  | argument {i : Nat} {k : ExceptionKind} {xs : List Value} {x : Value} (h : x ∈ xs) :
      Piece w (.exception i k xs) x

theorem Value.depth_pos (v : Value) : 0 < v.depth := by
  cases v <;> simp [Value.depth]

theorem Value.depth_le_depths {v : Value} {vs : List Value} (h : v ∈ vs) : v.depth ≤ Value.depths vs :=
  Value.depths_le_iff.mp (Nat.le_refl _) v h

theorem containers_places (w : World) :
    Descent.Places (Value.Piece w) Value.depth w.containers (Sum.elim .list .dict) w.insideOf where
  pos := Value.depth_pos
  piece h := by
    cases h with
    | @item r x h =>
      refine .inr ⟨.inl r, ?_, rfl, Value.depth_le_depths h⟩
      exact Finset.inl_mem_disjSum.mpr (Finset.mem_range.mpr (World.lt_size_of_mem_list h))
    | @key r e h =>
      refine .inr ⟨.inr r, ?_, rfl, (entryDepths_le_iff.mp (Nat.le_refl _) e h).1⟩
      exact Finset.inr_mem_disjSum.mpr (Finset.mem_range.mpr (World.lt_size_of_mem_dict h))
    | @value r e h =>
      refine .inr ⟨.inr r, ?_, rfl, (entryDepths_le_iff.mp (Nat.le_refl _) e h).2⟩
      exact Finset.inr_mem_disjSum.mpr (Finset.mem_range.mpr (World.lt_size_of_mem_dict h))
    | member h => exact .inl (Nat.lt_succ_of_le (Value.depth_le_depths h))
    | argument h => exact .inl (Nat.lt_succ_of_le (Value.depth_le_depths h))

theorem show?_descent (w : World) : Descent (fun n v => Lang.show? n w v) (Value.Piece w) where
  zero _ := rfl
  succ {n m v s} h hpieces := by
    cases v with
    | list r =>
      obtain ⟨parts, hparts, rfl⟩ := Option.map_eq_some_iff.mp h
      exact congrArg (Option.map _) (mapM_of_imp hparts fun x hx => hpieces x (.item hx))
    | tuple i xs =>
      obtain ⟨parts, hparts, rfl⟩ := Option.map_eq_some_iff.mp h
      exact congrArg (Option.map _) (mapM_of_imp hparts fun x hx => hpieces x (.member hx))
    | dict r =>
      obtain ⟨parts, hparts, rfl⟩ := Option.map_eq_some_iff.mp h
      refine congrArg (Option.map _) (mapM_of_imp hparts fun e he s hs => ?_)
      obtain ⟨k, hk, hs⟩ := Option.bind_eq_some_iff.mp hs
      obtain ⟨x, hx, hs⟩ := Option.bind_eq_some_iff.mp hs
      exact Option.bind_eq_some_iff.mpr ⟨k, hpieces e.1 (.key he) k hk,
        Option.bind_eq_some_iff.mpr ⟨x, hpieces e.2 (.value he) x hx, hs⟩⟩
    | exception i k xs =>
      obtain ⟨parts, hparts, rfl⟩ := Option.map_eq_some_iff.mp h
      exact congrArg (Option.map _) (mapM_of_imp hparts fun x hx => hpieces x (.argument hx))
    | bool b => cases b <;> exact h
    | _ => exact h

/-- A form comes out with the levels that a world allows for. -/
theorem show?_settles {w : World} {n m : Nat} {v : Value} {s : List Char} (h : Lang.show? n w v = some s)
    (hm : w.nesting + v.depth ≤ m) : Lang.show? m w v = some s :=
  (show?_descent w).settles (containers_places w) h (by rwa [w.weight_containers])

theorem World.showValue_eq_some {w : World} {v : Value} {s : List Char} :
    w.show? v = some s ↔ ∃ n, Lang.show? n w v = some s := by
  constructor
  · exact fun h => ⟨_, h⟩
  · rintro ⟨n, h⟩
    refine show?_settles h ?_
    unfold World.depthFor
    omega

mutual

theorem read?_settles {w : World} {n m : Nat} {v : Value} {s : List Char} (h : Lang.read? n w v = some s)
    (hm : w.nesting + 2 * v.depth < m) : Lang.read? m w v = some s := by
  obtain ⟨m, rfl⟩ : ∃ k, m = k + 1 := ⟨m - 1, by omega⟩
  cases n with
  | zero => cases h
  | succ n =>
    cases v with
    | str i t => exact h
    | exception i k args =>
      have hargs : (Value.exception i k args).depth = Value.depths args + 1 := rfl
      exact excMessage?_settles (n := n) h (by omega)
    | _ => exact show?_settles (n := n + 1) h (by omega)

theorem excMessage?_settles {w : World} {n m : Nat} {k : ExceptionKind} {args : List Value} {s : List Char}
    (h : excMessage? n w k args = some s) (hm : w.nesting + 2 * Value.depths args + 1 < m) :
    excMessage? m w k args = some s := by
  obtain ⟨m, rfl⟩ : ∃ k, m = k + 1 := ⟨m - 1, by omega⟩
  cases n with
  | zero => cases h
  | succ n =>
    match args with
    | [] => exact h
    | [arg] =>
      have hdepth : Value.depths [arg] = max arg.depth 0 := rfl
      unfold excMessage? at h ⊢
      dsimp only at h ⊢
      split
      · rename_i hk
        rw [if_pos hk] at h
        exact show?_settles h (by omega)
      · rename_i hk
        rw [if_neg hk] at h
        exact read?_settles h (by omega)
    | a :: b :: rest =>
      obtain ⟨parts, hparts, rfl⟩ := Option.map_eq_some_iff.mp h
      refine congrArg (Option.map _) (mapM_of_imp hparts fun x hx s hs => show?_settles hs ?_)
      have hx' := Value.depth_le_depths hx
      omega

end

theorem World.readValue_eq_some {w : World} {v : Value} {s : List Char} :
    w.read? v = some s ↔ ∃ n, Lang.read? n w v = some s := by
  constructor
  · exact fun h => ⟨_, h⟩
  · rintro ⟨n, h⟩
    refine read?_settles h ?_
    unfold World.depthFor
    omega

theorem World.message?_eq_some {w : World} {e : Raised} {s : List Char} :
    w.message? e = some s ↔ ∃ n, excMessage? n w e.kind e.args = some s := by
  constructor
  · exact fun h => ⟨_, h⟩
  · rintro ⟨n, h⟩
    refine excMessage?_settles h ?_
    have hdepth : (Value.tuple 0 e.args).depth = Value.depths e.args + 1 := rfl
    unfold World.depthFor
    omega

/-! ## Equality -/

/-- **What lies in two values** that are compared. -/
inductive Value.PairPiece (w : World) : Value × Value → Value × Value → Prop
  /-- Items of two lists do. -/
  | items {r s : Ref} {x y : Value} (hx : x ∈ w.list r) (hy : y ∈ w.list s) :
      PairPiece w (.list r, .list s) (x, y)
  /-- Items of two tuples do. -/
  | members {i j : Nat} {xs ys : List Value} {x y : Value} (hx : x ∈ xs) (hy : y ∈ ys) :
      PairPiece w (.tuple i xs, .tuple j ys) (x, y)
  /-- Keys of two dictionaries do. -/
  | keys {r s : Ref} {e e' : Value × Value} (he : e ∈ w.dict r) (he' : e' ∈ w.dict s) :
      PairPiece w (.dict r, .dict s) (e.1, e'.1)
  /-- Values of two dictionaries do. -/
  | values {r s : Ref} {e e' : Value × Value} (he : e ∈ w.dict r) (he' : e' ∈ w.dict s) :
      PairPiece w (.dict r, .dict s) (e.2, e'.2)

namespace World

/-- The pairs of lists and the pairs of dictionaries of a world. -/
def containerPairs (w : World) : Finset ((Ref × Ref) ⊕ (Ref × Ref)) :=
  (w.places.lists ×ˢ w.places.lists).disjSum (w.places.dicts ×ˢ w.places.dicts)

/-- The values of a pair of places. -/
def pairAt : (Ref × Ref) ⊕ (Ref × Ref) → Value × Value :=
  Sum.elim (fun p => (.list p.1, .list p.2)) fun p => (.dict p.1, .dict p.2)

/-- How deep values are nested in a pair of places. -/
def insidePair (w : World) : (Ref × Ref) ⊕ (Ref × Ref) → Nat :=
  Sum.elim (fun p => w.insideOf (.inl p.1) + w.insideOf (.inl p.2))
    fun p => w.insideOf (.inr p.1) + w.insideOf (.inr p.2)

theorem weight_product_le (f : Ref → Nat) (s : Finset Ref) :
    ∑ p ∈ s ×ˢ s, (f p.1 + f p.2 + 1) ≤ (∑ r ∈ s, (f r + 1)) * ∑ r ∈ s, (f r + 1) := by
  rw [Finset.sum_mul_sum, ← Finset.sum_product']
  refine Finset.sum_le_sum fun p _ => ?_
  rw [Nat.add_mul, Nat.mul_add]
  omega

theorem weight_containerPairs_le (w : World) :
    Descent.weight w.insidePair w.containerPairs ≤ w.nesting * w.nesting := by
  have hlists := weight_product_le (fun r => w.insideOf (.inl r)) w.places.lists
  have hdicts := weight_product_le (fun r => w.insideOf (.inr r)) w.places.dicts
  have hsum : Descent.weight w.insidePair w.containerPairs =
      ∑ p ∈ w.places.lists ×ˢ w.places.lists, (w.insideOf (.inl p.1) + w.insideOf (.inl p.2) + 1) +
        ∑ p ∈ w.places.dicts ×ˢ w.places.dicts, (w.insideOf (.inr p.1) + w.insideOf (.inr p.2) + 1) :=
    Finset.sum_disjSum _ _ _
  have hnesting : w.nesting =
      ∑ r ∈ w.places.lists, (w.insideOf (.inl r) + 1) + ∑ r ∈ w.places.dicts, (w.insideOf (.inr r) + 1) :=
    w.nesting_eq
  rw [hsum, hnesting]
  refine Nat.le_trans (Nat.add_le_add hlists hdicts) ?_
  rw [Nat.add_mul, Nat.mul_add, Nat.mul_add]
  omega

end World

theorem containerPairs_places (w : World) :
    Descent.Places (Value.PairPiece w) (fun p => p.1.depth + p.2.depth) w.containerPairs World.pairAt
      w.insidePair where
  pos p := Nat.add_pos_left p.1.depth_pos _
  piece h := by
    cases h with
    | @items r s x y hx hy =>
      refine .inr ⟨.inl (r, s), ?_, rfl, ?_⟩
      · refine Finset.inl_mem_disjSum.mpr (Finset.mem_product.mpr ⟨?_, ?_⟩)
        · exact Finset.mem_range.mpr (World.lt_size_of_mem_list hx)
        · exact Finset.mem_range.mpr (World.lt_size_of_mem_list hy)
      · exact Nat.add_le_add (Value.depth_le_depths hx) (Value.depth_le_depths hy)
    | members hx hy =>
      refine .inl (Nat.add_lt_add ?_ ?_)
      · exact Nat.lt_succ_of_le (Value.depth_le_depths hx)
      · exact Nat.lt_succ_of_le (Value.depth_le_depths hy)
    | @keys r s e e' he he' =>
      refine .inr ⟨.inr (r, s), ?_, rfl, ?_⟩
      · refine Finset.inr_mem_disjSum.mpr (Finset.mem_product.mpr ⟨?_, ?_⟩)
        · exact Finset.mem_range.mpr (World.lt_size_of_mem_dict he)
        · exact Finset.mem_range.mpr (World.lt_size_of_mem_dict he')
      · have hle := entryDepths_le_iff.mp (Nat.le_refl _) e he
        have hle' := entryDepths_le_iff.mp (Nat.le_refl _) e' he'
        exact Nat.add_le_add hle.1 hle'.1
    | @values r s e e' he he' =>
      refine .inr ⟨.inr (r, s), ?_, rfl, ?_⟩
      · refine Finset.inr_mem_disjSum.mpr (Finset.mem_product.mpr ⟨?_, ?_⟩)
        · exact Finset.mem_range.mpr (World.lt_size_of_mem_dict he)
        · exact Finset.mem_range.mpr (World.lt_size_of_mem_dict he')
      · have hle := entryDepths_le_iff.mp (Nat.le_refl _) e he
        have hle' := entryDepths_le_iff.mp (Nat.le_refl _) e' he'
        exact Nat.add_le_add hle.2 hle'.2

section

variable {test test' : Value → Value → Option Bool}

theorem allPairs?_of_imp {xs ys : List Value} {b : Bool} (h : allPairs? test xs ys = some b)
    (ht : ∀ x ∈ xs, ∀ y ∈ ys, ∀ b, test x y = some b → test' x y = some b) :
    allPairs? test' xs ys = some b := by
  induction xs generalizing ys with
  | nil => cases ys <;> exact h
  | cons x xs ih =>
    cases ys with
    | nil => exact h
    | cons y ys =>
      obtain ⟨c, hc, h⟩ := Option.bind_eq_some_iff.mp h
      refine Option.bind_eq_some_iff.mpr
        ⟨c, ht x List.mem_cons_self y List.mem_cons_self c hc, ?_⟩
      cases c with
      | false => exact h
      | true =>
        exact ih h fun x hx y hy => ht x (List.mem_cons_of_mem _ hx) y (List.mem_cons_of_mem _ hy)

end

section

variable {α : Type} {p q : α → Option Bool}

theorem anyM_of_imp {as : List α} {b : Bool} (h : as.anyM p = some b)
    (hpq : ∀ a ∈ as, ∀ b, p a = some b → q a = some b) : as.anyM q = some b := by
  induction as with
  | nil => exact h
  | cons a as ih =>
    obtain ⟨hqa, hqas⟩ := List.forall_mem_cons.mp hpq
    obtain ⟨c, hc, h⟩ := Option.bind_eq_some_iff.mp h
    refine Option.bind_eq_some_iff.mpr ⟨c, hqa c hc, ?_⟩
    cases c with
    | true => exact h
    | false => exact ih h hqas

theorem allM_of_imp {as : List α} {b : Bool} (h : as.allM p = some b)
    (hpq : ∀ a ∈ as, ∀ b, p a = some b → q a = some b) : as.allM q = some b := by
  induction as with
  | nil => exact h
  | cons a as ih =>
    obtain ⟨hqa, hqas⟩ := List.forall_mem_cons.mp hpq
    obtain ⟨c, hc, h⟩ := Option.bind_eq_some_iff.mp h
    refine Option.bind_eq_some_iff.mpr ⟨c, hqa c hc, ?_⟩
    cases c with
    | false => exact h
    | true => exact ih h hqas

end

theorem equalItems_of_imp {w : World} {n m : Nat} {same : Bool} {xs ys : List Value} {b : Bool}
    (h : equal?.equalItems n w same xs ys = some b)
    (ht : ∀ x ∈ xs, ∀ y ∈ ys, ∀ b, Lang.equal? n w x y = some b → Lang.equal? m w x y = some b) :
    equal?.equalItems m w same xs ys = some b := by
  unfold equal?.equalItems at h ⊢
  split
  · rename_i hsame
    rwa [if_pos hsame] at h
  · rename_i hsame
    rw [if_neg hsame] at h
    split
    · rename_i hlength
      rwa [if_pos hlength] at h
    · rename_i hlength
      rw [if_neg hlength] at h
      exact allPairs?_of_imp h ht

theorem equal?_descent (w : World) :
    Descent (fun n p => Lang.equal? n w p.1 p.2) (Value.PairPiece w) where
  zero _ := by
    unfold Lang.equal?
    rfl
  succ {n m p b} h hpieces := by
    obtain ⟨u, v⟩ := p
    have hpair (x y : Value) (hxy : Value.PairPiece w (u, v) (x, y)) (b : Bool)
        (hb : Lang.equal? n w x y = some b) : Lang.equal? m w x y = some b := hpieces (x, y) hxy b hb
    dsimp only at h ⊢
    unfold Lang.equal? at h ⊢
    cases u with
    | list r =>
      cases v with
      | list s => exact equalItems_of_imp h fun x hx y hy => hpair x y (.items hx hy)
      | _ => exact h
    | tuple i xs =>
      cases v with
      | tuple j ys => exact equalItems_of_imp h fun x hx y hy => hpair x y (.members hx hy)
      | _ => exact h
    | dict r =>
      cases v with
      | dict s =>
        dsimp only at h ⊢
        split
        · rename_i hlength
          rwa [if_pos hlength] at h
        · rename_i hlength
          rw [if_neg hlength] at h
          refine allM_of_imp h fun e he b hb => anyM_of_imp hb fun e' he' c hc => ?_
          obtain ⟨k, hk, hc⟩ := Option.bind_eq_some_iff.mp hc
          refine Option.bind_eq_some_iff.mpr ⟨k, hpair e.1 e'.1 (.keys he he') k hk, ?_⟩
          cases k with
          | false => exact hc
          | true => exact hpair e.2 e'.2 (.values he he') c hc
      | _ => exact h
    | _ => cases v <;> exact h

/-- Whether two values are equal comes out with the levels that a world allows for. -/
theorem World.equalValue_eq_some {w : World} {u v : Value} {b : Bool} :
    w.equal? u v = some b ↔ ∃ n, Lang.equal? n w u v = some b := by
  constructor
  · exact fun h => ⟨_, h⟩
  · rintro ⟨n, h⟩
    refine (equal?_descent w).settles (containerPairs_places w) (x := (u, v)) h ?_
    have hle := w.weight_containerPairs_le
    dsimp only
    unfold World.equalDepth
    omega

/-! ## Order -/

/-- **What an operation comes to,** unless it finds no end. -/
def Op.answer? {α : Type} (x : Op α) (w : World) : Option (Except Problem (α × World)) :=
  match x w with
  | .error .endless => none
  | r => some r

theorem answer?_equal_bind {α : Type} (x y : Value) (f : Bool → Op α) (w : World) :
    Op.answer? (equal x y >>= f) w = (w.equal? x y).bind fun b => (f b).answer? w := by
  change Op.answer? (Op.ofOption (w.equal? x y) >>= f) w = _
  cases w.equal? x y <;> rfl

theorem items_of_imp {symbol : String} {w : World} {n m : Nat} {xs ys : List Value}
    {r : Except Problem (Ordering × World)} (h : (compareValues.items symbol n xs ys).answer? w = some r)
    (ht : ∀ x ∈ xs, ∀ y ∈ ys, ∀ r, (compareValues symbol n x y).answer? w = some r →
      (compareValues symbol m x y).answer? w = some r) :
    (compareValues.items symbol m xs ys).answer? w = some r := by
  induction xs generalizing ys with
  | nil =>
    unfold compareValues.items at h ⊢
    exact h
  | cons x xs ih =>
    cases ys with
    | nil =>
      unfold compareValues.items at h ⊢
      exact h
    | cons y ys =>
      unfold compareValues.items at h ⊢
      rw [answer?_equal_bind] at h ⊢
      obtain ⟨b, hb, h⟩ := Option.bind_eq_some_iff.mp h
      refine Option.bind_eq_some_iff.mpr ⟨b, hb, ?_⟩
      cases b with
      | false => exact ht x List.mem_cons_self y List.mem_cons_self r h
      | true =>
        exact ih h fun x hx y hy => ht x (List.mem_cons_of_mem _ hx) y (List.mem_cons_of_mem _ hy)

theorem compareValues_descent (symbol : String) (w : World) :
    Descent (fun n p => (compareValues symbol n p.1 p.2).answer? w) (Value.PairPiece w) where
  zero _ := by
    unfold compareValues
    rfl
  succ {n m p r} h hpieces := by
    obtain ⟨u, v⟩ := p
    have hpair (x y : Value) (hxy : Value.PairPiece w (u, v) (x, y)) (r : Except Problem (Ordering × World))
        (hr : (compareValues symbol n x y).answer? w = some r) :
        (compareValues symbol m x y).answer? w = some r := hpieces (x, y) hxy r hr
    dsimp only at h ⊢
    unfold compareValues at h ⊢
    cases u with
    | list a =>
      cases v with
      | list b => exact items_of_imp h fun x hx y hy => hpair x y (.items hx hy)
      | _ => exact h
    | tuple i xs =>
      cases v with
      | tuple j ys => exact items_of_imp h fun x hx y hy => hpair x y (.members hx hy)
      | _ => exact h
    | _ => cases v <;> exact h

/-- The order of two values comes out with the levels that a world allows for. -/
theorem order_answer? {symbol : String} {w : World} {u v : Value} {r : Except Problem (Ordering × World)} :
    (order symbol u v).answer? w = some r ↔ ∃ n, (compareValues symbol n u v).answer? w = some r := by
  constructor
  · exact fun h => ⟨_, h⟩
  · rintro ⟨n, h⟩
    have hle := w.weight_containerPairs_le
    refine (compareValues_descent symbol w).settles (containerPairs_places w) (x := (u, v)) h ?_
    dsimp only
    unfold World.equalDepth
    omega

end Transcript.Lang
