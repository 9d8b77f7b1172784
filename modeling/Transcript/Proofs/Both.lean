import Transcript.Bindings
import Mathlib.Data.List.Forall2
import Mathlib.Data.Option.Basic

/-!
# Two results side by side

Two computations that are followed side by side come to results that are related: both succeed or both
fail, two lists have the same length, two maps bind the same names.

Results:
* `Except.Both.bind`: two steps on each side.
* `SequentialBoth.mapM`, `SequentialBoth.foldlM`: computations over lists, from their steps.
* `Bindings.Both.get?`, `Bindings.Both.insert`, `Bindings.Both.erase`: maps side by side.
* `both_getElem?`, `both_set`, `both_eraseIdx`: lists side by side.
* `forall₂_unique`, `exists_of_forall₂`: lists whose items are related one by one.
-/

namespace Transcript

/-! ## Computations that may fail -/

/-- **Two outcomes side by side:** both are failures, or both are results, and they are related. -/
inductive Except.Both {ε ε' α β : Type} (E : ε → ε' → Prop) (R : α → β → Prop) :
    Except ε α → Except ε' β → Prop
  | ok {a : α} {b : β} (h : R a b) : Both E R (.ok a) (.ok b)
  | error {e : ε} {e' : ε'} (h : E e e') : Both E R (.error e) (.error e')

namespace Except.Both

variable {ε ε' α β γ δ : Type} {E E' : ε → ε' → Prop} {R R' : α → β → Prop} {S : γ → δ → Prop}
  {x : Except ε α} {y : Except ε' β}

theorem bind {f : α → Except ε γ} {g : β → Except ε' δ} (h : Both E R x y)
    (hf : ∀ a b, R a b → Both E S (f a) (g b)) : Both E S (x >>= f) (y >>= g) := by
  cases h with
  | ok h => exact hf _ _ h
  | error h => exact .error h

theorem map {f : α → γ} {g : β → δ} (h : Both E R x y) (hf : ∀ a b, R a b → S (f a) (g b)) :
    Both E S (x.map f) (y.map g) := by
  cases h with
  | ok h => exact .ok (hf _ _ h)
  | error h => exact .error h

theorem mono (h : Both E R x y) (hE : ∀ e e', E e e' → E' e e') (hR : ∀ a b, R a b → R' a b) :
    Both E' R' x y := by
  cases h with
  | ok h => exact .ok (hR _ _ h)
  | error h => exact .error (hE _ _ h)

end Except.Both

/-! ## Lists -/

section

variable {α β : Type} {R : α → β → Prop} {xs : List α} {ys : List β}

/-- What is related may depend on what the second list contains. -/
theorem forall₂_of_mem {R' : α → β → Prop} (h : List.Forall₂ R xs ys)
    (hR : ∀ y ∈ ys, ∀ x, R x y → R' x y) : List.Forall₂ R' xs ys := by
  induction h with
  | nil => exact .nil
  | cons hy _ ih =>
    obtain ⟨hRy, hRys⟩ := List.forall_mem_cons.mp hR
    exact .cons (hRy _ hy) (ih hRys)

theorem forall₂_unique {R' : α → β → Prop} {zs : List β} (h : List.Forall₂ R xs ys)
    (h' : List.Forall₂ R' xs zs) (hu : ∀ y ∈ ys, ∀ x z, R x y → R' x z → y = z) : ys = zs := by
  induction h generalizing zs with
  | nil => cases h'; rfl
  | cons hy _ ih =>
    obtain ⟨huy, huys⟩ := List.forall_mem_cons.mp hu
    cases h' with
    | cons hz hzs => rw [huy _ _ hy hz, ih hzs huys]

theorem exists_of_forall₂ (h : List.Forall₂ R xs ys) {y : β} (hy : y ∈ ys) : ∃ x ∈ xs, R x y := by
  induction h with
  | nil => cases hy
  | cons hx _ ih =>
    rcases List.mem_cons.mp hy with rfl | hy
    · exact ⟨_, List.mem_cons_self, hx⟩
    · obtain ⟨x, hx, hR⟩ := ih hy
      exact ⟨x, List.mem_cons_of_mem _ hx, hR⟩

theorem both_getElem? (h : List.Forall₂ R xs ys) (i : Nat) : Option.Rel R xs[i]? ys[i]? := by
  induction h generalizing i with
  | nil => exact .none
  | cons hR _ ih =>
    cases i with
    | zero => exact .some hR
    | succ i => exact ih i

theorem both_getD {o : Option α} {o' : Option β} {a : α} {b : β} (h : Option.Rel R o o') (hab : R a b) :
    R (o.getD a) (o'.getD b) := by
  cases h with
  | some h => exact h
  | none => exact hab

theorem both_getD_list (h : List.Forall₂ R xs ys) (i : Nat) {a : α} {b : β} (hab : R a b) :
    R (xs.getD i a) (ys.getD i b) := by
  rw [List.getD_eq_getElem?_getD, List.getD_eq_getElem?_getD]
  exact both_getD (both_getElem? h i) hab

theorem both_head? (h : List.Forall₂ R xs ys) : Option.Rel R xs.head? ys.head? := by
  cases h with
  | nil => exact .none
  | cons hR _ => exact .some hR

theorem both_isEmpty (h : List.Forall₂ R xs ys) : ys.isEmpty = xs.isEmpty := by
  cases h <;> rfl

theorem both_isSome {o : Option α} {o' : Option β} (h : Option.Rel R o o') : o'.isSome = o.isSome := by
  cases h <;> rfl

theorem both_set (h : List.Forall₂ R xs ys) (i : Nat) {a : α} {b : β} (hab : R a b) :
    List.Forall₂ R (xs.set i a) (ys.set i b) := by
  induction h generalizing i with
  | nil => exact .nil
  | cons hR hs ih =>
    cases i with
    | zero => exact .cons hab hs
    | succ i => exact .cons hR (ih i)

theorem both_eraseIdx (h : List.Forall₂ R xs ys) (i : Nat) :
    List.Forall₂ R (xs.eraseIdx i) (ys.eraseIdx i) := by
  induction h generalizing i with
  | nil => exact .nil
  | cons hR hs ih =>
    cases i with
    | zero => exact hs
    | succ i => exact .cons hR (ih i)

theorem both_replicate (n : Nat) {a : α} {b : β} (hab : R a b) :
    List.Forall₂ R (List.replicate n a) (List.replicate n b) := by
  induction n with
  | zero => exact .nil
  | succ n ih => exact .cons hab ih

theorem both_map {γ : Type} {f : α → γ} {g : β → γ} (h : List.Forall₂ R xs ys) (hfg : ∀ a b, R a b → g b = f a) :
    ys.map g = xs.map f := by
  induction h with
  | nil => rfl
  | cons hR _ ih => rw [List.map_cons, List.map_cons, hfg _ _ hR, ih]

theorem both_zip {γ δ : Type} {S : γ → δ → Prop} {us : List γ} {vs : List δ} (h : List.Forall₂ R xs ys)
    (h' : List.Forall₂ S us vs) :
    List.Forall₂ (fun p q => R p.1 q.1 ∧ S p.2 q.2) (xs.zip us) (ys.zip vs) := by
  induction h generalizing us vs with
  | nil => exact .nil
  | cons hR _ ih =>
    cases h' with
    | nil => exact .nil
    | cons hS hs => exact .cons ⟨hR, hS⟩ (ih hs)

/-- The same search on both sides. -/
theorem both_find? {p : α → Bool} {q : β → Bool} (h : List.Forall₂ R xs ys)
    (hpq : ∀ a b, R a b → q b = p a) : Option.Rel R (xs.find? p) (ys.find? q) := by
  induction h with
  | nil => exact .none
  | @cons a b _ _ hR _ ih =>
    rw [List.find?_cons, List.find?_cons, hpq a b hR]
    cases p a with
    | true => exact .some hR
    | false => exact ih

/-- The same choice on both sides. -/
theorem both_filter {p : α → Bool} {q : β → Bool} (h : List.Forall₂ R xs ys)
    (hpq : ∀ a b, R a b → q b = p a) : List.Forall₂ R (xs.filter p) (ys.filter q) := by
  induction h with
  | nil => exact .nil
  | @cons a b _ _ hR _ ih =>
    rw [List.filter_cons, List.filter_cons, hpq a b hR]
    split
    · exact .cons hR ih
    · exact ih

theorem both_takeWhile {p : α → Bool} {q : β → Bool} (h : List.Forall₂ R xs ys)
    (hpq : ∀ a b, R a b → q b = p a) : List.Forall₂ R (xs.takeWhile p) (ys.takeWhile q) := by
  induction h with
  | nil => exact .nil
  | @cons a b _ _ hR _ ih =>
    rw [List.takeWhile_cons, List.takeWhile_cons, hpq a b hR]
    split
    · exact .cons hR ih
    · exact .nil

theorem both_dropWhile {p : α → Bool} {q : β → Bool} (h : List.Forall₂ R xs ys)
    (hpq : ∀ a b, R a b → q b = p a) : List.Forall₂ R (xs.dropWhile p) (ys.dropWhile q) := by
  induction h with
  | nil => exact .nil
  | @cons a b _ _ hR hs ih =>
    rw [List.dropWhile_cons, List.dropWhile_cons, hpq a b hR]
    split
    · exact ih
    · exact .cons hR hs

end

/-! ## Computations over lists -/

/-- **A relation of computations that sequencing keeps.** -/
structure SequentialBoth (m : Type → Type) [Monad m]
    (P : ∀ α β : Type, (α → β → Prop) → m α → m β → Prop) : Prop where
  /-- Related results are. -/
  pure : ∀ {α β : Type} {R : α → β → Prop} {a : α} {b : β}, R a b → P α β R (Pure.pure a) (Pure.pure b)
  /-- Computations one after the other are if each two are. -/
  bind : ∀ {α β γ δ : Type} {R : α → β → Prop} {S : γ → δ → Prop} {x : m α} {y : m β} {f : α → m γ}
    {g : β → m δ}, P α β R x y → (∀ a b, R a b → P γ δ S (f a) (g b)) → P γ δ S (x >>= f) (y >>= g)

namespace SequentialBoth

variable {m : Type → Type} [Monad m] {P : ∀ α β : Type, (α → β → Prop) → m α → m β → Prop}
  {α β γ δ : Type} {R : α → β → Prop} {S : γ → δ → Prop} {as : List α} {bs : List β}

theorem mapM [LawfulMonad m] (hP : SequentialBoth m P) {f : α → m γ} {g : β → m δ}
    (h : List.Forall₂ R as bs) (hf : ∀ a b, R a b → P γ δ S (f a) (g b)) :
    P (List γ) (List δ) (List.Forall₂ S) (as.mapM f) (bs.mapM g) := by
  induction h with
  | nil =>
    rw [List.mapM_nil, List.mapM_nil]
    exact hP.pure .nil
  | cons hR _ ih =>
    rw [List.mapM_cons, List.mapM_cons]
    exact hP.bind (hf _ _ hR) fun c d hS => hP.bind ih fun cs ds hSs => hP.pure (.cons hS hSs)

theorem foldlM (hP : SequentialBoth m P) {f : γ → α → m γ} {g : δ → β → m δ} (h : List.Forall₂ R as bs)
    (hf : ∀ c d a b, S c d → R a b → P γ δ S (f c a) (g d b)) {c : γ} {d : δ} (hcd : S c d) :
    P γ δ S (as.foldlM f c) (bs.foldlM g d) := by
  induction h generalizing c d with
  | nil => exact hP.pure hcd
  | cons hR _ ih => exact hP.bind (hf _ _ _ _ hcd hR) fun _ _ hS => ih hS

theorem forM (hP : SequentialBoth m P) {f : α → m PUnit} {g : β → m PUnit} (h : List.Forall₂ R as bs)
    (hf : ∀ a b, R a b → P PUnit PUnit (fun _ _ => True) (f a) (g b)) :
    P PUnit PUnit (fun _ _ => True) (as.forM f) (bs.forM g) := by
  induction h with
  | nil => exact hP.pure trivial
  | cons hR _ ih => exact hP.bind (hf _ _ hR) fun _ _ _ => ih

theorem mapM_option [LawfulMonad m] (hP : SequentialBoth m P) {f : α → m γ} {g : β → m δ} {o : Option α}
    {o' : Option β} (h : Option.Rel R o o') (hf : ∀ a b, R a b → P γ δ S (f a) (g b)) :
    P (Option γ) (Option δ) (Option.Rel S) (o.mapM f) (o'.mapM g) := by
  cases h with
  | none => exact hP.pure .none
  | some hR =>
    rw [Option.mapM_some, map_eq_pure_bind, Option.mapM_some, map_eq_pure_bind]
    exact hP.bind (hf _ _ hR) fun _ _ hS => hP.pure (.some hS)

theorem forM_option (hP : SequentialBoth m P) {f : α → m PUnit} {g : β → m PUnit} {o : Option α}
    {o' : Option β} (h : Option.Rel R o o')
    (hf : ∀ a b, R a b → P PUnit PUnit (fun _ _ => True) (f a) (g b)) :
    P PUnit PUnit (fun _ _ => True) (o.forM f) (o'.forM g) := by
  cases h with
  | none => exact hP.pure trivial
  | some hR => exact hf _ _ hR

end SequentialBoth

section

variable {m : Type → Type} [Monad m] {α β γ : Type} {R : α → β → Prop} {as : List α} {bs : List β}

/-- The same computation on both sides. -/
theorem both_mapM [LawfulMonad m] {f : α → m γ} {g : β → m γ} (h : List.Forall₂ R as bs)
    (hfg : ∀ a b, R a b → g b = f a) : bs.mapM g = as.mapM f := by
  induction h with
  | nil => rfl
  | cons hR _ ih => rw [List.mapM_cons, List.mapM_cons, hfg _ _ hR, ih]

theorem both_anyM {p : α → m Bool} {q : β → m Bool} (h : List.Forall₂ R as bs)
    (hpq : ∀ a b, R a b → q b = p a) : bs.anyM q = as.anyM p := by
  induction h with
  | nil => rfl
  | cons hR _ ih =>
    unfold List.anyM
    rw [hpq _ _ hR, ih]

theorem both_allM {p : α → m Bool} {q : β → m Bool} (h : List.Forall₂ R as bs)
    (hpq : ∀ a b, R a b → q b = p a) : bs.allM q = as.allM p := by
  induction h with
  | nil => rfl
  | cons hR _ ih =>
    unfold List.allM
    rw [hpq _ _ hR, ih]

end

theorem both_eq {α : Type} (as : List α) : List.Forall₂ (· = ·) as as :=
  List.forall₂_same.mpr fun _ _ => rfl

theorem both_eq_option {α : Type} (o : Option α) : Option.Rel (· = ·) o o := by
  cases o with
  | none => exact .none
  | some a => exact .some rfl

/-! ## Maps -/

/-- Entries of the same names, with related values. -/
abbrev Bindings.BothEntries {α β : Type} (R : α → β → Prop) : List (String × α) → List (String × β) → Prop :=
  List.Forall₂ fun e e' => e'.1 = e.1 ∧ R e.2 e'.2

/-- **Two maps side by side:** they bind the same names, to related values. -/
def Bindings.Both {α β : Type} (R : α → β → Prop) (b : Bindings α) (c : Bindings β) : Prop :=
  BothEntries R b.entries c.entries

namespace Bindings

variable {α β : Type} {R : α → β → Prop} {l : List (String × α)} {l' : List (String × β)}

theorem both_lookup (h : BothEntries R l l') (k : String) : Option.Rel R (lookup k l) (lookup k l') := by
  induction h with
  | nil => exact .none
  | @cons e e' _ _ hR _ ih =>
    obtain ⟨k₁, v₁⟩ := e
    obtain ⟨k₂, v₂⟩ := e'
    obtain ⟨hk, hv⟩ := hR
    change k₂ = k₁ at hk
    subst hk
    rw [lookup, lookup]
    split
    · exact .some hv
    · exact ih

theorem both_put (h : BothEntries R l l') (k : String) {x : α} {y : β} (hxy : R x y) :
    BothEntries R (put k x l) (put k y l') := by
  induction h with
  | nil => exact .cons ⟨rfl, hxy⟩ .nil
  | @cons e e' _ _ hR hs ih =>
    obtain ⟨k₁, v₁⟩ := e
    obtain ⟨k₂, v₂⟩ := e'
    obtain ⟨hk, hv⟩ := hR
    change k₂ = k₁ at hk
    subst hk
    rw [put, put]
    split
    · exact .cons ⟨rfl, hxy⟩ (.cons ⟨rfl, hv⟩ hs)
    · split
      · exact .cons ⟨rfl, hxy⟩ hs
      · exact .cons ⟨rfl, hv⟩ ih

namespace Both

variable {b : Bindings α} {c : Bindings β}

theorem empty : Both R (.empty : Bindings α) (.empty : Bindings β) := .nil

theorem get? (h : Both R b c) (k : String) : Option.Rel R (b.get? k) (c.get? k) := both_lookup h k

theorem contains (h : Both R b c) (k : String) : c.contains k = b.contains k := both_isSome (h.get? k)

theorem insert (h : Both R b c) (k : String) {x : α} {y : β} (hxy : R x y) :
    Both R (b.insert k x) (c.insert k y) :=
  both_put h k hxy

theorem update (h : Both R b c) {b' : Bindings α} {c' : Bindings β} (h' : Both R b' c') :
    Both R (b.update b') (c.update c') := by
  obtain ⟨l, hl⟩ := b'
  obtain ⟨l', hl'⟩ := c'
  change BothEntries R l l' at h'
  change Both R (b.insertAll l) (c.insertAll l')
  clear hl hl'
  induction h' generalizing b c with
  | nil => exact h
  | @cons e e' l l' he _ ih =>
    obtain ⟨k, v⟩ := e
    obtain ⟨k', v'⟩ := e'
    obtain ⟨hk, hv⟩ := he
    change k' = k at hk
    subst hk
    exact ih (h.insert k' hv)

theorem erase (h : Both R b c) (k : String) : Both R (b.erase k) (c.erase k) :=
  both_filter h fun e e' he => by rw [he.1]

end Both

end Bindings

end Transcript
