/-!
# Computations in steps

A computation of two steps that may fail succeeds where both steps do, and fails where one of them does. Of
many properties, computations have them one after the other if each of them has them; then computations over
lists have them as well.

Results:
* `bind_eq_ok`, `bind_eq_error`: the outcomes of two steps.
* `Agree.bind`: two computations side by side.
* `Related.bind`: two computations side by side that may fail for different reasons.
* `toOption_eq_some`: success, decided without the kinds of failure.
* `mem_of_mapM_eq_ok`, `exists_of_mapM_eq_ok`, `mapM_eq_error`: the outcomes of a list of steps.
* `length_of_mapM_eq_ok`, `getElem?_of_mapM_eq_ok`: there is one for each step, in the order of the steps.
* `Sequential.mapM`, `Sequential.foldlM`, `Sequential.forM`: properties, from the steps to the list.
-/

namespace Transcript.Except

variable {ε α β : Type}

theorem ok_bind (a : α) (f : α → Except ε β) : ((.ok a : Except ε α) >>= f) = f a := rfl

theorem bind_eq_ok {x : Except ε α} {f : α → Except ε β} {b : β} :
    (x >>= f) = .ok b ↔ ∃ a, x = .ok a ∧ f a = .ok b := by
  cases x with
  | error e =>
    constructor
    · intro h
      cases h
    · rintro ⟨_, h, _⟩
      cases h
  | ok a =>
    constructor
    · intro h
      exact ⟨a, rfl, h⟩
    · rintro ⟨_, h, hb⟩
      cases h
      exact hb

theorem bind_eq_error {x : Except ε α} {f : α → Except ε β} {e : ε} :
    (x >>= f) = .error e ↔ x = .error e ∨ ∃ a, x = .ok a ∧ f a = .error e := by
  cases x with
  | error e' =>
    constructor
    · intro h
      cases h
      exact .inl rfl
    · rintro (h | ⟨_, h, _⟩)
      · cases h
        rfl
      · cases h
  | ok a =>
    constructor
    · intro h
      exact .inr ⟨a, rfl, h⟩
    · rintro (h | ⟨_, h, hb⟩)
      · cases h
      · cases h
        exact hb

/-- **Computations that agree:** both fail for the same reason, or they have related results. -/
inductive Agree (R : α → β → Prop) : Except ε α → Except ε β → Prop
  | ok {a : α} {b : β} (h : R a b) : Agree R (.ok a) (.ok b)
  | error (e : ε) : Agree R (.error e) (.error e)

theorem Agree.bind {γ δ : Type} {R : α → β → Prop} {S : γ → δ → Prop} {x : Except ε α}
    {y : Except ε β} {f : α → Except ε γ} {g : β → Except ε δ} (h : Agree R x y)
    (hf : ∀ a b, x = .ok a → R a b → Agree S (f a) (g b)) : Agree S (x >>= f) (y >>= g) := by
  cases h with
  | ok h => exact hf _ _ rfl h
  | error e => exact .error e

/-- **Computations that are related:** both fail, for related reasons, or they have related results. -/
inductive Related {ε' : Type} (E : ε → ε' → Prop) (R : α → β → Prop) : Except ε α → Except ε' β → Prop
  | ok {a : α} {b : β} (h : R a b) : Related E R (.ok a) (.ok b)
  | error {e : ε} {e' : ε'} (h : E e e') : Related E R (.error e) (.error e')

theorem Related.bind {ε' γ δ : Type} {E : ε → ε' → Prop} {R : α → β → Prop} {S : γ → δ → Prop}
    {x : Except ε α} {y : Except ε' β} {f : α → Except ε γ} {g : β → Except ε' δ} (h : Related E R x y)
    (hf : ∀ a b, R a b → Related E S (f a) (g b)) : Related E S (x >>= f) (y >>= g) := by
  cases h with
  | ok h => exact hf _ _ h
  | error h => exact .error h

theorem toOption_eq_some {x : Except ε α} {a : α} : x.toOption = some a ↔ x = .ok a := by
  cases x with
  | error e =>
    constructor
    · intro h
      cases h
    · intro h
      cases h
  | ok b =>
    constructor
    · intro h
      cases h
      rfl
    · intro h
      cases h
      rfl

/-! ## Lists of computations -/

theorem mem_of_mapM_eq_ok {f : α → Except ε β} {l : List α} {l' : List β} (h : l.mapM f = .ok l')
    {b : β} (hb : b ∈ l') : ∃ a ∈ l, f a = .ok b := by
  induction l generalizing l' with
  | nil =>
    cases h
    exact absurd hb List.not_mem_nil
  | cons a as ih =>
    rw [List.mapM_cons] at h
    obtain ⟨b', ha, h⟩ := bind_eq_ok.mp h
    obtain ⟨bs, has, h⟩ := bind_eq_ok.mp h
    cases h
    rcases List.mem_cons.mp hb with rfl | hb
    · exact ⟨a, List.mem_cons_self, ha⟩
    · obtain ⟨c, hc, hcb⟩ := ih has hb
      exact ⟨c, List.mem_cons_of_mem a hc, hcb⟩

theorem exists_of_mapM_eq_ok {f : α → Except ε β} {l : List α} {l' : List β}
    (h : l.mapM f = .ok l') {a : α} (ha : a ∈ l) : ∃ b ∈ l', f a = .ok b := by
  induction l generalizing l' with
  | nil => exact absurd ha List.not_mem_nil
  | cons a' as ih =>
    rw [List.mapM_cons] at h
    obtain ⟨b, hb, h⟩ := bind_eq_ok.mp h
    obtain ⟨bs, hbs, h⟩ := bind_eq_ok.mp h
    cases h
    rcases List.mem_cons.mp ha with rfl | ha
    · exact ⟨b, List.mem_cons_self, hb⟩
    · obtain ⟨c, hc, hac⟩ := ih hbs ha
      exact ⟨c, List.mem_cons_of_mem b hc, hac⟩

theorem length_of_mapM_eq_ok {f : α → Except ε β} {l : List α} {l' : List β} (h : l.mapM f = .ok l') :
    l'.length = l.length := by
  induction l generalizing l' with
  | nil =>
    cases h
    rfl
  | cons a as ih =>
    rw [List.mapM_cons] at h
    obtain ⟨b, -, h⟩ := bind_eq_ok.mp h
    obtain ⟨bs, has, h⟩ := bind_eq_ok.mp h
    cases h
    rw [List.length_cons, List.length_cons, ih has]

theorem getElem?_of_mapM_eq_ok {f : α → Except ε β} {l : List α} {l' : List β}
    (h : l.mapM f = .ok l') {i : Nat} {b : β} (hb : l'[i]? = some b) :
    ∃ a, l[i]? = some a ∧ f a = .ok b := by
  induction l generalizing l' i with
  | nil =>
    cases h
    cases hb
  | cons a as ih =>
    rw [List.mapM_cons] at h
    obtain ⟨b', ha, h⟩ := bind_eq_ok.mp h
    obtain ⟨bs, has, h⟩ := bind_eq_ok.mp h
    cases h
    cases i with
    | zero =>
      cases hb
      exact ⟨a, rfl, ha⟩
    | succ i => exact ih has hb

theorem mapM_eq_error {f : α → Except ε β} {l : List α} {e : ε} (h : l.mapM f = .error e) :
    ∃ a ∈ l, f a = .error e := by
  induction l with
  | nil => cases h
  | cons a as ih =>
    rw [List.mapM_cons] at h
    rcases bind_eq_error.mp h with ha | ⟨b, -, h⟩
    · exact ⟨a, List.mem_cons_self, ha⟩
    · rcases bind_eq_error.mp h with has | ⟨bs, -, h⟩
      · obtain ⟨c, hc, hce⟩ := ih has
        exact ⟨c, List.mem_cons_of_mem a hc, hce⟩
      · cases h

end Transcript.Except

namespace Transcript

/-! ## Properties that sequencing keeps -/

/-- **A property of computations that sequencing keeps.** -/
structure Sequential (m : Type → Type) [Monad m] (P : ∀ α : Type, m α → Prop) : Prop where
  /-- Results have it. -/
  pure : ∀ {α : Type} (a : α), P α (Pure.pure a)
  /-- One computation after the other has it if each does. -/
  bind : ∀ {α β : Type} {x : m α} {f : α → m β}, P α x → (∀ a, P β (f a)) → P β (x >>= f)

namespace Sequential

variable {m : Type → Type} [Monad m] {P : ∀ α : Type, m α → Prop} {α β : Type}

theorem mapM [LawfulMonad m] (hP : Sequential m P) {f : α → m β} (h : ∀ a, P β (f a)) (l : List α) :
    P (List β) (l.mapM f) := by
  induction l with
  | nil => exact hP.pure []
  | cons a as ih =>
    rw [List.mapM_cons]
    exact hP.bind (h a) fun b => hP.bind ih fun bs => hP.pure (b :: bs)

theorem foldlM (hP : Sequential m P) {f : β → α → m β} (h : ∀ b a, P β (f b a)) (b : β) (l : List α) :
    P β (l.foldlM f b) := by
  induction l generalizing b with
  | nil => exact hP.pure b
  | cons a as ih =>
    rw [List.foldlM_cons]
    exact hP.bind (h b a) fun b' => ih b'

theorem forM (hP : Sequential m P) {f : α → m PUnit} (h : ∀ a, P PUnit (f a)) (l : List α) :
    P PUnit (l.forM f) := by
  induction l with
  | nil => exact hP.pure PUnit.unit
  | cons a as ih => exact hP.bind (h a) fun _ => ih

theorem mapM_option [LawfulMonad m] (hP : Sequential m P) {f : α → m β} (h : ∀ a, P β (f a))
    (o : Option α) : P (Option β) (o.mapM f) := by
  cases o with
  | none => exact hP.pure none
  | some a =>
    rw [Option.mapM_some, map_eq_pure_bind]
    exact hP.bind (h a) fun b => hP.pure (some b)

theorem forM_option (hP : Sequential m P) {f : α → m PUnit} (h : ∀ a, P PUnit (f a)) (o : Option α) :
    P PUnit (o.forM f) := by
  cases o with
  | none => exact hP.pure PUnit.unit
  | some a => exact h a

end Sequential

end Transcript
