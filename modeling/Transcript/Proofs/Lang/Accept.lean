import Transcript.Lang.Reader

/-!
# Readers that accept tokens

A reader accepts a list of tokens if it goes past them and no further wherever they stand, as long as the
token behind them does not go on with what it reads. What a reader accepts follows the way it is written:
there is one rule for each thing a reader does.

Results:
* `Accepts.bind`: one after the other, readers accept lists of tokens that follow each other.
* `Accepts.eat_bind`, `Accepts.next_bind`, `Accepts.expect_bind`: the rules of the primitive readers.
-/

namespace Transcript.Lang.Reader

/-- The tokens of a stream up to the rest. -/
def Begins (ts : List Token) (s rest : List Placed) : Prop :=
  ∃ ps, s = ps ++ rest ∧ ps.map Placed.token = ts

namespace Begins

variable {t : Token} {ts us : List Token} {s rest : List Placed}

theorem nil_iff : Begins [] s rest ↔ s = rest := by
  constructor
  · rintro ⟨ps, rfl, hps⟩
    rw [List.map_eq_nil_iff.mp hps, List.nil_append]
  · rintro rfl
    exact ⟨[], rfl, rfl⟩

theorem cons_iff : Begins (t :: ts) s rest ↔ ∃ p s', s = p :: s' ∧ p.token = t ∧ Begins ts s' rest := by
  constructor
  · rintro ⟨ps, rfl, hps⟩
    obtain ⟨p, ps, rfl, hp, hps⟩ := List.map_eq_cons_iff.mp hps
    exact ⟨p, ps ++ rest, rfl, hp, ps, rfl, hps⟩
  · rintro ⟨p, s', rfl, hp, ps, rfl, hps⟩
    exact ⟨p :: ps, rfl, by rw [List.map_cons, hp, hps]⟩

theorem append_iff : Begins (ts ++ us) s rest ↔ ∃ mid, Begins ts s mid ∧ Begins us mid rest := by
  constructor
  · rintro ⟨ps, rfl, hps⟩
    obtain ⟨ps, qs, rfl, hps, hqs⟩ := List.map_eq_append_iff.mp hps
    exact ⟨qs ++ rest, ⟨ps, List.append_assoc .., hps⟩, qs, rfl, hqs⟩
  · rintro ⟨mid, ⟨ps, rfl, hps⟩, qs, rfl, hqs⟩
    exact ⟨ps ++ qs, (List.append_assoc ..).symm, by rw [List.map_append, hps, hqs]⟩

/-- What begins with tokens before some token goes on with a token. -/
theorem exists_cons {q : Placed} {qs : List Placed} (h : Begins ts s (q :: qs)) :
    ∃ p s', s = p :: s' := by
  cases ts with
  | nil => exact ⟨q, qs, nil_iff.mp h⟩
  | cons t ts =>
    obtain ⟨p, s', rfl, -, -⟩ := cons_iff.mp h
    exact ⟨p, s', rfl⟩

end Begins

/-- What is true of the first of some tokens, or of what follows them if there are none. -/
def Ahead (P : Token → Prop) (ts : List Token) (Q : Token → Prop) : Prop :=
  match ts with
  | [] => ∀ q, Q q → P q
  | t :: _ => P t

theorem Ahead.mono {P P' Q : Token → Prop} {ts : List Token} (h : Ahead P ts Q)
    (hP : ∀ t, P t → P' t) : Ahead P' ts Q := by
  cases ts with
  | nil => exact fun q hq => hP q (h q hq)
  | cons t ts => exact hP t h

theorem Ahead.any {Q : Token → Prop} {ts : List Token} : Ahead (fun _ => True) ts Q := by
  cases ts with
  | nil => exact fun _ _ => trivial
  | cons t ts => trivial

/-- The first token of a stream that begins with such tokens. -/
theorem Ahead.head {P Q : Token → Prop} {ts : List Token} (h : Ahead P ts Q) {p q : Placed}
    {s qs : List Placed} (hs : Begins ts (p :: s) (q :: qs)) (hq : Q q.token) : P p.token := by
  cases ts with
  | nil =>
    cases Begins.nil_iff.mp hs
    exact h _ hq
  | cons t ts =>
    obtain ⟨p, s', he, rfl, -⟩ := Begins.cons_iff.mp hs
    cases he
    exact h

/-- **A reader accepts tokens:** if they are followed by a token with a property, it goes past them and
has a result with a property. -/
def Accepts {α : Type} (x : Reader α) (ts : List Token) (A : α → Prop) (Q : Token → Prop) : Prop :=
  ∀ s q qs, Begins ts s (q :: qs) → Q q.token → ∃ a, A a ∧ x s = .ok (a, q :: qs)

namespace Accepts

variable {α β : Type} {x : Reader α} {ts us : List Token} {t u : Token} {A A' : α → Prop} {B : β → Prop}
  {P Q Q' : Token → Prop}

theorem mono (h : Accepts x ts A Q) (hA : ∀ a, A a → A' a) (hQ : ∀ q, Q' q → Q q) :
    Accepts x ts A' Q' := by
  intro s q qs hs hq
  obtain ⟨a, ha, hx⟩ := h s q qs hs (hQ _ hq)
  exact ⟨a, hA a ha, hx⟩

theorem pure {a : α} (h : A a) : Accepts (Pure.pure a) [] A Q := by
  intro s q qs hs _
  cases Begins.nil_iff.mp hs
  exact ⟨a, h, rfl⟩

/-- **One after the other,** readers accept tokens that follow each other. -/
theorem bind {f : α → Reader β} (hx : Accepts x ts A P) (hf : ∀ a, A a → Accepts (f a) us B Q)
    (h : Ahead P us Q) : Accepts (x >>= f) (ts ++ us) B Q := by
  intro s q qs hs hq
  obtain ⟨mid, hmid, hrest⟩ := Begins.append_iff.mp hs
  obtain ⟨p, s', rfl⟩ := hrest.exists_cons
  obtain ⟨a, ha, hxa⟩ := hx s p s' hmid (h.head hrest hq)
  obtain ⟨b, hb, hfb⟩ := hf a ha (p :: s') q qs hrest hq
  refine ⟨b, hb, ?_⟩
  change (x s >>= fun r => f r.1 r.2) = _
  rw [hxa]
  exact hfb

/-- A reader that goes no further after another one. -/
theorem bind_nil {f : α → Reader β} (hx : Accepts x ts A P) (hf : ∀ a, A a → Accepts (f a) [] B Q)
    (h : ∀ q, Q q → P q) : Accepts (x >>= f) ts B Q := by
  have hbind := bind hx hf h
  rwa [List.append_nil] at hbind

/-- After a reader whose result is known, another one goes on with it. -/
theorem bind_eq {a : α} {f : α → Reader β} (hx : Accepts x ts (· = a) P) (hf : Accepts (f a) us B Q)
    (h : Ahead P us Q) : Accepts (x >>= f) (ts ++ us) B Q := by
  refine bind hx ?_ h
  rintro _ rfl
  exact hf

theorem bind_nil_eq {a : α} {f : α → Reader β} (hx : Accepts x ts (· = a) P)
    (hf : Accepts (f a) [] B Q) (h : ∀ q, Q q → P q) : Accepts (x >>= f) ts B Q := by
  refine bind_nil hx ?_ h
  rintro _ rfl
  exact hf

theorem map {f : α → β} (hx : Accepts x ts A Q) (hf : ∀ a, A a → B (f a)) :
    Accepts (f <$> x) ts B Q :=
  bind_nil hx (fun a ha => pure (hf a ha)) fun _ hq => hq

/-! ### Primitive readers -/

/-- A reader that does the same at all such places. -/
theorem of_eq {y : Reader α} (hy : Accepts y ts A Q)
    (h : ∀ s q qs, Begins ts s (q :: qs) → Q q.token → x s = y s) : Accepts x ts A Q := by
  intro s q qs hs hq
  rw [h s q qs hs hq]
  exact hy s q qs hs hq

/-- A reader that goes past a token first. -/
theorem cons_of_eq {y : Reader α} (hy : Accepts y ts A Q)
    (h : ∀ p s q qs, p.token = t → Begins ts s (q :: qs) → x (p :: s) = y s) :
    Accepts x (t :: ts) A Q := by
  intro s q qs hs hq
  obtain ⟨p, s', rfl, hp, hs'⟩ := Begins.cons_iff.mp hs
  rw [h p s' q qs hp hs']
  exact hy s' q qs hs' hq

theorem skip_bind {f : Unit → Reader β} (hf : Accepts (f ()) ts B Q) :
    Accepts (skip >>= f) (t :: ts) B Q := by
  refine cons_of_eq hf fun p s q qs _ hs => ?_
  obtain ⟨p', s', rfl⟩ := hs.exists_cons
  rfl

/-- Only the place of the next token counts. -/
theorem peek_bind_any {f : Placed → Reader β} (hf : ∀ p, Accepts (f p) ts B Q) :
    Accepts (peek >>= f) ts B Q := by
  intro s q qs hs hq
  obtain ⟨p, s', rfl⟩ := hs.exists_cons
  exact hf p (p :: s') q qs hs hq

theorem next_bind {f : Token → Reader β} (hf : Accepts (f t) (t :: ts) B Q) :
    Accepts (next >>= f) (t :: ts) B Q := by
  refine of_eq hf fun s q qs hs _ => ?_
  obtain ⟨p, s', rfl, rfl, -⟩ := Begins.cons_iff.mp hs
  rfl

/-- The next token is one with a property. -/
theorem next_bind_ahead {f : Token → Reader β} (h : Ahead P ts Q)
    (hf : ∀ t, P t → Accepts (f t) ts B Q) : Accepts (next >>= f) ts B Q := by
  intro s q qs hs hq
  obtain ⟨p, s', rfl⟩ := hs.exists_cons
  exact hf p.token (h.head hs hq) (p :: s') q qs hs hq

/-- The token after the next one is one with a property. -/
theorem second_bind_ahead {f : Token → Reader β} (hts : ts = t :: us) (h : Ahead P us Q)
    (hf : ∀ u, P u → Accepts (f u) ts B Q) : Accepts (second >>= f) ts B Q := by
  intro s q qs hs hq
  obtain ⟨p, s', rfl, -, hs'⟩ := Begins.cons_iff.mp (hts ▸ hs)
  obtain ⟨p', s'', rfl⟩ := hs'.exists_cons
  exact hf p'.token (h.head hs' hq) _ q qs hs hq

theorem second_bind {f : Token → Reader β} (hf : Accepts (f u) (t :: u :: ts) B Q) :
    Accepts (second >>= f) (t :: u :: ts) B Q := by
  refine second_bind_ahead (P := (· = u)) rfl rfl ?_
  rintro _ rfl
  exact hf

/-- Whatever the token after the next one is. -/
theorem second_bind_any {f : Token → Reader β} (hf : ∀ u, Accepts (f u) ts B Q) :
    Accepts (second >>= f) ts B Q := by
  intro s q qs hs hq
  obtain ⟨p, s', rfl⟩ := hs.exists_cons
  cases s' with
  | nil => exact hf p.token [p] q qs hs hq
  | cons p' s'' => exact hf p'.token (p :: p' :: s'') q qs hs hq

theorem at_bind {f : Bool → Reader β} (h : Ahead (· = t) ts Q) (hf : Accepts (f true) ts B Q) :
    Accepts (at? t >>= f) ts B Q := by
  refine of_eq hf fun s q qs hs hq => ?_
  obtain ⟨p, s', rfl⟩ := hs.exists_cons
  have ht : p.token = t := h.head hs hq
  change f (p.token == t) _ = _
  rw [ht, beq_self_eq_true]

theorem at_bind_other {f : Bool → Reader β} (h : Ahead (· ≠ t) ts Q) (hf : Accepts (f false) ts B Q) :
    Accepts (at? t >>= f) ts B Q := by
  refine of_eq hf fun s q qs hs hq => ?_
  obtain ⟨p, s', rfl⟩ := hs.exists_cons
  change f (p.token == t) _ = _
  rw [beq_false_of_ne (h.head hs hq)]

/-- Whatever the next token is. -/
theorem at_bind_any {f : Bool → Reader β} (hf : ∀ b, Accepts (f b) ts B Q) :
    Accepts (at? t >>= f) ts B Q := by
  intro s q qs hs hq
  obtain ⟨p, s', rfl⟩ := hs.exists_cons
  exact hf (p.token == t) (p :: s') q qs hs hq

theorem eat_bind {f : Bool → Reader β} (hf : Accepts (f true) ts B Q) :
    Accepts (eat t >>= f) (t :: ts) B Q := by
  unfold eat
  rw [bind_assoc]
  refine at_bind rfl ?_
  rw [if_pos rfl, bind_assoc]
  exact skip_bind hf

theorem eat_bind_other {f : Bool → Reader β} (h : Ahead (· ≠ t) ts Q) (hf : Accepts (f false) ts B Q) :
    Accepts (eat t >>= f) ts B Q := by
  unfold eat
  rw [bind_assoc]
  refine at_bind_other h ?_
  rwa [if_neg Bool.false_ne_true, pure_bind]

/-- **A part behind a token** that may be left out is read if the token is there. -/
theorem some_bind {y : Reader β} {b : β} {γ : Type} {C : γ → Prop} {vs : List Token} {f : Option β → Reader γ}
    (hy : Accepts y us (· = b) P) (hf : Accepts (f (some b)) vs C Q) (h : Ahead P vs Q) :
    Accepts (eat t >>= fun here => if here then some <$> y >>= f else Pure.pure none >>= f) (t :: (us ++ vs))
      C Q := by
  refine eat_bind ?_
  rw [if_pos rfl]
  refine .bind_eq (map hy fun a ha => ?_) hf h
  rw [ha]

/-- Without the token there is no such part. -/
theorem none_bind {y : Reader β} {γ : Type} {C : γ → Prop} {f : Option β → Reader γ}
    (h : Ahead (· ≠ t) ts Q) (hf : Accepts (f none) ts C Q) :
    Accepts (eat t >>= fun here => if here then some <$> y >>= f else Pure.pure none >>= f) ts C Q := by
  refine eat_bind_other h ?_
  rw [if_neg Bool.false_ne_true, pure_bind]
  exact hf

theorem expect_bind {f : Unit → Reader β} (hf : Accepts (f ()) ts B Q) :
    Accepts (expect t >>= f) (t :: ts) B Q := by
  unfold expect
  rw [bind_assoc]
  exact eat_bind hf

theorem name_bind {n : String} {f : String → Reader β} (hf : Accepts (f n) ts B Q) :
    Accepts (name >>= f) (.name n :: ts) B Q := by
  unfold name
  rw [bind_assoc]
  refine next_bind ?_
  rw [bind_assoc]
  exact skip_bind hf

theorem name_accepts {n : String} : Accepts name [.name n] (· = n) Q := by
  have hname : Accepts (name >>= Pure.pure) [.name n] (· = n) Q := name_bind (.pure rfl)
  rwa [bind_pure] at hname

end Accepts

end Transcript.Lang.Reader
