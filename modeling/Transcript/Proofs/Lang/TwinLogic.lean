import Transcript.Lang.Eval
import Transcript.Proofs.Lang.TwinTask

/-!
# Computations that are twins

Two computations are twins if from worlds that are twins they come to worlds that are twins, with results
that are related, or to problems or exceptions that are twins; or wait for the same, and are twins when
they go on; or both go no further. Twins compose, with and without frames.

Results:
* `Op.Twins.bind`, `Eval.Twins.bind`, `Exec.Twins.bind`: one after the other, twins are twins.
* `Eval.Twins.ofOp`, `Exec.Twins.ofEval`: operations and evaluations inside of larger computations.
* `Exec.Twins.bindName`, `Exec.Twins.unbindName`: names.
-/

namespace Transcript.Lang

variable {L : Link} {place : Option (Ref × Ref)} {α β γ δ : Type} {R R' : α → β → Prop} {S : γ → δ → Prop}

/-! ## Operations -/

/-- **Operations that are twins** at a turn. -/
def Op.Twins (L : Link) (place : Option (Ref × Ref)) (R : α → β → Prop) (x : Op α) (y : Op β) : Prop :=
  ∀ w w', w.TwinsAt L place w' →
    Except.Both (Problem.Twins L) (fun p q => R p.1 q.1 ∧ p.2.TwinsAt L place q.2) (x w) (y w')

namespace Op.Twins

variable {x : Op α} {y : Op β}

theorem pure {a : α} {b : β} (h : R a b) : Twins L place R (Pure.pure a) (Pure.pure b) :=
  fun _ _ hw => .ok ⟨h, hw⟩

theorem fail {p p' : Problem} (h : p.Twins L p') : Twins L place R (Op.fail p) (Op.fail p') :=
  fun _ _ _ => .error h

/-- A problem without a value. -/
theorem refuse (p : Problem) (h : ∀ k, p ≠ .missingKey k) : Twins L place R (Op.fail p) (Op.fail p) :=
  fail (.same p h)

theorem bind {f : α → Op γ} {g : β → Op δ} (h : Twins L place R x y)
    (hf : ∀ a b, R a b → Twins L place S (f a) (g b)) : Twins L place S (x >>= f) (y >>= g) :=
  fun w w' hw => Except.Both.bind (h w w' hw) fun p q hp => hf p.1 q.1 hp.1 p.2 q.2 hp.2

theorem sequential : SequentialBoth Op fun _ _ R x y => Twins L place R x y := ⟨pure, bind⟩

theorem mono (h : Twins L place R x y) (hR : ∀ a b, R a b → R' a b) : Twins L place R' x y :=
  fun w w' hw => (h w w' hw).mono (fun _ _ hp => hp) fun _ _ hp => ⟨hR _ _ hp.1, hp.2⟩

/-- What is read of two worlds that are twins. -/
theorem reading {f : World → Op α} {g : World → Op β}
    (h : ∀ w w', w.TwinsAt L place w' → Twins L place R (f w) (g w')) :
    Twins L place R (get >>= f) (get >>= g) :=
  fun w w' hw => h w w' hw w w' hw

/-- What goes on from the worlds that have been read. -/
theorem looking {f : World → Op α} {g : World → Op β}
    (h : ∀ w w', w.TwinsAt L place w' →
      Except.Both (Problem.Twins L) (fun p q => R p.1 q.1 ∧ p.2.TwinsAt L place q.2) (f w w) (g w' w')) :
    Twins L place R (get >>= f) (get >>= g) :=
  h

theorem modifying {f g : World → World} (h : ∀ w w', w.TwinsAt L place w' → (f w).TwinsAt L place (g w')) :
    Twins L place (fun _ _ => True) (modify f : Op Unit) (modify g : Op Unit) :=
  fun w w' hw => .ok ⟨trivial, h w w' hw⟩

theorem ofExcept {r : Except Problem α} {r' : Except Problem β}
    (h : Except.Both (Problem.Twins L) R r r') : Twins L place R (Op.ofExcept r) (Op.ofExcept r') := by
  intro w w' hw
  exact h.map fun a b hab => ⟨hab, hw⟩

theorem ofOption {o : Option α} {o' : Option β} (h : Option.Rel R o o') :
    Twins L place R (Op.ofOption o) (Op.ofOption o') := by
  cases h with
  | some h => exact pure h
  | none => exact refuse _ nofun

theorem ite {c c' : Bool} {x' : Op α} {y' : Op β} (hc : c' = c) (hx : Twins L place R x y)
    (hx' : Twins L place R x' y') : Twins L place R (if c then x else x') (if c' then y else y') := by
  subst hc
  split
  · exact hx
  · exact hx'

theorem fresh : Twins L place (L.Pairs .identity) Op.fresh Op.fresh := by
  intro w w' hw
  refine .ok ⟨hw.identities.pairs, ?_⟩
  exact hw.of_twins hw.toTwins.fresh rfl rfl rfl rfl (Nat.le_refl _)

theorem newText (s : List Char) : Twins L place (Value.Twins L) (Op.newText s) (Op.newText s) :=
  fresh.bind fun _ _ hi => pure (.str hi s)

theorem newTuple {vs vs' : List Value} (h : L.Values vs vs') :
    Twins L place (Value.Twins L) (Op.newTuple vs) (Op.newTuple vs') :=
  fresh.bind fun _ _ hi => pure (.tuple hi h)

theorem newException {e e' : Raised} (h : e.Twins L e') :
    Twins L place (Value.Twins L) (Op.newException e) (Op.newException e') := by
  refine fresh.bind fun _ _ hi => ?_
  rw [h.kind]
  exact pure (.exception hi _ h.args)

theorem newList {vs vs' : List Value} (h : L.Values vs vs') :
    Twins L place (Value.Twins L) (Op.newList vs) (Op.newList vs') := by
  intro w w' hw
  refine .ok ⟨.list hw.lists.size.pairs, ?_⟩
  exact hw.of_twins (hw.toTwins.newList h) rfl rfl rfl rfl (Nat.le_refl _)

theorem newDict {es es' : List (Value × Value)} (h : L.Entries es es') :
    Twins L place (Value.Twins L) (Op.newDict es) (Op.newDict es') := by
  intro w w' hw
  refine .ok ⟨.dict hw.dicts.size.pairs, ?_⟩
  exact hw.of_twins (hw.toTwins.newDict h) rfl rfl rfl rfl (Nat.le_refl _)

theorem newCoroutine (name : String) {p p' : Pending} (h : p.Twins L p') :
    Twins L place (Value.Twins L) (Op.newCoroutine name p) (Op.newCoroutine name p') := by
  intro w w' hw
  refine .ok ⟨.coroutine hw.coroutines.size.pairs, ?_⟩
  exact hw.of_twins (hw.toTwins.newCoroutine ⟨rfl, .some h⟩) rfl rfl rfl rfl (Nat.le_refl _)

theorem newFunction {g g' : Function} (h : g.Twins L g') :
    Twins L place (Value.Twins L) (Lang.newFunction g) (Lang.newFunction g') := by
  intro w w' hw
  refine .ok ⟨.function hw.functions.size.pairs, ?_⟩
  exact hw.of_twins (hw.toTwins.newFunction h) rfl rfl rfl rfl (Nat.le_refl _)

theorem setList {r r' : Ref} (hr : L.Pairs .list r r') {f g : World → List Value}
    (h : ∀ w w', w.TwinsAt L place w' → L.Values (f w) (g w')) :
    Twins L place (fun _ _ => True) (modify fun w => w.setList r (f w) : Op Unit)
      (modify fun w => w.setList r' (g w) : Op Unit) :=
  modifying fun w w' hw => hw.of_twins (hw.toTwins.setList hr (h w w' hw)) rfl rfl rfl rfl (Nat.le_refl _)

theorem setDict {r r' : Ref} (hr : L.Pairs .dict r r') {es es' : List (Value × Value)} (h : L.Entries es es') :
    Twins L place (fun _ _ => True) (modify fun w => w.setDict r es : Op Unit)
      (modify fun w => w.setDict r' es' : Op Unit) :=
  modifying fun _ _ hw => hw.of_twins (hw.toTwins.setDict hr h) rfl rfl rfl rfl (Nat.le_refl _)

theorem setSpace {r r' : Ref} (hr : L.Pairs .space r r') {f g : World → Bindings Value}
    (h : ∀ w w', w.TwinsAt L place w' → L.Bound (f w) (g w')) :
    Twins L place (fun _ _ => True) (modify fun w => w.setSpace r (f w) : Op Unit)
      (modify fun w => w.setSpace r' (g w) : Op Unit) :=
  modifying fun w w' hw => hw.of_twins (hw.toTwins.setSpace hr (h w w' hw)) rfl rfl rfl rfl (Nat.le_refl _)

theorem write (text : List Char) :
    Twins L place (fun _ _ => True) (modify (·.write text) : Op Unit) (modify (·.write text) : Op Unit) :=
  modifying fun _ _ hw => hw.of_twins (hw.toTwins.write text) rfl rfl rfl rfl (Nat.le_refl _)

end Op.Twins

/-! ## Steps -/

/-- **Steps that are twins.** -/
inductive Step.Twins (L : Link) (place : Option (Ref × Ref)) (R : α → β → Prop) : Step α → Step β → Prop
  /-- They have related results. -/
  | done {a : α} {b : β} {w w' : World} (h : R a b) (hw : w.TwinsAt L place w') :
      Twins L place R (.done a w) (.done b w')
  /-- They wait for the same, and are twins when they go on. -/
  | wait {what what' : Wait} {w w' : World} {resume : World → Step α} {resume' : World → Step β}
      (hwhat : what.Twins L what') (hw : w.TwinsAt L place w')
      (h : ∀ w w', w.TwinsAt L place w' → Twins L place R (resume w) (resume' w')) :
      Twins L place R (.wait what w resume) (.wait what' w' resume')
  /-- They go no further. -/
  | halt (why : Halt) : Twins L place R (.halt why) (.halt why)

theorem Step.Twins.bind {s : Step α} {s' : Step β} {f : α → World → Step γ} {g : β → World → Step δ}
    (h : s.Twins L place R s')
    (hf : ∀ a b, R a b → ∀ w w', w.TwinsAt L place w' → (f a w).Twins L place S (g b w')) :
    (s.bind f).Twins L place S (s'.bind g) := by
  induction h with
  | done h hw => exact hf _ _ h _ _ hw
  | wait hwhat hw _ ih => exact .wait hwhat hw ih
  | halt why => exact .halt why

/-- Computations that are twins, from any two worlds that are. -/
def Run.Twins (L : Link) (place : Option (Ref × Ref)) (R : α → β → Prop) (x : Run α) (y : Run β) : Prop :=
  ∀ w w', w.TwinsAt L place w' → (x w).Twins L place R (y w')

namespace Run.Twins

variable {x : Run α} {y : Run β}

theorem pure {a : α} {b : β} (h : R a b) : Twins L place R (Pure.pure a) (Pure.pure b) :=
  fun _ _ hw => .done h hw

theorem bind {f : α → Run γ} {g : β → Run δ} (h : Twins L place R x y)
    (hf : ∀ a b, R a b → Twins L place S (f a) (g b)) : Twins L place S (x >>= f) (y >>= g) :=
  fun w w' hw => (h w w' hw).bind fun a b hab => hf a b hab

theorem map {f : α → γ} {g : β → δ} (h : Twins L place R x y) (hf : ∀ a b, R a b → S (f a) (g b)) :
    Twins L place S (f <$> x) (g <$> y) :=
  h.bind fun a b hab => pure (hf a b hab)

theorem halt (why : Halt) : Twins L place R (Run.halt why) (Run.halt why) := fun _ _ _ => .halt why

theorem world : Twins L place (World.TwinsAt L place) Run.world Run.world := fun _ _ hw => .done hw hw

end Run.Twins

/-! ## Evaluations -/

/-- **Evaluations that are twins.** -/
def Eval.Twins (L : Link) (place : Option (Ref × Ref)) (R : α → β → Prop) (x : Eval α) (y : Eval β) : Prop :=
  Run.Twins L place (Except.Both (Raised.Twins L) R) x.run y.run

namespace Eval.Twins

variable {x : Eval α} {y : Eval β}

theorem pure {a : α} {b : β} (h : R a b) : Twins L place R (Pure.pure a) (Pure.pure b) :=
  Run.Twins.pure (.ok h)

theorem throw {e e' : Raised} (h : e.Twins L e') :
    Twins L place R (throw e : Eval α) (throw e' : Eval β) :=
  Run.Twins.pure (.error h)

theorem bind {f : α → Eval γ} {g : β → Eval δ} (h : Twins L place R x y)
    (hf : ∀ a b, R a b → Twins L place S (f a) (g b)) : Twins L place S (x >>= f) (y >>= g) := by
  refine Run.Twins.bind h fun r r' hr => ?_
  cases hr with
  | ok hab => exact hf _ _ hab
  | error he => exact Run.Twins.pure (.error he)

theorem sequential : SequentialBoth Eval fun _ _ R x y => Twins L place R x y := ⟨pure, bind⟩

theorem endless : Twins L place R (Eval.endless : Eval α) (Eval.endless : Eval β) := Run.Twins.halt _

theorem ofRun {x : Run α} {y : Run β} (h : Run.Twins L place R x y) :
    Twins L place R (Eval.ofRun x) (Eval.ofRun y) :=
  h.map fun _ _ hab => .ok hab

theorem world : Twins L place (World.TwinsAt L place) Eval.world Eval.world := ofRun .world

theorem ofEnding {r : Except Raised α} {r' : Except Raised β} (h : Except.Both (Raised.Twins L) R r r') :
    Twins L place R (Eval.ofEnding r) (Eval.ofEnding r') :=
  Run.Twins.pure h

theorem ofOp {x : Op α} {y : Op β} (h : x.Twins L place R y) :
    Twins L place R (Eval.ofOp x) (Eval.ofOp y) := by
  intro w w' hw
  have hxy := h w w' hw
  generalize hx : x w = r at hxy
  generalize hy : y w' = r' at hxy
  cases hxy with
  | @ok p q hpq =>
    rw [Eval.ofOp_ok hx, Eval.ofOp_ok hy]
    exact .done (.ok hpq.1) hpq.2
  | @error p p' hp =>
    by_cases hend : p = .endless
    · have hend' := hp.endless.mpr hend
      subst hend hend'
      rw [Eval.ofOp_endless hx, Eval.ofOp_endless hy]
      exact .halt _
    · rw [Eval.ofOp_error hx hend, Eval.ofOp_error hy fun hend' => hend (hp.endless.mp hend')]
      refine .done (.error (hp.raised hw.identities.pairs)) ?_
      exact hw.of_twins hw.toTwins.fresh rfl rfl rfl rfl (Nat.le_refl _)

theorem fail {p p' : Problem} (h : p.Twins L p') :
    Twins L place R (Eval.fail p : Eval α) (Eval.fail p' : Eval β) :=
  ofOp (.fail h)

theorem refuse (p : Problem) (h : ∀ k, p ≠ .missingKey k) :
    Twins L place R (Eval.fail p : Eval α) (Eval.fail p : Eval β) :=
  fail (.same p h)

end Eval.Twins

/-! ## Executions -/

/-- Ends of executions that are twins, in frames that are. -/
def Link.Ended (L : Link) (R : α → β → Prop) (r : Except Signal α × Frame) (r' : Except Signal β × Frame) : Prop :=
  Except.Both (Signal.Twins L) R r.1 r'.1 ∧ r.2.Twins L r'.2

/-- **Executions that are twins,** from any two frames that are. -/
def Exec.Twins (L : Link) (place : Option (Ref × Ref)) (R : α → β → Prop) (x : Exec α) (y : Exec β) : Prop :=
  ∀ f f' : Frame, f.Twins L f' → Run.Twins L place (L.Ended R) (x.run.run f) (y.run.run f')

namespace Exec.Twins

variable {x : Exec α} {y : Exec β}

theorem pure {a : α} {b : β} (h : R a b) : Twins L place R (Pure.pure a) (Pure.pure b) :=
  fun _ _ hf => Run.Twins.pure ⟨.ok h, hf⟩

theorem throw {s s' : Signal} (h : s.Twins L s') :
    Twins L place R (throw s : Exec α) (throw s' : Exec β) :=
  fun _ _ hf => Run.Twins.pure ⟨.error h, hf⟩

theorem bind {g : α → Exec γ} {h : β → Exec δ} (hx : Twins L place R x y)
    (hg : ∀ a b, R a b → Twins L place S (g a) (h b)) : Twins L place S (x >>= g) (y >>= h) := by
  refine fun f f' hf => Run.Twins.bind (hx f f' hf) fun r r' hr => ?_
  obtain ⟨r, f⟩ := r
  obtain ⟨r', f'⟩ := r'
  obtain ⟨hr, hf⟩ := hr
  dsimp only at hr hf
  cases hr with
  | ok hab => exact hg _ _ hab f f' hf
  | error hs => exact Run.Twins.pure ⟨.error hs, hf⟩

theorem sequential : SequentialBoth Exec fun _ _ R x y => Twins L place R x y := ⟨pure, bind⟩

theorem ofEval {x : Frame → Eval α} {y : Frame → Eval β}
    (h : ∀ f f', f.Twins L f' → (x f).Twins L place R (y f')) :
    Twins L place R (Exec.ofEval x) (Exec.ofEval y) := by
  refine fun f f' hf => Run.Twins.map (h f f' hf) fun r r' hr => ⟨?_, hf⟩
  cases hr with
  | ok hab => exact .ok hab
  | error he => exact .error (.raised he)

/-- How executions end, whatever becomes of their frames. -/
theorem run' (h : Twins L place R x y) {f f' : Frame} (hf : f.Twins L f') :
    Run.Twins L place (Except.Both (Signal.Twins L) R) (StateT.run' x f) (StateT.run' y f') :=
  (h f f' hf).map fun _ _ hr => hr.1

theorem ofOp {x : Op α} {y : Op β} (h : x.Twins L place R y) : Twins L place R (Exec.ofOp x) (Exec.ofOp y) :=
  ofEval fun _ _ _ => .ofOp h

theorem raise {e e' : Raised} (h : e.Twins L e') :
    Twins L place R (Exec.raise e : Exec α) (Exec.raise e' : Exec β) :=
  throw (.raised h)

theorem refuse (p : Problem) (h : ∀ k, p ≠ .missingKey k) :
    Twins L place R (Exec.fail p : Exec α) (Exec.fail p : Exec β) :=
  ofOp (.refuse p h)

theorem endless : Twins L place R (Exec.endless : Exec α) (Exec.endless : Exec β) := ofEval fun _ _ _ => .endless

theorem attempt (h : Twins L place R x y) :
    Twins L place (Except.Both (Signal.Twins L) R) (Exec.attempt x) (Exec.attempt y) :=
  fun f f' hf => (h f f' hf).map fun _ _ hr => ⟨.ok hr.1, hr.2⟩

theorem conclude {r r' : Except Signal Unit} (h : Except.Both (Signal.Twins L) (fun _ _ => True) r r') :
    Twins L place (fun _ _ => True) (Exec.conclude r) (Exec.conclude r') := by
  cases h with
  | ok _ => exact pure trivial
  | error hs => exact throw hs

theorem frame : Twins L place (Frame.Twins L) (getThe Frame) (getThe Frame) :=
  fun _ _ hf => Run.Twins.pure ⟨.ok hf, hf⟩

theorem setFrame {f f' : Frame} (h : f.Twins L f') :
    Twins L place (fun _ _ => True) (set f : Exec PUnit) (set f' : Exec PUnit) :=
  fun _ _ _ => Run.Twins.pure ⟨.ok trivial, h⟩

theorem modifyFrame {g h : Frame → Frame} (hg : ∀ f f', f.Twins L f' → (g f).Twins L (h f')) :
    Twins L place (fun _ _ => True) (modifyThe Frame g : Exec PUnit) (modifyThe Frame h : Exec PUnit) :=
  fun f f' hf => Run.Twins.pure ⟨.ok trivial, hg f f' hf⟩

/-- What is read of two worlds that are twins. -/
theorem world : Twins L place (World.TwinsAt L place) (Exec.ofOp (get : Op World)) (Exec.ofOp (get : Op World)) :=
  ofOp fun _ _ hw => .ok ⟨hw, hw⟩

end Exec.Twins

/-! ## Names -/

/-- What every namespace sees has no place. -/
theorem builtin_twins (name : String) : Option.Rel (Value.Twins L) (Frame.builtin? name) (Frame.builtin? name) := by
  unfold Frame.builtin?
  split
  · exact .some (.builtin _)
  · cases (ExceptionKind.ofName? name).filter (· ≠ .cancelledError) with
    | none => exact .none
    | some k => exact .some (.exceptionType k)

theorem option_rel_or {o q : Option α} {o' q' : Option β} (h : Option.Rel R o o') (hq : Option.Rel R q q') :
    Option.Rel R (o.or q) (o'.or q') := by
  cases h with
  | some h => exact .some h
  | none => exact hq

theorem Op.Twins.lookup {f f' : Frame} (hf : f.Twins L f') (name : String) :
    Op.Twins L place (Value.Twins L) (f.lookup name) (f'.lookup name) := by
  refine reading fun w w' hw => ?_
  dsimp only
  have hown : Option.Rel (Value.Twins L) (if f.isLocal name then f.locals.bind (·.get? name) else none)
      (if f'.isLocal name then f'.locals.bind (·.get? name) else none) := by
    rw [hf.isLocal]
    split
    · have hlocals := hf.locals
      generalize f.locals = b at hlocals ⊢
      generalize f'.locals = b' at hlocals ⊢
      cases hlocals with
      | none => exact .none
      | some hb => exact hb.get? name
    · exact .none
  have hfound := option_rel_or hown (option_rel_or ((hw.space hf.globals).get? name) (builtin_twins name))
  generalize Option.or _ _ = o at hfound ⊢
  generalize Option.or _ _ = o' at hfound ⊢
  cases hfound with
  | some hv => exact pure hv
  | none => exact refuse _ nofun

namespace Exec.Twins

theorem bindName (name : String) {v v' : Value} (hv : v.Twins L v') :
    Exec.Twins L place (fun _ _ => True) (Lang.bindName name v) (Lang.bindName name v') := by
  refine bind frame fun f f' hf => ?_
  have hglobal : Exec.Twins L place (fun _ _ => True)
      (Exec.ofOp (modify fun w => w.setSpace f.globals ((w.space f.globals).insert name v)))
      (Exec.ofOp (modify fun w => w.setSpace f'.globals ((w.space f'.globals).insert name v'))) :=
    ofOp (.setSpace hf.globals fun _ _ hw => (hw.space hf.globals).insert name hv)
  have hlocals := hf.locals
  rw [hf.isLocal]
  cases hb : f.locals with
  | none =>
    cases hb' : f'.locals with
    | none => exact hglobal
    | some b' =>
      rw [hb, hb'] at hlocals
      cases hlocals
  | some b =>
    cases hb' : f'.locals with
    | none =>
      rw [hb, hb'] at hlocals
      cases hlocals
    | some b' =>
      rw [hb, hb'] at hlocals
      cases hlocals with
      | some hlocals =>
        cases f.isLocal name with
        | true => exact setFrame { hf with locals := .some (hlocals.insert name hv) }
        | false => exact hglobal

theorem unbindName (name : String) :
    Exec.Twins L place (fun _ _ => True) (Lang.unbindName name) (Lang.unbindName name) := by
  refine bind frame fun f f' hf => ?_
  have hglobal : Exec.Twins L place (fun _ _ => True)
      (Exec.ofOp do
        let b := (← get).space f.globals
        if b.contains name then modify (·.setSpace f.globals (b.erase name)) else Op.fail (.undefinedName name))
      (Exec.ofOp do
        let b := (← get).space f'.globals
        if b.contains name then modify (·.setSpace f'.globals (b.erase name)) else Op.fail (.undefinedName name)) := by
    refine ofOp (.reading fun w w' hw => ?_)
    have hspace := hw.space hf.globals
    dsimp only
    exact .ite (hspace.contains name) (.setSpace hf.globals fun _ _ _ => hspace.erase name) (.refuse _ nofun)
  have hlocals := hf.locals
  rw [hf.isLocal]
  cases hb : f.locals with
  | none =>
    cases hb' : f'.locals with
    | none => exact hglobal
    | some b' =>
      rw [hb, hb'] at hlocals
      cases hlocals
  | some b =>
    cases hb' : f'.locals with
    | none =>
      rw [hb, hb'] at hlocals
      cases hlocals
    | some b' =>
      rw [hb, hb'] at hlocals
      cases hlocals with
      | some hlocals =>
        cases f.isLocal name with
        | true =>
          dsimp only
          rw [hlocals.contains]
          split
          · exact setFrame { hf with locals := .some (hlocals.erase name) }
          · exact refuse _ nofun
        | false => exact hglobal

end Exec.Twins

end Transcript.Lang
