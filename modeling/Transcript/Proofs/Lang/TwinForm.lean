import Transcript.Proofs.Lang.Depth
import Transcript.Proofs.Lang.TwinLogic

/-!
# Forms, equality and order of twins

Values that are twins look the same, in worlds that are: they have the same forms, which show no place; any
two of them are equal, or the same object, if their twins are; and they are ordered alike.

Results:
* `World.Twins.showValue`, `World.Twins.readValue`, `World.Twins.message`: forms.
* `World.Twins.equalValue`, `World.Twins.same`, `World.Twins.truthy`: what is asked of values.
* `Op.Twins.order`: order.
-/

namespace Transcript.Lang

variable {L : Link} {place : Option (Ref × Ref)}

namespace World.Twins

variable {w w' : World} (h : w.Twins L w')

include h

/-! ## Forms -/

theorem show? (n : Nat) {v v' : Value} (hv : v.Twins L v') : Lang.show? n w' v' = Lang.show? n w v := by
  induction n generalizing v v' with
  | zero => rfl
  | succ n ih =>
    have items {vs vs' : List Value} (hs : L.Values vs vs') :
        vs'.mapM (Lang.show? n w') = vs.mapM (Lang.show? n w) :=
      both_mapM hs fun _ _ => ih
    cases hv with
    | list hr => exact congrArg (Option.map _) (items (h.list hr))
    | tuple _ hs => exact congrArg (Option.map _) (items hs)
    | exception _ k hs => exact congrArg (Option.map _) (items hs)
    | dict hr =>
      refine congrArg (Option.map _) (both_mapM (h.dict hr) fun e e' he => ?_)
      dsimp only
      rw [ih he.1, ih he.2]
    | function hr =>
      have hdefinition := (h.function hr).definition
      unfold Lang.show?
      dsimp only
      rw [hdefinition]
    | coroutine hr =>
      have hname := (h.coroutine hr).name
      unfold Lang.show?
      dsimp only
      rw [hname]
    | task hr =>
      have ht := h.task hr
      unfold Lang.show?
      dsimp only
      rw [ht.isDone, ht.name]
    | method hv m =>
      unfold Lang.show?
      dsimp only
      rw [hv.typeName]
    | bool b => cases b <;> rfl
    | _ => rfl

theorem forms (n : Nat) :
    (∀ v v', v.Twins L v' → Lang.read? n w' v' = Lang.read? n w v) ∧
      ∀ k vs vs', L.Values vs vs' → excMessage? n w' k vs' = excMessage? n w k vs := by
  induction n with
  | zero =>
    constructor
    · intro v v' _
      unfold Lang.read?
      rfl
    · intro k vs vs' _
      unfold excMessage?
      rfl
  | succ n ih =>
    constructor
    · intro v v' hv
      have hshow := h.show? (n + 1) hv
      unfold Lang.read?
      cases hv with
      | str _ s => rfl
      | exception _ k hs => exact ih.2 k _ _ hs
      | _ => exact hshow
    · intro k vs vs' hs
      unfold excMessage?
      cases hs with
      | nil => rfl
      | @cons v v' us us' hv hus =>
        cases hus with
        | nil =>
          dsimp only
          rw [h.show? n hv, ih.1 _ _ hv]
        | cons hu hrest =>
          exact congrArg (Option.map _) (both_mapM (.cons hv (.cons hu hrest)) fun _ _ => h.show? n)

/-- **Twins have one form that shows them.** -/
theorem showValue {v v' : Value} (hv : v.Twins L v') : w'.show? v' = w.show? v := by
  refine Option.ext fun s => ?_
  rw [showValue_eq_some, showValue_eq_some]
  exact exists_congr fun n => by rw [h.show? n hv]

/-- **Twins have one form for reading.** -/
theorem readValue {v v' : Value} (hv : v.Twins L v') : w'.read? v' = w.read? v := by
  refine Option.ext fun s => ?_
  rw [readValue_eq_some, readValue_eq_some]
  exact exists_congr fun n => by rw [(h.forms n).1 _ _ hv]

theorem message {e e' : Raised} (he : e.Twins L e') : w'.message? e' = w.message? e := by
  refine Option.ext fun s => ?_
  rw [message?_eq_some, message?_eq_some]
  exact exists_congr fun n => by rw [he.kind, (h.forms n).2 _ _ _ he.args]

/-! ## Equality -/

theorem truthy {v v' : Value} (hv : v.Twins L v') : w'.truthy v' = w.truthy v := by
  cases hv with
  | list hr => exact congrArg Bool.not (both_isEmpty (h.list hr))
  | tuple _ hs => exact congrArg Bool.not (both_isEmpty hs)
  | dict hr => exact congrArg Bool.not (both_isEmpty (h.dict hr))
  | _ => rfl

omit h in
theorem allPairs? {test test' : Value → Value → Option Bool}
    (ht : ∀ {x x' y y' : Value}, x.Twins L x' → y.Twins L y' → test' x' y' = test x y)
    {xs xs' ys ys' : List Value} (hxs : L.Values xs xs') (hys : L.Values ys ys') :
    Lang.allPairs? test' xs' ys' = Lang.allPairs? test xs ys := by
  induction hxs generalizing ys ys' with
  | nil => cases hys <;> rfl
  | cons hx _ ih =>
    cases hys with
    | nil => rfl
    | cons hy hys =>
      unfold Lang.allPairs?
      rw [ht hx hy, ih hys]

omit h in
theorem equalItems {n : Nat}
    (ht : ∀ {x x' y y' : Value}, x.Twins L x' → y.Twins L y' → Lang.equal? n w' x' y' = Lang.equal? n w x y)
    {same same' : Bool} (hsame : same' = same) {xs xs' ys ys' : List Value} (hxs : L.Values xs xs')
    (hys : L.Values ys ys') :
    Lang.equal?.equalItems n w' same' xs' ys' = Lang.equal?.equalItems n w same xs ys := by
  unfold Lang.equal?.equalItems
  rw [hsame, hxs.length_eq, hys.length_eq, allPairs? ht hxs hys]

theorem equal? (n : Nat) {u u' v v' : Value} (hu : u.Twins L u') (hv : v.Twins L v') :
    Lang.equal? n w' u' v' = Lang.equal? n w u v := by
  induction n generalizing u u' v v' with
  | zero =>
    unfold Lang.equal?
    rfl
  | succ n ih =>
    unfold Lang.equal?
    cases hu with
    | list hr =>
      cases hv with
      | list hs => exact equalItems ih (hr.beq hs) (h.list hr) (h.list hs)
      | _ => rfl
    | tuple _ hxs =>
      cases hv with
      | tuple _ hys => exact equalItems ih rfl hxs hys
      | _ => rfl
    | dict hr =>
      cases hv with
      | dict hs =>
        have hxs := h.dict hr
        have hys := h.dict hs
        dsimp only
        rw [hxs.length_eq, hys.length_eq]
        refine congrArg (ite _ (some false)) (both_allM hxs fun e e' he => both_anyM hys fun d d' hd => ?_)
        rw [ih he.1 hd.1, ih he.2 hd.2]
      | _ => rfl
    | function hr =>
      cases hv with
      | function hs => exact congrArg some (hr.beq hs)
      | _ => rfl
    | module hr =>
      cases hv with
      | module hs => exact congrArg some (hr.beq hs)
      | _ => rfl
    | coroutine hr =>
      cases hv with
      | coroutine hs => exact congrArg some (hr.beq hs)
      | _ => rfl
    | task hr =>
      cases hv with
      | task hs => exact congrArg some (hr.beq hs)
      | _ => rfl
    | exception hr =>
      cases hv with
      | exception hs => exact congrArg some (hr.beq hs)
      | _ => rfl
    | _ => cases hv <;> rfl

/-- **Values are equal if their twins are.** -/
theorem equalValue {u u' v v' : Value} (hu : u.Twins L u') (hv : v.Twins L v') :
    w'.equal? u' v' = w.equal? u v := by
  refine Option.ext fun b => ?_
  rw [equalValue_eq_some, equalValue_eq_some]
  exact exists_congr fun n => by rw [h.equal? n hu hv]

/-- **Values are the same object if their twins are.** -/
theorem same {u u' v v' : Value} (hu : u.Twins L u') (hv : v.Twins L v') :
    Lang.same w' u' v' = Lang.same w u v := by
  have hequal := h.equalValue hu hv
  unfold Lang.same
  cases hu with
  | list hr =>
    cases hv with
    | list hs => exact congrArg some (hr.beq hs)
    | _ => rfl
  | dict hr =>
    cases hv with
    | dict hs => exact congrArg some (hr.beq hs)
    | _ => rfl
  | str hi s =>
    cases hv with
    | str hj t =>
      dsimp only
      rw [hi.beq hj]
    | _ => rfl
  | tuple hi =>
    cases hv with
    | tuple hj => exact congrArg some (hi.beq hj)
    | none => rfl
    | bool b => rfl
    | _ => exact hequal
  | none => cases hv <;> rfl
  | bool b => cases hv <;> rfl
  | int n => cases hv <;> rfl
  | float f => cases hv <;> rfl
  | bytes b => cases hv <;> rfl
  | _ =>
    cases hv with
    | none => rfl
    | bool b => rfl
    | _ => exact hequal

end World.Twins

namespace Op.Twins

theorem equal {u u' v v' : Value} (hu : u.Twins L u') (hv : v.Twins L v') :
    Twins L place (· = ·) (Lang.equal u v) (Lang.equal u' v') := by
  refine reading fun w w' hw => ?_
  rw [hw.equalValue hu hv]
  exact ofOption (both_eq_option _)

/-! ## Order -/

theorem compareItems {symbol : String} {n : Nat}
    (ht : ∀ {x x' y y' : Value}, x.Twins L x' → y.Twins L y' →
      Twins L place (· = ·) (compareValues symbol n x y) (compareValues symbol n x' y'))
    {xs xs' ys ys' : List Value} (hxs : L.Values xs xs') (hys : L.Values ys ys') :
    Twins L place (· = ·) (compareValues.items symbol n xs ys) (compareValues.items symbol n xs' ys') := by
  induction hxs generalizing ys ys' with
  | nil =>
    unfold compareValues.items
    rw [hys.length_eq]
    exact pure rfl
  | cons hx hxs ih =>
    cases hys with
    | nil =>
      unfold compareValues.items
      rw [(List.Forall₂.cons hx hxs).length_eq]
      exact pure rfl
    | cons hy hys =>
      unfold compareValues.items
      refine (equal hx hy).bind fun b b' hb => ?_
      exact .ite hb.symm (ih hys) (ht hx hy)

theorem compareNumbers {u u' v v' : Value} (hu : u.Twins L u') (hv : v.Twins L v') :
    Lang.compareNumbers u' v' = Lang.compareNumbers u v := by
  unfold Lang.compareNumbers
  rw [hu.asInt?, hv.asInt?, hu.asFloat?, hv.asFloat?]

/-- The order of two values that are numbers. -/
def compareAsNumbers (symbol : String) (u v : Value) : Op Ordering :=
  match Lang.compareNumbers u v with
  | some o => Pure.pure o
  | none => Op.fail (.notOrdered symbol u.typeName v.typeName)

theorem compareValues (symbol : String) (n : Nat) {u u' v v' : Value} (hu : u.Twins L u')
    (hv : v.Twins L v') :
    Twins L place (· = ·) (Lang.compareValues symbol n u v) (Lang.compareValues symbol n u' v') := by
  induction n generalizing u u' v v' with
  | zero =>
    unfold Lang.compareValues
    exact refuse _ nofun
  | succ n ih =>
    have hnumbers : Twins L place (· = ·) (compareAsNumbers symbol u v) (compareAsNumbers symbol u' v') := by
      unfold compareAsNumbers
      rw [compareNumbers hu hv, hu.typeName, hv.typeName]
      cases Lang.compareNumbers u v with
      | none => exact refuse _ nofun
      | some o => exact pure rfl
    unfold Lang.compareValues
    cases hu with
    | str _ s =>
      cases hv with
      | str _ t => exact pure rfl
      | _ => exact hnumbers
    | bytes s =>
      cases hv with
      | bytes t => exact pure rfl
      | _ => exact hnumbers
    | list hr =>
      cases hv with
      | list hs => exact reading fun w w' hw => reading fun q q' hq => compareItems ih (hw.list hr) (hq.list hs)
      | _ => exact hnumbers
    | tuple _ hxs =>
      cases hv with
      | tuple _ hys => exact compareItems ih hxs hys
      | _ => exact hnumbers
    | _ => cases hv <;> exact hnumbers

end Op.Twins

section

variable {α β : Type} {R : α × World → β × World → Prop} {x : Op α} {y : Op β} {w w' : World}

theorem Op.answer?_error {p : Problem} (hx : x w = .error p) (hp : p ≠ .endless) :
    x.answer? w = some (.error p) := by
  unfold Op.answer?
  rw [hx]
  cases p with
  | endless => exact absurd rfl hp
  | _ => rfl

/-- Operations are twins if what they come to is, where they come to an end. -/
theorem Op.answer?_both : Option.Rel (Except.Both (Problem.Twins L) R) (x.answer? w) (y.answer? w') ↔
    Except.Both (Problem.Twins L) R (x w) (y w') := by
  have hendless {γ : Type} {z : Op γ} {u : World} (hz : z.answer? u = none) : z u = .error .endless := by
    cases hzu : z u with
    | ok r =>
      unfold Op.answer? at hz
      rw [hzu] at hz
      cases hz
    | error p =>
      by_contra hp
      rw [Op.answer?_error hzu fun h => hp (h ▸ rfl)] at hz
      cases hz
  have hanswer {γ : Type} {z : Op γ} {u : World} {r : Except Problem (γ × World)} (hz : z.answer? u = some r) :
      z u = r := by
    cases hzu : z u with
    | ok a =>
      unfold Op.answer? at hz
      rw [hzu] at hz
      exact Option.some.inj hz
    | error p =>
      by_cases hp : p = .endless
      · subst hp
        unfold Op.answer? at hz
        rw [hzu] at hz
        cases hz
      · rw [Op.answer?_error hzu hp] at hz
        exact Option.some.inj hz
  constructor
  · intro h
    generalize hx : x.answer? w = o at h
    generalize hy : y.answer? w' = o' at h
    cases h with
    | none =>
      rw [hendless hx, hendless hy]
      exact .error (.same _ nofun)
    | some h => rwa [hanswer hx, hanswer hy]
  · intro h
    generalize hx : x w = r at h
    generalize hy : y w' = r' at h
    cases h with
    | ok h =>
      unfold Op.answer?
      rw [hx, hy]
      exact .some (.ok h)
    | @error p p' hp =>
      by_cases hend : p = .endless
      · have hend' := hp.endless.mpr hend
        subst hend hend'
        unfold Op.answer?
        rw [hx, hy]
        exact .none
      · rw [Op.answer?_error hx hend, Op.answer?_error hy fun h => hend (hp.endless.mp h)]
        exact .some (.error hp)

end

/-- **Values are ordered alike if they are twins.** -/
theorem Op.Twins.order (symbol : String) {u u' v v' : Value} (hu : u.Twins L u') (hv : v.Twins L v') :
    Op.Twins L place (· = ·) (Lang.order symbol u v) (Lang.order symbol u' v') := by
  intro w w' hw
  refine Op.answer?_both.mp ?_
  have hlevel (n : Nat) := Op.answer?_both.mpr (Op.Twins.compareValues symbol n hu hv w w' hw)
  generalize ho : (Lang.order symbol u v).answer? w = o
  generalize ho' : (Lang.order symbol u' v').answer? w' = o'
  cases o with
  | some r =>
    -- The levels that are enough for one side are enough for the other.
    obtain ⟨n, hn⟩ := order_answer?.mp ho
    have hr := hlevel n
    rw [hn] at hr
    generalize hq : (Lang.compareValues symbol n u' v').answer? w' = q at hr
    cases hr with
    | some hr =>
      rw [order_answer?.mpr ⟨n, hq⟩] at ho'
      exact ho' ▸ .some hr
  | none =>
    cases o' with
    | none => exact .none
    | some r' =>
      obtain ⟨n, hn⟩ := order_answer?.mp ho'
      have hr := hlevel n
      rw [hn] at hr
      generalize hq : (Lang.compareValues symbol n u v).answer? w = q at hr
      cases hr with
      | some hr =>
        rw [order_answer?.mpr ⟨n, hq⟩] at ho
        cases ho

end Transcript.Lang
