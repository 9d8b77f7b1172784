import Transcript.Proofs.Lang.TwinForm

/-!
# Data of twins

Arithmetic, sorting, and what is done to sequences and dictionaries: operations that get values that are
twins give values that are, and leave worlds that are.

Results:
* `intBinary_twins`, `floatBinary_twins`: numbers have no place.
* `Op.Twins.sort`, `Op.Twins.extreme`: what the order of values decides.
* `Op.Twins.binary`, `Op.Twins.itemAt`, `Op.Twins.setItem`: operators and containers.
-/

namespace Transcript.Lang

variable {L : Link} {place : Option (Ref × Ref)}

/-! ## Numbers -/

/-- Results that are twins. -/
abbrev Link.Results (L : Link) : Except Problem Value → Except Problem Value → Prop :=
  Except.Both (Problem.Twins L) (Value.Twins L)

theorem fit_twins (n : Int) : Except.Both (Problem.Twins L) (· = ·) (fit n) (fit n) := by
  unfold fit
  split
  · exact .ok rfl
  · exact .error (.same _ nofun)

theorem intPower_twins (a : Int) (n : Nat) :
    Except.Both (Problem.Twins L) (· = ·) (intPower a n) (intPower a n) := by
  unfold intPower
  split
  · exact .error (.same _ nofun)
  · split
    · exact fit_twins _
    · split
      · exact fit_twins _
      · split
        · exact .error (.same _ nofun)
        · exact fit_twins _

theorem int_twins {r : Except Problem Int64} (h : Except.Both (Problem.Twins L) (· = ·) r r) :
    L.Results (Value.int <$> r) (Value.int <$> r) :=
  h.map fun n _ hn => hn ▸ .int n

theorem intBinary_twins (op : BinaryOp) (a b : Int64) : L.Results (intBinary op a b) (intBinary op a b) := by
  have hfit (n : Int) : L.Results (Value.int <$> fit n) (Value.int <$> fit n) := int_twins (fit_twins n)
  unfold intBinary
  dsimp only
  split
  · exact hfit _
  · exact hfit _
  · exact hfit _
  · split
    · exact .error (.same _ nofun)
    · exact .ok (.float _)
  · split
    · exact .error (.same _ nofun)
    · exact hfit _
  · split
    · exact .error (.same _ nofun)
    · split
      · exact hfit _
      · exact .error (.same _ nofun)
  · split
    · exact .ok (.float _)
    · exact int_twins (intPower_twins _ _)

theorem floatBinary_twins (op : BinaryOp) (a b : Float) :
    L.Results (floatBinary op a b) (floatBinary op a b) := by
  unfold floatBinary
  split
  · exact .ok (.float _)
  · exact .ok (.float _)
  · exact .ok (.float _)
  · split
    · exact .error (.same _ nofun)
    · exact .ok (.float _)
  · split
    · exact .error (.same _ nofun)
    · exact .ok (.float _)
  · split
    · exact .error (.same _ nofun)
    · exact .ok (.float _)
  · exact .ok (.float _)

section

variable {v v' : Value} (hv : v.Twins L v')

include hv

theorem negate_twins : L.Results (negate v) (negate v') := by
  cases hv with
  | float f => exact .ok (.float _)
  | bool b => exact int_twins (fit_twins _)
  | int n => exact int_twins (fit_twins _)
  | _ => exact .error (.same _ nofun)

theorem positive_twins : L.Results (positive v) (positive v') := by
  cases hv with
  | float f => exact .ok (.float _)
  | bool b => exact .ok (.int _)
  | int n => exact .ok (.int _)
  | _ => exact .error (.same _ nofun)

theorem absolute_twins : L.Results (absolute v) (absolute v') := by
  cases hv with
  | float f => exact .ok (.float _)
  | bool b => exact .ok (.int _)
  | int n => exact .ok (.int _)
  | _ => exact .error (.same _ nofun)

theorem toInt_twins : L.Results (toInt v) (toInt v') := by
  unfold toInt
  cases hv with
  | float f =>
    dsimp only
    split
    · exact .ok (.int _)
    · exact .error (.same _ nofun)
  | str _ s =>
    dsimp only
    split
    · split
      · exact .ok (.int _)
      · exact .error (.same _ nofun)
    · exact .error (.same _ nofun)
  | bool b => exact .ok (.int _)
  | int n => exact .ok (.int _)
  | _ => exact .error (.same _ nofun)

theorem toFloat_twins : L.Results (toFloat v) (toFloat v') := by
  unfold toFloat
  cases hv with
  | str _ s =>
    dsimp only
    split
    · exact .ok (.float _)
    · exact .error (.same _ nofun)
  | bool b => exact .ok (.float _)
  | int n => exact .ok (.float _)
  | float f => exact .ok (.float _)
  | _ => exact .error (.same _ nofun)

end

namespace Op.Twins

/-! ## Sorting -/

theorem sortInto {v v' : Value} (hv : v.Twins L v') {vs vs' : List Value} (hs : L.Values vs vs') :
    Twins L place L.Values (Lang.sortInto v vs) (Lang.sortInto v' vs') := by
  induction hs with
  | nil => exact pure (.cons hv .nil)
  | cons hu hus ih =>
    refine (order "<" hv hu).bind fun o o' ho => ?_
    subst ho
    refine .ite rfl ?_ ?_
    · exact ih.bind fun ws ws' hws => pure (.cons hu hws)
    · exact pure (.cons hv (.cons hu hus))

theorem sort {vs vs' : List Value} (hs : L.Values vs vs') :
    Twins L place L.Values (Lang.sort vs) (Lang.sort vs') := by
  refine (sequential.foldlM hs (fun us us' v v' hus hv => sortInto hv hus) .nil).bind fun us us' hus => ?_
  exact pure (List.rel_reverse hus)

theorem extreme (symbol : String) (keep : Ordering) {v v' : Value} (hv : v.Twins L v') {vs vs' : List Value}
    (hs : L.Values vs vs') :
    Twins L place (Value.Twins L) (Lang.extreme symbol keep v vs) (Lang.extreme symbol keep v' vs') := by
  induction hs generalizing v v' with
  | nil => exact pure hv
  | cons hu _ ih =>
    refine (order symbol hu hv).bind fun o o' ho => ?_
    subst ho
    refine ih ?_
    split
    · exact hu
    · exact hv

/-! ## Sequences -/

section

variable {v v' : Value} (hv : v.Twins L v')

include hv

theorem iterate : Twins L place L.Values (Lang.iterate v) (Lang.iterate v') := by
  cases hv with
  | list hr => exact reading fun w w' hw => pure (hw.list hr)
  | tuple _ hs => exact pure hs
  | str _ s => exact sequential.mapM (both_eq s) fun c _ hc => hc ▸ newText _
  | bytes b => exact pure (List.rel_map (fun _ _ h => h ▸ .int _) (both_eq b))
  | dict hr => exact reading fun w w' hw => pure (entries_keys (hw.dict hr))
  | range a b c => exact pure (List.rel_map (fun _ _ h => h ▸ .int _) (both_eq _))
  | _ => exact refuse _ nofun

theorem size : Twins L place (Value.Twins L) (Lang.size v) (Lang.size v') := by
  cases hv with
  | str _ s => exact pure (.int _)
  | bytes b => exact pure (.int _)
  | list hr =>
    refine reading fun w w' hw => ?_
    rw [(hw.list hr).length_eq]
    exact pure (.int _)
  | tuple _ hs =>
    unfold Lang.size
    dsimp only
    rw [hs.length_eq]
    exact pure (.int _)
  | dict hr =>
    refine reading fun w w' hw => ?_
    rw [(hw.dict hr).length_eq]
    exact pure (.int _)
  | range a b c => exact pure (.int _)
  | _ => exact refuse _ nofun

theorem anyEqual {vs vs' : List Value} (hs : L.Values vs vs') :
    Twins L place (· = ·) (Lang.anyEqual v vs) (Lang.anyEqual v' vs') := by
  induction hs with
  | nil => exact pure rfl
  | cons hu _ ih => exact (equal hu hv).bind fun b b' hb => .ite hb.symm (pure rfl) ih

theorem contains {u u' : Value} (hu : u.Twins L u') :
    Twins L place (· = ·) (Lang.contains v u) (Lang.contains v' u') := by
  have hiterate : Twins L place L.Values (Lang.iterate v) (Lang.iterate v') := iterate hv
  unfold Lang.contains
  cases hv with
  | str _ s =>
    cases hu with
    | str _ t => exact pure rfl
    | _ => exact refuse _ nofun
  | dict hr => exact reading fun w w' hw => anyEqual hu (entries_keys (hw.dict hr))
  | range a b c =>
    dsimp only
    rw [hu.asInt?]
    split
    · exact pure rfl
    · exact pure rfl
  | _ => exact hiterate.bind fun vs vs' hs => anyEqual hu hs

theorem indexIn (length : Int) (what : String) :
    Twins L place (· = ·) (Lang.indexIn v length what) (Lang.indexIn v' length what) := by
  unfold Lang.indexIn
  rw [hv.asInt?, hv.typeName]
  split
  · exact refuse _ nofun
  · split
    · exact pure rfl
    · exact refuse _ nofun

theorem sliceEnd (length dflt : Nat) :
    Twins L place (· = ·) (Lang.sliceEnd v length dflt) (Lang.sliceEnd v' length dflt) := by
  cases hv with
  | none => exact pure rfl
  | bool b => exact pure rfl
  | int n => exact pure rfl
  | _ => exact refuse _ nofun

theorem assignedPlace (length : Nat) :
    Twins L place (· = ·) (Lang.assignedPlace v length) (Lang.assignedPlace v' length) := by
  unfold Lang.assignedPlace
  rw [hv.asInt?]
  split
  · exact pure rfl
  · exact refuse _ nofun

end

theorem sliceOf {α : Type} {R : α → α → Prop} {u u' v v' : Value} (hu : u.Twins L u') (hv : v.Twins L v')
    {as as' : List α} (h : List.Forall₂ R as as') :
    Twins L place (List.Forall₂ R) (Lang.sliceOf u v as) (Lang.sliceOf u' v' as') := by
  unfold Lang.sliceOf
  rw [← h.length_eq]
  refine (sliceEnd hu _ _).bind fun i _ hi => (sliceEnd hv _ _).bind fun j _ hj => ?_
  subst hi hj
  exact pure (List.forall₂_take _ (List.forall₂_drop _ h))

theorem slice {v v' : Value} (hv : v.Twins L v') {a a' b b' : Value} (ha : a.Twins L a') (hb : b.Twins L b') :
    Twins L place (Value.Twins L) (Lang.slice v a b) (Lang.slice v' a' b') := by
  cases hv with
  | list hr =>
    exact reading fun w w' hw => (sliceOf ha hb (hw.list hr)).bind fun vs vs' hs => newList hs
  | tuple _ hs => exact (sliceOf ha hb hs).bind fun vs vs' hs => newTuple hs
  | str _ s =>
    refine (sliceOf ha hb (both_eq s)).bind fun t t' ht => ?_
    rw [List.forall₂_eq_eq_eq] at ht
    exact ht ▸ newText t
  | _ => exact refuse _ nofun

/-! ## Dictionaries -/

section

variable {k k' : Value} (hk : k.Twins L k') {es es' : List (Value × Value)} (hes : L.Entries es es')

include hk hes

theorem lookupKey :
    Twins L place (Option.Rel (Value.Twins L)) (Lang.lookupKey k es) (Lang.lookupKey k' es') := by
  induction hes with
  | nil => exact pure .none
  | cons he _ ih => exact (equal he.1 hk).bind fun b b' hb => .ite hb.symm (pure (.some he.2)) ih

theorem putEntry {v v' : Value} (hv : v.Twins L v') :
    Twins L place L.Entries (Lang.putEntry k v es) (Lang.putEntry k' v' es') := by
  induction hes with
  | nil => exact pure (.cons ⟨hk, hv⟩ .nil)
  | cons he hrest ih =>
    refine (equal he.1 hk).bind fun b b' hb => .ite hb.symm ?_ ?_
    · exact pure (.cons ⟨he.1, hv⟩ hrest)
    · exact ih.bind fun rest rest' hrest => pure (.cons he hrest)

theorem dropKey : Twins L place L.Entries (Lang.dropKey k es) (Lang.dropKey k' es') := by
  induction hes with
  | nil => exact pure .nil
  | cons he _ ih =>
    refine (equal he.1 hk).bind fun b b' hb => ih.bind fun rest rest' hrest => ?_
    subst hb
    refine pure ?_
    split
    · exact hrest
    · exact .cons he hrest

end

/-! ## Items -/

section

variable {v v' : Value} (hv : v.Twins L v') {k k' : Value} (hk : k.Twins L k')

include hv hk

theorem itemAt : Twins L place (Value.Twins L) (Lang.itemAt v k) (Lang.itemAt v' k') := by
  cases hv with
  | list hr =>
    refine reading fun w w' hw => ?_
    have hs := hw.list hr
    dsimp only
    rw [← hs.length_eq]
    exact (indexIn hk _ _).bind fun n _ hn => hn ▸ pure (both_getD_list hs n .none)
  | tuple _ hs =>
    unfold Lang.itemAt
    dsimp only
    rw [← hs.length_eq]
    exact (indexIn hk _ _).bind fun n _ hn => hn ▸ pure (both_getD_list hs n .none)
  | str _ s => exact (indexIn hk _ _).bind fun n _ hn => hn ▸ newText _
  | bytes b => exact (indexIn hk _ _).bind fun n _ hn => hn ▸ pure (.int _)
  | range a b c => exact (indexIn hk _ _).bind fun n _ hn => hn ▸ pure (.int _)
  | dict hr =>
    refine reading fun w w' hw => (lookupKey hk (hw.dict hr)).bind fun o o' ho => ?_
    cases ho with
    | some hv => exact pure hv
    | none => exact fail (.missingKey hk)
  | _ => exact refuse _ nofun

theorem setItem {x x' : Value} (hx : x.Twins L x') :
    Twins L place (fun _ _ => True) (Lang.setItem v k x) (Lang.setItem v' k' x') := by
  cases hv with
  | list hr =>
    refine reading fun w w' hw => ?_
    have hs := hw.list hr
    dsimp only
    rw [← hs.length_eq]
    refine (assignedPlace hk _).bind fun n _ hn => ?_
    subst hn
    exact setList hr fun _ _ _ => both_set hs n hx
  | dict hr =>
    exact reading fun w w' hw => (putEntry hk (hw.dict hr) hx).bind fun es es' hes => setDict hr hes
  | _ => exact refuse _ nofun

theorem deleteItem : Twins L place (fun _ _ => True) (Lang.deleteItem v k) (Lang.deleteItem v' k') := by
  cases hv with
  | list hr =>
    refine reading fun w w' hw => ?_
    have hs := hw.list hr
    dsimp only
    rw [← hs.length_eq]
    refine (assignedPlace hk _).bind fun n _ hn => ?_
    subst hn
    exact setList hr fun _ _ _ => both_eraseIdx hs n
  | dict hr =>
    refine reading fun w w' hw => ?_
    have hes := hw.dict hr
    dsimp only
    refine (dropKey hk hes).bind fun left left' hleft => ?_
    rw [← hes.length_eq, ← hleft.length_eq]
    split
    · exact (fail (R := fun _ _ => True) (.missingKey hk)).bind fun _ _ _ => setDict hr hleft
    · exact setDict hr hleft
  | _ => exact refuse _ nofun

end

/-! ## Operators -/

theorem repeatText (s : List Char) (n : Int64) :
    Twins L place (Value.Twins L) (Lang.repeatText s n) (Lang.repeatText s n) := by
  unfold Lang.repeatText repeatCount
  dsimp only
  split
  · exact newText _
  · exact refuse _ nofun

theorem repeatList {vs vs' : List Value} (hs : L.Values vs vs') (n : Int64) :
    Twins L place (Value.Twins L) (Lang.repeatList vs n) (Lang.repeatList vs' n) := by
  unfold Lang.repeatList repeatCount
  dsimp only
  rw [← hs.length_eq]
  split
  · exact newList (List.rel_flatten (both_replicate _ hs))
  · exact refuse _ nofun

/-- **Operators on twins** give twins. -/
theorem binary (op : BinaryOp) {u u' v v' : Value} (hu : u.Twins L u') (hv : v.Twins L v') :
    Twins L place (Value.Twins L) (Lang.binary op u v) (Lang.binary op u' v') := by
  have hrefuse (op : BinaryOp) : Twins L place (Value.Twins L)
      (Op.fail (.unsupportedOperands op u.typeName v.typeName))
      (Op.fail (.unsupportedOperands op u'.typeName v'.typeName)) := by
    rw [hu.typeName, hv.typeName]
    exact refuse _ nofun
  unfold Lang.binary
  cases hu with
  | bool a | int a =>
    cases hv with
    | bool b | int b => exact ofExcept (intBinary_twins _ _ _)
    | float g => exact ofExcept (floatBinary_twins _ _ _)
    | str _ t =>
      cases op with
      | mul => exact repeatText _ _
      | _ => exact hrefuse _
    | list hs =>
      cases op with
      | mul => exact reading fun w w' hw => repeatList (hw.list hs) _
      | _ => exact hrefuse _
    | _ => cases op <;> exact hrefuse _
  | float f =>
    cases hv with
    | bool b | int b | float b => exact ofExcept (floatBinary_twins _ _ _)
    | _ => cases op <;> exact hrefuse _
  | str _ s =>
    cases op with
    | add =>
      cases hv with
      | str _ t => exact newText _
      | _ => exact hrefuse _
    | mul =>
      cases hv with
      | bool b | int b => exact repeatText _ _
      | _ => exact hrefuse _
    | _ => exact hrefuse _
  | bytes s =>
    cases op with
    | add =>
      cases hv with
      | bytes t => exact pure (.bytes _)
      | _ => exact hrefuse _
    | _ => exact hrefuse _
  | list hr =>
    cases op with
    | add =>
      cases hv with
      | list hs =>
        refine reading fun w w' hw => reading fun q q' hq => ?_
        exact newList (List.rel_append (hw.list hr) (hq.list hs))
      | _ => exact hrefuse _
    | mul =>
      cases hv with
      | bool b | int b => exact reading fun w w' hw => repeatList (hw.list hr) _
      | _ => exact hrefuse _
    | _ => exact hrefuse _
  | tuple _ hs =>
    cases op with
    | add =>
      cases hv with
      | tuple _ ht => exact newTuple (List.rel_append hs ht)
      | _ => exact hrefuse _
    | _ => exact hrefuse _
  | _ => cases op <;> exact hrefuse _

theorem unary (op : UnaryOp) {v v' : Value} (hv : v.Twins L v') :
    Twins L place (Value.Twins L) (Lang.unary op v) (Lang.unary op v') := by
  cases op with
  | not =>
    refine reading fun w w' hw => ?_
    rw [hw.truthy hv]
    exact pure (.bool _)
  | negate => exact ofExcept (negate_twins hv)
  | plus => exact ofExcept (positive_twins hv)

theorem compareWith (op : CompareOp) {u u' v v' : Value} (hu : u.Twins L u') (hv : v.Twins L v') :
    Twins L place (· = ·) (Lang.compareWith op u v) (Lang.compareWith op u' v') := by
  have hordered (symbol : String) (f : Ordering → Bool) : Twins L place (· = ·)
      (do return f (← Lang.order symbol u v)) (do return f (← Lang.order symbol u' v')) :=
    (order symbol hu hv).bind fun o o' ho => pure (congrArg f ho)
  have hsame : Twins L place (· = ·) (do Op.ofOption (Lang.same (← get) u v))
      (do Op.ofOption (Lang.same (← get) u' v')) := by
    refine reading fun w w' hw => ?_
    rw [hw.same hu hv]
    exact ofOption (both_eq_option _)
  cases op with
  | equal => exact equal hu hv
  | notEqual => exact (equal hu hv).bind fun b b' hb => pure (congrArg Bool.not hb)
  | less => exact hordered "<" (· == .lt)
  | lessEqual => exact hordered "<=" (· != .gt)
  | greater => exact hordered ">" (· == .gt)
  | greaterEqual => exact hordered ">=" (· != .lt)
  | member => exact contains hv hu
  | notMember => exact (contains hv hu).bind fun b b' hb => pure (congrArg Bool.not hb)
  | same => exact hsame
  | notSame => exact hsame.bind fun b b' hb => pure (congrArg Bool.not hb)

theorem augmented (op : BinaryOp) {u u' v v' : Value} (hu : u.Twins L u') (hv : v.Twins L v') :
    Twins L place (Value.Twins L) (Lang.augmented op u v) (Lang.augmented op u' v') := by
  have hbinary : Twins L place (Value.Twins L) (Lang.binary op u v) (Lang.binary op u' v') := binary op hu hv
  unfold Lang.augmented
  cases op with
  | add =>
    cases hu with
    | list hr =>
      refine (iterate hv).bind fun vs vs' hs => ?_
      exact (setList hr fun w w' hw => List.rel_append (hw.list hr) hs).bind fun _ _ _ => pure (.list hr)
    | _ => exact hbinary
  | _ => exact hbinary

end Op.Twins

end Transcript.Lang
