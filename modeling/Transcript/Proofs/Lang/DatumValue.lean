import Transcript.Lang.Eval
import Transcript.Lang.Interpreter
import Transcript.Proofs.Lang.DatumText
import Transcript.Proofs.Lang.Datum

/-!
# Data are built by evaluation

The expression of a sound datum gives a value that holds the datum. While it is evaluated, the world only
grows: new lists and dictionaries are added, and those that exist keep their items, so what has been built
stays. Where the namespace is empty, the name of the function that makes ranges means that function.

So where nothing has a name, the form that shows a literal value is an expression that gives an equal value
with the same form. Literal values are nothing, truth values, integers that have an opposite, texts, ASCII
bytes, ranges of such integers, and lists, tuples and dictionaries with different keys, built of literal
values in finitely many steps. Of the least integer, the digits denote no integer.

Results:
* `Holds.grown`: a value still holds its datum in a world that has grown.
* `Datum.Sound.builds`: the expression of a sound datum gives a value that holds it.
* `Literal.holds`: a literal value holds a sound datum.
* `literal_rebuilt`: evaluating its form gives an equal value of the same type with the same form.
-/

namespace Transcript.Lang

/-! ## Worlds that grow -/

/-- **A world has grown:** its lists, dictionaries and namespaces are as they were. -/
structure World.Grows (w w' : World) : Prop where
  /-- Lists keep their items. -/
  list : ∀ r < w.lists.size, r < w'.lists.size ∧ w'.list r = w.list r
  /-- Dictionaries keep their entries. -/
  dict : ∀ r < w.dicts.size, r < w'.dicts.size ∧ w'.dict r = w.dict r
  /-- Namespaces are the same. -/
  spaces : w'.spaces = w.spaces

namespace World.Grows

variable {w w' w'' : World}

theorem refl (w : World) : w.Grows w := ⟨fun _ hr => ⟨hr, rfl⟩, fun _ hr => ⟨hr, rfl⟩, rfl⟩

theorem trans (h : w.Grows w') (h' : w'.Grows w'') : w.Grows w'' where
  list r hr := ⟨(h'.list r (h.list r hr).1).1, (h'.list r (h.list r hr).1).2.trans (h.list r hr).2⟩
  dict r hr := ⟨(h'.dict r (h.dict r hr).1).1, (h'.dict r (h.dict r hr).1).2.trans (h.dict r hr).2⟩
  spaces := h'.spaces.trans h.spaces

/-- An identity is used up. -/
theorem identity (w : World) : w.Grows { w with identities := w.identities + 1 } :=
  ⟨fun _ hr => ⟨hr, rfl⟩, fun _ hr => ⟨hr, rfl⟩, rfl⟩

/-- A list is added. -/
theorem pushList (w : World) (items : List Value) : w.Grows { w with lists := w.lists.push items } where
  list r hr := by
    refine ⟨by rw [Array.size_push]; exact Nat.lt_succ_of_lt hr, ?_⟩
    simp [World.list, Array.getElem?_push, Nat.ne_of_lt hr]
  dict _ hr := ⟨hr, rfl⟩
  spaces := rfl

/-- A dictionary is added. -/
theorem pushDict (w : World) (entries : List (Value × Value)) :
    w.Grows { w with dicts := w.dicts.push entries } where
  list _ hr := ⟨hr, rfl⟩
  dict r hr := by
    refine ⟨by rw [Array.size_push]; exact Nat.lt_succ_of_lt hr, ?_⟩
    simp [World.dict, Array.getElem?_push, Nat.ne_of_lt hr]
  spaces := rfl

theorem space (h : w.Grows w') (r : Ref) : w'.space r = w.space r := by
  unfold World.space
  rw [h.spaces]

end World.Grows

theorem Holds.grown {w w' : World} {v : Value} {d : Datum} (h : Holds w w.places v d) (hw : w.Grows w') :
    Holds w' w'.places v d := by
  refine h.mono (fun r hr => ?_) fun r hr => ?_
  · obtain ⟨hlt, heq⟩ := hw.list r (Finset.mem_range.mp hr)
    exact ⟨Finset.mem_range.mpr hlt, heq⟩
  · obtain ⟨hlt, heq⟩ := hw.dict r (Finset.mem_range.mp hr)
    exact ⟨Finset.mem_range.mpr hlt, heq⟩

/-! ## Computations that give a result -/

/-- **A computation gives a result at once,** with a property, in the world where it ends. -/
def Gives {α : Type} (x : Eval α) (w : World) (Q : α → World → Prop) : Prop :=
  ∃ a w', x w = .done (.ok a) w' ∧ Q a w'

namespace Gives

variable {α β : Type} {x : Eval α} {f : α → Eval β} {w w' : World} {a : α} {Q Q' : α → World → Prop}
  {R : β → World → Prop}

theorem pure (h : Q a w) : Gives (Pure.pure a : Eval α) w Q := ⟨a, w, rfl, h⟩

theorem ofOp {op : Op α} (h : op w = .ok (a, w')) (hq : Q a w') : Gives (Eval.ofOp op) w Q := by
  refine ⟨a, w', ?_, hq⟩
  unfold Eval.ofOp ExceptT.mk
  simp only [h]

theorem bind (h : Gives x w Q) (h' : ∀ a w', Q a w' → Gives (f a) w' R) : Gives (x >>= f) w R := by
  obtain ⟨a, w', hx, hq⟩ := h
  obtain ⟨b, w'', hf, hr⟩ := h' a w' hq
  refine ⟨b, w'', ?_, hr⟩
  change (x w).bind _ = _
  rw [hx]
  exact hf

theorem mono (h : Gives x w Q) (h' : ∀ a w', Q a w' → Q' a w') : Gives x w Q' := by
  obtain ⟨a, w', hx, hq⟩ := h
  exact ⟨a, w', hx, h' a w' hq⟩

end Gives

/-! ## Building data -/

section

variable {onAwait : Frame → Eval Unit} {fuel : Nat} {f : Frame} {d : Datum} {ds : List Datum} {w : World}

/-- **An expression builds a datum** in a frame whose names mean nothing. -/
def Builds (onAwait : Frame → Eval Unit) (fuel : Nat) (f : Frame) (e : Expr) (d : Datum) : Prop :=
  ∀ w : World, w.space f.globals = .empty →
    Gives (eval onAwait fuel f e) w fun v w' => w.Grows w' ∧ Holds w' w'.places v d

theorem World.Grows.space_eq_empty {w w' : World} {r : Ref} (h : w.Grows w') (hw : w.space r = .empty) :
    w'.space r = .empty := (h.space r).trans hw

/-- Values that hold data. -/
theorem holds_grown {w' : World} {vs : List Value} (h : List.Forall₂ (Holds w w.places) vs ds)
    (hw : w.Grows w') : List.Forall₂ (Holds w' w'.places) vs ds :=
  h.imp fun _ _ hv => hv.grown hw

/-- **Items are built** one after the other. -/
theorem mapM_builds {es : List Expr} (h : List.Forall₂ (Builds onAwait fuel f) es ds)
    (hw : w.space f.globals = .empty) :
    Gives (es.mapM (eval onAwait fuel f)) w fun vs w' =>
      w.Grows w' ∧ List.Forall₂ (Holds w' w'.places) vs ds := by
  induction h generalizing w with
  | nil => exact .pure ⟨.refl w, .nil⟩
  | cons hd _ ih =>
    rw [List.mapM_cons]
    refine .bind (hd w hw) fun v w₁ h₁ => .bind (ih (h₁.1.space_eq_empty hw)) fun vs w₂ h₂ => ?_
    exact .pure ⟨h₁.1.trans h₂.1, .cons (h₁.2.grown h₂.1) h₂.2⟩

theorem exprs_build (hfuel : Datum.depths ds + 2 ≤ fuel)
    (h : ∀ d ∈ ds, ∀ fuel, d.depth + 2 ≤ fuel → Builds onAwait fuel f d.expr d) :
    List.Forall₂ (Builds onAwait fuel f) (Datum.exprs ds) ds := by
  have hdepths := Datum.depths_le_iff.mp (Nat.le_refl (Datum.depths ds))
  rw [Datum.exprs_eq_map, List.forall₂_map_left_iff, List.forall₂_same]
  exact fun d hd => h d hd fuel (Nat.le_trans (Nat.add_le_add_right (hdepths d hd) 2) hfuel)

/-! ### Numbers and ranges -/

theorem fit_toInt (n : Int64) : fit n.toInt = .ok n := by
  have hlow := Int64.le_toInt n
  have hhigh := Int64.toInt_lt n
  have hfits : fits n.toInt = true := by simp [fits]; omega
  rw [fit, if_pos hfits, Int64.ofInt_toInt]

/-- **An integer** is what its expression gives. -/
theorem eval_intExpr {n : Int64} (h : n ≠ Int64.minValue) (w : World) :
    eval onAwait (fuel + 2) f (intExpr n) w = .done (.ok (.int n)) w := by
  unfold intExpr
  split
  · have hnegate : negate (.int (-n)) = .ok (.int n) := by
      have hneg : -(-n).toInt = n.toInt := by rw [toInt_neg_of_ne h, Int.neg_neg]
      simp only [negate, Value.asInt?, hneg, fit_toInt]
      rfl
    have hop : unary .negate (.int (-n)) w = .ok (.int n, w) := by
      simp only [unary, Op.ofExcept, hnegate]
      rfl
    have hgives : Gives (eval onAwait (fuel + 2) f (.unary .negate (.constant (.int (-n))))) w
        fun v w' => v = .int n ∧ w' = w :=
      .bind (Q := fun v w' => v = .int (-n) ∧ w' = w) ⟨_, _, rfl, rfl, rfl⟩ fun v w' h => by
        obtain ⟨rfl, rfl⟩ := h
        exact .ofOp hop ⟨rfl, rfl⟩
    obtain ⟨v, w', heval, rfl, rfl⟩ := hgives
    exact heval
  · rfl

theorem mapM_intExpr {ns : List Int64} (h : ∀ n ∈ ns, n ≠ Int64.minValue) (w : World) :
    Gives ((ns.map intExpr).mapM (eval onAwait (fuel + 2) f)) w fun vs w' => vs = ns.map .int ∧ w' = w := by
  induction ns with
  | nil => exact .pure ⟨rfl, rfl⟩
  | cons n ns ih =>
    obtain ⟨hn, hns⟩ := List.forall_mem_cons.mp h
    rw [List.map_cons, List.mapM_cons]
    refine .bind (Q := fun v w' => v = .int n ∧ w' = w) ⟨_, _, eval_intExpr hn w, rfl, rfl⟩ fun v w' hv => ?_
    obtain ⟨rfl, rfl⟩ := hv
    refine .bind (ih hns) fun vs w' hvs => ?_
    obtain ⟨rfl, rfl⟩ := hvs
    exact .pure ⟨rfl, rfl⟩

/-- The name of the function that makes ranges. -/
theorem lookup_range (hf : f.locals = none) (hw : w.space f.globals = .empty) :
    f.lookup "range" w = .ok (.builtin .range, w) := by
  have hlocal : f.isLocal "range" = false := by simp [Frame.isLocal, hf]
  have hbuiltin : Frame.builtin? "range" = some (.builtin .range) := rfl
  simp only [Frame.lookup, bind, StateT.bind, Except.bind, get, getThe, MonadStateOf.get, StateT.get, pure,
    Except.pure, hlocal, Bool.false_eq_true, if_false, hw, Bindings.get?_empty, hbuiltin, Option.or_some,
    Option.getD_none]
  rfl

/-- **A range** is what its call gives. -/
theorem builds_range {start stop step : Int64} (hends : ∀ n ∈ [start, stop, step], n ≠ Int64.minValue)
    (hzero : step ≠ 0) (hf : f.locals = none) :
    Builds onAwait (fuel + 3) f (Datum.range start stop step).expr (.range start stop step) := by
  intro w hw
  have hargs : ∀ n ∈ (if step = 1 then [start, stop] else [start, stop, step]), n ≠ Int64.minValue := by
    intro n hn
    refine hends n ?_
    split at hn
    · exact List.mem_append_left [step] hn
    · exact hn
  have hrange : rangeOf ((if step = 1 then [start, stop] else [start, stop, step]).map .int) w =
      .ok (.range start stop step, w) := by
    split
    · subst step
      rfl
    · change (if step = 0 then Op.fail .zeroStep else pure (Value.range start stop step) : Op Value) w = _
      rw [if_neg hzero]
      rfl
  have hcheck : callBuiltin .range ⟨Builtin.range.name,
      (if step = 1 then [start, stop] else [start, stop, step]).map .int, []⟩ w =
      .ok (.range start stop step, w) := by
    refine Eq.trans ?_ hrange
    split <;> rfl
  refine .bind (Q := fun g w' => g = .builtin .range ∧ w' = w)
    (.ofOp (lookup_range hf hw) ⟨rfl, rfl⟩) fun g w' hg => ?_
  obtain ⟨rfl, rfl⟩ := hg
  refine .bind (mapM_intExpr hargs w') fun args w' h => ?_
  obtain ⟨rfl, rfl⟩ := h
  refine .bind (Q := fun named w'' => named = [] ∧ w'' = w') (.pure ⟨rfl, rfl⟩) fun named w'' h => ?_
  obtain ⟨rfl, rfl⟩ := h
  exact .ofOp hcheck ⟨.refl w'', .range start stop step⟩

/-! ### Dictionaries -/

/-- A key that equals no key of some entries is put after them. -/
theorem putEntry_new {k v : Value} {dk : Datum} {entries : List (Value × Value)} {items : List (Datum × Datum)}
    (h : List.Forall₂ (fun e item => Holds w w.places e.1 item.1) entries items) (hk : Holds w w.places k dk)
    (hne : ∀ item ∈ items, item.1.equal dk = false) : putEntry k v entries w = .ok (entries ++ [(k, v)], w) := by
  induction h with
  | nil => rfl
  | @cons e item entries items he _ ih =>
    obtain ⟨hitem, hitems⟩ := List.forall_mem_cons.mp hne
    have hequal : Lang.equal e.1 k w = .ok (false, w) := by
      have hfalse := he.equalValue_eq hk
      rw [hitem] at hfalse
      have hget : (get : Op World) w = .ok (w, w) := rfl
      rw [Lang.equal, op_bind hget, hfalse]
      rfl
    rw [putEntry, op_bind hequal, if_neg Bool.false_ne_true, op_bind (ih hitems)]
    rfl

/-- **Entries hold data:** their keys and values do. -/
def EntriesHold (w : World) (e : Value × Value) (item : Datum × Datum) : Prop :=
  Holds w w.places e.1 item.1 ∧ Holds w w.places e.2 item.2

/-- The entries of a display are put one after the other. -/
theorem foldlM_builds {items : List (Datum × Datum)} {entries : List (Value × Value)}
    (done : List (Datum × Datum))
    (hk : ∀ item ∈ items, Builds onAwait fuel f item.1.expr item.1)
    (hv : ∀ item ∈ items, Builds onAwait fuel f item.2.expr item.2)
    (hd : (done ++ items).Pairwise fun a b => a.1.equal b.1 = false)
    (h : List.Forall₂ (EntriesHold w) entries done) (hw : w.space f.globals = .empty) :
    Gives ((Datum.pairExprs items).foldlM (fun entries item => do
      let k ← eval onAwait fuel f item.1
      let v ← eval onAwait fuel f item.2
      Eval.ofOp (putEntry k v entries)) entries) w fun entries' w' =>
        w.Grows w' ∧ List.Forall₂ (EntriesHold w') entries' (done ++ items) := by
  induction items generalizing done w entries with
  | nil =>
    rw [List.append_nil]
    exact .pure ⟨.refl w, h⟩
  | cons item items ih =>
    obtain ⟨hkey, hkeys⟩ := List.forall_mem_cons.mp hk
    obtain ⟨hvalue, hvalues⟩ := List.forall_mem_cons.mp hv
    rw [List.append_cons] at hd ⊢
    rw [Datum.pairExprs, List.foldlM_cons]
    have hput : Gives (do
        let k ← eval onAwait fuel f item.1.expr
        let v ← eval onAwait fuel f item.2.expr
        Eval.ofOp (putEntry k v entries)) w fun entries' w' =>
          w.Grows w' ∧ List.Forall₂ (EntriesHold w') entries' (done ++ [item]) := by
      refine .bind (hkey w hw) fun k w₁ hk₁ => .bind (hvalue w₁ (hk₁.1.space_eq_empty hw)) fun v w₂ hv₂ => ?_
      have hgrows := hk₁.1.trans hv₂.1
      have hold : List.Forall₂ (EntriesHold w₂) entries done :=
        h.imp fun _ _ he => ⟨he.1.grown hgrows, he.2.grown hgrows⟩
      have hne : ∀ item' ∈ done, item'.1.equal item.1 = false := fun item' hi =>
        (List.pairwise_append.mp (List.pairwise_append.mp hd).1).2.2 item' hi item List.mem_cons_self
      refine .ofOp (putEntry_new (hold.imp fun _ _ he => he.1) (hk₁.2.grown hv₂.1) hne) ⟨hgrows, ?_⟩
      exact List.rel_append hold (.cons ⟨hk₁.2.grown hv₂.1, hv₂.2⟩ .nil)
    refine .bind hput fun entries' w' h' => ?_
    exact (ih _ hkeys hvalues hd h'.2 (h'.1.space_eq_empty hw)).mono fun _ _ hlast =>
      ⟨h'.1.trans hlast.1, hlast.2⟩

/-- **The expression of a sound datum** gives a value that holds it. -/
theorem Datum.Sound.builds (h : d.Sound) (hfuel : d.depth + 2 ≤ fuel) (hf : f.locals = Option.none) :
    Builds onAwait fuel f d.expr d := by
  induction h generalizing fuel with
  | none =>
    obtain ⟨fuel, rfl⟩ := Nat.exists_eq_add_of_le' hfuel
    exact fun w _ => .pure ⟨.refl w, .none⟩
  | bool b =>
    obtain ⟨fuel, rfl⟩ := Nat.exists_eq_add_of_le' hfuel
    exact fun w _ => .pure ⟨.refl w, .bool b⟩
  | @int n h =>
    obtain ⟨fuel, rfl⟩ := Nat.exists_eq_add_of_le' hfuel
    exact fun w _ => ⟨_, _, eval_intExpr h w, .refl w, .int n⟩
  | str s =>
    obtain ⟨fuel, rfl⟩ := Nat.exists_eq_add_of_le' hfuel
    exact fun w _ => ⟨_, _, rfl, .identity w, .str _ s⟩
  | @bytes b h =>
    obtain ⟨fuel, rfl⟩ := Nat.exists_eq_add_of_le' hfuel
    exact fun w _ => .pure ⟨.refl w, .bytes b⟩
  | range hstart hstop hstep hzero =>
    obtain ⟨fuel, rfl⟩ := Nat.exists_eq_add_of_le' hfuel
    exact builds_range (by simp [hstart, hstop, hstep]) hzero hf
  | @list items h ih =>
    obtain ⟨fuel, rfl⟩ := Nat.exists_eq_add_of_le' (Nat.le_trans (Nat.le_add_left 1 _) hfuel)
    have hitems := exprs_build (Nat.le_of_succ_le_succ hfuel) fun d hd _ => ih d hd
    intro w hw
    refine .bind (mapM_builds hitems hw) fun vs w' hvs => .ofOp rfl ?_
    have hgrows := World.Grows.pushList w' vs
    refine ⟨hvs.1.trans hgrows, .list ?_ ?_⟩
    · exact Finset.mem_range.mpr (by rw [Array.size_push]; exact Nat.lt_succ_self _)
    · have hlist : World.list { w' with lists := w'.lists.push vs } w'.lists.size = vs := by
        simp [World.list]
      rw [hlist]
      exact holds_grown hvs.2 hgrows
  | @tuple items h ih =>
    obtain ⟨fuel, rfl⟩ := Nat.exists_eq_add_of_le' (Nat.le_trans (Nat.le_add_left 1 _) hfuel)
    have hitems := exprs_build (Nat.le_of_succ_le_succ hfuel) fun d hd _ => ih d hd
    intro w hw
    refine .bind (mapM_builds hitems hw) fun vs w' hvs => .ofOp rfl ?_
    have hgrows := World.Grows.identity w'
    exact ⟨hvs.1.trans hgrows, .tuple (holds_grown hvs.2 hgrows)⟩
  | @dict items hk hv hd ihk ihv =>
    obtain ⟨fuel, rfl⟩ := Nat.exists_eq_add_of_le' (Nat.le_trans (Nat.le_add_left 1 _) hfuel)
    have hdepths := Datum.pairDepths_le_iff.mp (Nat.le_refl (Datum.pairDepths items))
    have hbound : ∀ item ∈ items, item.1.depth + 2 ≤ fuel ∧ item.2.depth + 2 ≤ fuel := by
      intro item hi
      have hle := hdepths item hi
      change Datum.pairDepths items + 1 + 2 ≤ fuel + 1 at hfuel
      omega
    intro w hw
    refine .bind (foldlM_builds [] (fun item hi => ihk item hi (hbound item hi).1)
      (fun item hi => ihv item hi (hbound item hi).2) hd .nil hw) fun entries w' he => .ofOp rfl ?_
    have hgrows := World.Grows.pushDict w' entries
    have hdict : World.dict { w' with dicts := w'.dicts.push entries } w'.dicts.size = entries := by
      simp [World.dict]
    refine ⟨he.1.trans hgrows, .dict ?_ ?_ ?_⟩
    · exact Finset.mem_range.mpr (by rw [Array.size_push]; exact Nat.lt_succ_self _)
    · rw [hdict, List.forall₂_map_left_iff, List.forall₂_map_right_iff]
      exact he.2.imp fun _ _ h => h.1.grown hgrows
    · rw [hdict, List.forall₂_map_left_iff, List.forall₂_map_right_iff]
      exact he.2.imp fun _ _ h => h.2.grown hgrows

end

/-! ## Literal values -/

/-- **A literal value** of a world. -/
inductive Literal (w : World) : Value → Prop
  | none : Literal w .none
  | bool (b : Bool) : Literal w (.bool b)
  | int {n : Int64} (h : n ≠ Int64.minValue) : Literal w (.int n)
  | str (i : Nat) (s : List Char) : Literal w (.str i s)
  | bytes {b : List UInt8} (h : ∀ x ∈ b, x.toNat < 128) : Literal w (.bytes b)
  | range {start stop step : Int64} (hstart : start ≠ Int64.minValue) (hstop : stop ≠ Int64.minValue)
      (hstep : step ≠ Int64.minValue) (hzero : step ≠ 0) : Literal w (.range start stop step)
  | list {r : Ref} (hr : r < w.lists.size) (h : ∀ v ∈ w.list r, Literal w v) : Literal w (.list r)
  | tuple (i : Nat) {vs : List Value} (h : ∀ v ∈ vs, Literal w v) : Literal w (.tuple i vs)
  | dict {r : Ref} (hr : r < w.dicts.size) (hk : ∀ e ∈ w.dict r, Literal w e.1)
      (hv : ∀ e ∈ w.dict r, Literal w e.2)
      (hd : (w.dict r).Pairwise fun a b => w.equal? a.1 b.1 = some false) : Literal w (.dict r)

theorem exists_forall₂ {α β : Type} {R : α → β → Prop} {P : β → Prop} {xs : List α}
    (h : ∀ x ∈ xs, ∃ d, R x d ∧ P d) : ∃ ds, List.Forall₂ R xs ds ∧ ∀ d ∈ ds, P d := by
  induction xs with
  | nil => exact ⟨[], .nil, nofun⟩
  | cons x xs ih =>
    obtain ⟨hx, hxs⟩ := List.forall_mem_cons.mp h
    obtain ⟨d, hR, hP⟩ := hx
    obtain ⟨ds, hRs, hPs⟩ := ih hxs
    exact ⟨d :: ds, .cons hR hRs, List.forall_mem_cons.mpr ⟨hP, hPs⟩⟩

/-- Entries whose keys are different hold entries whose keys are. -/
theorem keys_differ {w : World} {entries : List (Value × Value)} {items : List (Datum × Datum)}
    (h : List.Forall₂ (EntriesHold w) entries items)
    (hd : entries.Pairwise fun a b => w.equal? a.1 b.1 = some false) :
    items.Pairwise fun a b => a.1.equal b.1 = false := by
  induction h with
  | nil => exact .nil
  | @cons e item entries items he hes ih =>
    obtain ⟨hfirst, hrest⟩ := List.pairwise_cons.mp hd
    refine .cons (fun item' hi => ?_) (ih hrest)
    obtain ⟨e', he', hhold⟩ := exists_of_forall₂ hes hi
    exact Option.some.inj ((he.1.equalValue_eq hhold.1).symm.trans (hfirst e' he'))

/-- **A literal value** holds a sound datum. -/
theorem Literal.holds {w : World} {v : Value} (h : Literal w v) : ∃ d, Holds w w.places v d ∧ d.Sound := by
  induction h with
  | none => exact ⟨_, .none, .none⟩
  | bool b => exact ⟨_, .bool b, .bool b⟩
  | int h => exact ⟨_, .int _, .int h⟩
  | str i s => exact ⟨_, .str i s, .str s⟩
  | bytes h => exact ⟨_, .bytes _, .bytes h⟩
  | range hstart hstop hstep hzero => exact ⟨_, .range _ _ _, .range hstart hstop hstep hzero⟩
  | list hr h ih =>
    obtain ⟨ds, hds, hsound⟩ := exists_forall₂ ih
    exact ⟨.list ds, .list (Finset.mem_range.mpr hr) hds, .list hsound⟩
  | tuple i h ih =>
    obtain ⟨ds, hds, hsound⟩ := exists_forall₂ ih
    exact ⟨.tuple ds, .tuple hds, .tuple hsound⟩
  | @dict r hr hk hv hd ihk ihv =>
    have hentries : ∀ e ∈ w.dict r, ∃ item, EntriesHold w e item ∧ item.1.Sound ∧ item.2.Sound := by
      intro e he
      obtain ⟨dk, hdk, hsoundk⟩ := ihk e he
      obtain ⟨dv, hdv, hsoundv⟩ := ihv e he
      exact ⟨(dk, dv), ⟨hdk, hdv⟩, hsoundk, hsoundv⟩
    obtain ⟨items, hitems, hsound⟩ := exists_forall₂ hentries
    refine ⟨.dict items, .dict (Finset.mem_range.mpr hr) ?_ ?_, .dict ?_ ?_ (keys_differ hitems hd)⟩
    · rw [List.forall₂_map_left_iff, List.forall₂_map_right_iff]
      exact hitems.imp fun _ _ h => h.1
    · rw [List.forall₂_map_left_iff, List.forall₂_map_right_iff]
      exact hitems.imp fun _ _ h => h.2
    · exact fun item hi => (hsound item hi).1
    · exact fun item hi => (hsound item hi).2

/-- Values that hold one datum are of one type. -/
theorem Holds.typeName_eq {w w' : World} {p q : Places} {v v' : Value} {d : Datum} (h : Holds w p v d)
    (h' : Holds w' q v' d) : v.typeName = v'.typeName := by
  cases h <;> cases h' <;> rfl

/-! ## Evaluation with a bound -/

/-- Compiles and evaluates an expression; computations nest so many steps. -/
def evaluateWithin (steps : Nat) (source : List Char) (filename : String) (globals : Ref) : Host Outcome := do
  match ← compileSource (Text.trim source) filename .eval false with
  | .ok code =>
    if code.isCoroutine then Host.ofEval (Eval.ofOp (Op.newCoroutine "<module>" (.source code globals)))
    else Host.ofEval (runModule plainly steps code globals)
  | .error e => return .error e

/-- **The text of a sound datum** is evaluated to a value that holds it. -/
theorem Datum.Sound.evaluated {d : Datum} (h : d.Sound) {steps : Nat} (hsteps : d.depth + 3 ≤ steps)
    (filename : String) {globals : Ref} {w : World} (hempty : w.space globals = .empty) :
    ∃ v w', evaluateWithin steps d.text filename globals w = some (.ok v, w') ∧ w.Grows w' ∧
      Holds w' w'.places v d := by
  obtain ⟨steps, rfl⟩ := Nat.exists_eq_add_of_le' (Nat.le_trans (Nat.le_add_left 1 _) hsteps)
  obtain ⟨line, hcode⟩ := h.compile_text filename
  have hbuilds : Builds plainly steps (Frame.ofModule globals false false) d.expr d :=
    h.builds (Nat.le_of_succ_le_succ hsteps) rfl
  obtain ⟨v, w', heval, hgrows, hholds⟩ := hbuilds w hempty
  refine ⟨v, w', ?_, hgrows, hholds⟩
  have hcompile : compileSource (Text.trim d.text) filename .eval false w =
      some (.ok ⟨filename, .eval, false, [.mk line (.eval d.expr)]⟩, w) := by
    rw [h.shows.trim]
    simp only [compileSource, hcode]
  have hrun : runModule plainly (steps + 1) ⟨filename, .eval, false, [.mk line (.eval d.expr)]⟩ globals w =
      .done (.ok v) w' := heval
  change (compileSource (Text.trim d.text) filename .eval false w >>= fun p => _) = _
  rw [hcompile]
  change Host.ofEval (runModule plainly (steps + 1) _ globals) w = _
  unfold Host.ofEval
  rw [hrun]
  rfl

/-- **A literal value is rebuilt** from the form that shows it, in a namespace without names: evaluating
the form succeeds, and the result is a value of the same type that equals the first one and has the same
form. The nesting that showing a value allows for is enough. -/
theorem literal_rebuilt (w : World) (v : Value) (h : Literal w v) (filename : String) (globals : Ref)
    (hempty : w.space globals = .empty) :
    ∃ text, w.show? v = some text ∧
      evaluateText text filename globals = evaluateWithin horizon text filename globals ∧
      ∀ steps, w.depthFor v ≤ steps → ∃ v' w',
        evaluateWithin steps text filename globals w = some (.ok v', w') ∧ v'.typeName = v.typeName ∧
          w'.equal? v' v = some true ∧ w'.show? v' = some text := by
  obtain ⟨d, hd, hsound⟩ := h.holds
  refine ⟨d.text, hd.showValue_eq, rfl, fun steps hsteps => ?_⟩
  have hdepth := hd.depth_le
  have hbound : d.depth + 3 ≤ steps := by
    unfold World.depthFor at hsteps
    omega
  obtain ⟨v', w', heval, hgrows, hd'⟩ := hsound.evaluated hbound filename hempty
  refine ⟨v', w', heval, hd'.typeName_eq hd, ?_, hd'.showValue_eq⟩
  rw [hd'.equalValue_eq (hd.grown hgrows), d.equal_self]

/-- A dictionary with a list and a range, under a text with a quote and under a tuple with a negative
integer. -/
theorem literal_rebuilt_nested :
    let w : World := { World.empty with
      lists := #[[.int 5, .bytes [0, 92], .tuple 2 []]]
      dicts := #[[(.str 0 "it's".toList, .list 0), (.tuple 1 [.int (-3)], .range 0 10 2)]] }
    Literal w (.dict 0) ∧ w.space 0 = .empty ∧
      w.show? (.dict 0) =
        some "\x7b\"it's\": [5, b'\\x00\\\\', ()], (-3,): range(0, 10, 2)\x7d".toList ∧
      ∃ text, w.show? (.dict 0) = some text ∧
        evaluateText text "<doc>" 0 = evaluateWithin horizon text "<doc>" 0 ∧
        ∀ steps, w.depthFor (.dict 0) ≤ steps → ∃ v' w',
          evaluateWithin steps text "<doc>" 0 w = some (.ok v', w') ∧ v'.typeName = "dict" ∧
            w'.equal? v' (.dict 0) = some true ∧ w'.show? v' = some text := by
  intro w
  have hlist : Literal w (.list 0) := by
    refine .list (by decide) (List.forall_mem_cons.mpr ⟨.int (by decide), List.forall_mem_cons.mpr
      ⟨.bytes (by simp), List.forall_mem_singleton.mpr (.tuple 2 (List.forall_mem_nil _))⟩⟩)
  have hkey : Literal w (.tuple 1 [.int (-3)]) := .tuple 1 (List.forall_mem_singleton.mpr (.int (by decide)))
  have hrange : Literal w (.range 0 10 2) := .range (by decide) (by decide) (by decide) (by decide)
  have hdiffer : w.equal? (.str 0 "it's".toList) (.tuple 1 [.int (-3)]) = some false := by
    simp [World.equal?, World.equalDepth, Lang.equal?, equalNumbers, Value.asInt?, Value.asFloat?]
  have hliteral : Literal w (.dict 0) := by
    refine .dict (by decide) (List.forall_mem_cons.mpr ⟨.str 0 _, List.forall_mem_singleton.mpr hkey⟩)
      (List.forall_mem_cons.mpr ⟨hlist, List.forall_mem_singleton.mpr hrange⟩) ?_
    exact .cons (List.forall_mem_singleton.mpr hdiffer) (.cons (List.forall_mem_nil _) .nil)
  exact ⟨hliteral, rfl, by decide +kernel, literal_rebuilt w (.dict 0) hliteral "<doc>" 0 rfl⟩

end Transcript.Lang
