import Transcript.Lang.Task
import Transcript.Proofs.Lang.Link

/-!
# Worlds that are twins

Two worlds in which the same program runs are twins if whatever stands at places that belong together is
twins, and if the first world has left alone the places that the program cannot get at. Operations that
change both worlds alike keep them so.

Results:
* `Link.Stored.push`, `Link.Stored.set`: one store of two worlds.
* `World.Twins.newList`, `World.Twins.setSpace`: the data of two worlds.
* `World.Twins.updateTask`, `World.Twins.wakeTask`: their tasks.
* `World.Twins.newLoop`, `World.Twins.setLoop`: their event loops.
-/

namespace Transcript.Lang

variable {L : Link}

/-! ## Stores -/

/-- **A store of two worlds.** The relation may depend on the place. The places that the program cannot get
at hold what they have held from the beginning. -/
structure Link.Stored {α : Type} (L : Link) (s : Store) (R : Nat → α → α → Prop) (base a a' : Array α) :
    Prop where
  /-- The next places belong together. -/
  size : L.Fresh s a.size a'.size
  /-- At places that belong together there are twins, or there is nothing. -/
  items : ∀ {r r' : Nat}, L.Pairs s r r' → Option.Rel (R r) a[r]? a'[r']?
  /-- The other old places are left alone. -/
  kept : ∀ {r : Nat}, r < L.left.count s → ¬ L.own s r → a[r]? = base[r]?

namespace Link.Stored

variable {α : Type} {s : Store} {R R' : Nat → α → α → Prop} {base a a' : Array α} {r r' : Nat} {x x' : α}

theorem lt_iff (h : L.Stored s R base a a') (hr : L.Pairs s r r') : r' < a'.size ↔ r < a.size := by
  have hitems := h.items hr
  constructor
  · intro hlt
    by_contra hge
    rw [Array.getElem?_eq_getElem hlt, Array.getElem?_eq_none (Nat.le_of_not_lt hge)] at hitems
    cases hitems
  · intro hlt
    by_contra hge
    rw [Array.getElem?_eq_getElem hlt, Array.getElem?_eq_none (Nat.le_of_not_lt hge)] at hitems
    cases hitems

theorem left_le (h : L.Stored s R base a a') : L.left.count s ≤ a.size := by
  obtain ⟨i, hi, -⟩ := h.size
  omega

/-- Something new is put at the end of both. -/
theorem push (h : L.Stored s R base a a') (hx : R a.size x x') : L.Stored s R base (a.push x) (a'.push x') where
  size := by
    rw [Array.size_push, Array.size_push]
    exact fresh_succ h.size
  items {r r'} hr := by
    rw [Array.getElem?_push, Array.getElem?_push]
    by_cases hlast : r = a.size
    · subst hlast
      rw [if_pos rfl, if_pos ((hr.eq_iff h.size.pairs).mpr rfl)]
      exact .some hx
    · rw [if_neg hlast, if_neg fun hr' => hlast ((hr.eq_iff h.size.pairs).mp hr')]
      exact h.items hr
  kept {r} hlt hown := by
    have hle := h.left_le
    rw [Array.getElem?_push, if_neg (by omega)]
    exact h.kept hlt hown

/-- What stands at places that belong together is replaced. -/
theorem set (h : L.Stored s R base a a') (hr : L.Pairs s r r') (hx : R r x x') :
    L.Stored s R base (a.setIfInBounds r x) (a'.setIfInBounds r' x') where
  size := by
    rw [Array.size_setIfInBounds, Array.size_setIfInBounds]
    exact h.size
  items {q q'} hq := by
    rw [Array.getElem?_setIfInBounds, Array.getElem?_setIfInBounds]
    by_cases hsame : r = q
    · subst hsame
      rw [if_pos rfl, if_pos ((hr.eq_iff hq).mpr rfl)]
      by_cases hlt : r < a.size
      · rw [if_pos hlt, if_pos ((h.lt_iff hr).mpr hlt)]
        exact .some hx
      · rw [if_neg hlt, if_neg fun hlt' => hlt ((h.lt_iff hr).mp hlt')]
        exact .none
    · rw [if_neg hsame, if_neg fun hsame' => hsame ((hr.eq_iff hq).mp hsame')]
      exact h.items hq
  kept {q} hlt hown := by
    have hne : r ≠ q := by
      rintro rfl
      rcases hr with ⟨hr, -⟩ | ⟨i, hi, -⟩
      · exact hown hr
      · omega
    rw [Array.getElem?_setIfInBounds, if_neg hne]
    exact h.kept hlt hown

/-- Where nothing is asked of what stands at an old place, it may change on the first side. -/
theorem setLeft (h : L.Stored s R base a a') (hown : L.own s r) (hR : ∀ x x', R r x x') (x : α) :
    L.Stored s R base (a.setIfInBounds r x) a' where
  size := by
    rw [Array.size_setIfInBounds]
    exact h.size
  items {q q'} hq := by
    have hitems := h.items hq
    rw [Array.getElem?_setIfInBounds]
    by_cases hsame : r = q
    · subst hsame
      rw [if_pos rfl]
      by_cases hlt : r < a.size
      · rw [if_pos hlt]
        rw [Array.getElem?_eq_getElem hlt] at hitems
        generalize a'[q']? = o at hitems ⊢
        cases hitems with
        | some _ => exact .some (hR _ _)
      · rw [if_neg hlt]
        rwa [Array.getElem?_eq_none (Nat.le_of_not_lt hlt)] at hitems
    · rwa [if_neg hsame]
  kept {q} hlt hq := by
    have hne : r ≠ q := fun hsame => hq (hsame ▸ hown)
    rw [Array.getElem?_setIfInBounds, if_neg hne]
    exact h.kept hlt hq

/-- Where nothing is asked of what stands at an old place, it may change on the second side. -/
theorem setRight (h : L.Stored s R base a a') (hown : L.own s r) (hR : ∀ x x', R r x x') (x' : α) :
    L.Stored s R base a (a'.setIfInBounds r x') where
  size := by
    rw [Array.size_setIfInBounds]
    exact h.size
  items {q q'} hq := by
    have hitems := h.items hq
    have hr : L.Pairs s r r := .inl ⟨hown, rfl⟩
    rw [Array.getElem?_setIfInBounds]
    by_cases hsame : r = q'
    · subst hsame
      obtain rfl := (hr.eq_iff hq).mp rfl
      rw [if_pos rfl]
      by_cases hlt : r < a'.size
      · rw [if_pos hlt]
        rw [Array.getElem?_eq_getElem hlt] at hitems
        generalize a[r]? = o at hitems ⊢
        cases hitems with
        | some _ => exact .some (hR _ _)
      · rw [if_neg hlt]
        rwa [Array.getElem?_eq_none (Nat.le_of_not_lt hlt)] at hitems
    · rwa [if_neg hsame]
  kept := h.kept

theorem mono (h : L.Stored s R base a a') (hR : ∀ r x x', R r x x' → R' r x x') :
    L.Stored s R' base a a' :=
  { h with items := fun hr => option_rel_imp (h.items hr) (hR _) }

end Link.Stored

/-! ## Worlds -/

/-- **Worlds that are twins.** -/
structure World.Twins (L : Link) (w w' : World) : Prop where
  lists : L.Stored .list (fun _ => L.Values) L.left.lists w.lists w'.lists
  dicts : L.Stored .dict (fun _ => L.Entries) L.left.dicts w.dicts w'.dicts
  functions : L.Stored .function (fun _ => Function.Twins L) L.left.functions w.functions w'.functions
  coroutines : L.Stored .coroutine (fun _ => Coroutine.Twins L) L.left.coroutines w.coroutines w'.coroutines
  spaces : L.Stored .space (fun _ => L.Bound) L.left.spaces w.spaces w'.spaces
  tasks : L.Stored .task (Task.Twins L w.tasks.size) L.left.tasks w.tasks w'.tasks
  /-- Old loops are never driven again, so nothing is asked of them. -/
  loops : L.Stored .loop (fun r l l' => L.New .loop r → l.Twins L w.tasks.size l') L.left.loops w.loops
    w'.loops
  identities : L.Fresh .identity w.identities w'.identities
  written : w'.written = w.written
  created : w'.created = w.created
  now : L.Times w.now w'.now
  /-- Functions never change. -/
  oldFunctions : ∀ r < L.left.functions.size, w.functions[r]? = L.left.functions[r]?
  /-- Every task that is made is counted. -/
  counted : w.created + L.left.tasks.size = L.left.created + w.tasks.size

/-- **Worlds that are twins at a turn of the program:** the loops that are being driven, if any, were made by
the runs, and whoever has the turn are twins. -/
structure World.TwinsAt (L : Link) (place : Option (Ref × Ref)) (w w' : World) : Prop extends World.Twins L w w' where
  running : w.running = place.map Prod.fst
  running' : w'.running = place.map Prod.snd
  driven : ∀ p ∈ place, L.Fresh .loop p.1 p.2
  current : place.isSome → w.current.Twins L w.tasks.size w'.current

namespace World.Twins

variable {w w' : World} (h : w.Twins L w') {r r' : Nat}

include h

/-! ### What is read -/

theorem list (hr : L.Pairs .list r r') : L.Values (w.list r) (w'.list r') := both_getD (h.lists.items hr) .nil

theorem dict (hr : L.Pairs .dict r r') : L.Entries (w.dict r) (w'.dict r') := both_getD (h.dicts.items hr) .nil

theorem space (hr : L.Pairs .space r r') : L.Bound (w.space r) (w'.space r') :=
  both_getD (h.spaces.items hr) .empty

theorem function (hr : L.Pairs .function r r') :
    ((w.functions[r]?).getD default).Twins L ((w'.functions[r']?).getD default) :=
  both_getD (h.functions.items hr) ⟨rfl, .inl rfl, .nil⟩

theorem coroutine (hr : L.Pairs .coroutine r r') :
    ((w.coroutines[r]?).getD default).Twins L ((w'.coroutines[r']?).getD default) :=
  both_getD (h.coroutines.items hr) ⟨rfl, .none⟩

theorem task (hr : L.Pairs .task r r') : (w.task r).LookAlike L (w'.task r') :=
  both_getD (option_rel_imp (h.tasks.items hr) fun _ _ ht => ht.toLookAlike) .default

theorem task_of_lt (hr : L.Pairs .task r r') (hlt : r < w.tasks.size) :
    (w.task r).Twins L w.tasks.size r (w'.task r') := by
  have hitems := h.tasks.items hr
  have hlt' := (h.tasks.lt_iff hr).mpr hlt
  unfold World.task
  rw [Array.getElem?_eq_getElem hlt, Array.getElem?_eq_getElem hlt'] at hitems ⊢
  cases hitems with
  | some ht => exact ht

theorem loop (hr : L.Fresh .loop r r') : (w.loop r).Twins L w.tasks.size (w'.loop r') := by
  exact both_getD (option_rel_imp (h.loops.items hr.pairs) fun _ _ hl => hl hr.new) (.default _)

/-! ### Data -/

theorem newList {vs vs' : List Value} (hs : L.Values vs vs') :
    World.Twins L { w with lists := w.lists.push vs } { w' with lists := w'.lists.push vs' } :=
  { h with lists := h.lists.push hs }

theorem newDict {es es' : List (Value × Value)} (hs : L.Entries es es') :
    World.Twins L { w with dicts := w.dicts.push es } { w' with dicts := w'.dicts.push es' } :=
  { h with dicts := h.dicts.push hs }

theorem newFunction {g g' : Function} (hg : g.Twins L g') :
    World.Twins L { w with functions := w.functions.push g } { w' with functions := w'.functions.push g' } :=
  { h with
    functions := h.functions.push hg
    oldFunctions := fun r hr => by
      have hle : L.left.functions.size ≤ w.functions.size := h.functions.left_le
      rw [Array.getElem?_push, if_neg (by omega)]
      exact h.oldFunctions r hr }

theorem newCoroutine {c c' : Coroutine} (hc : c.Twins L c') :
    World.Twins L { w with coroutines := w.coroutines.push c } { w' with coroutines := w'.coroutines.push c' } :=
  { h with coroutines := h.coroutines.push hc }

theorem setList (hr : L.Pairs .list r r') {vs vs' : List Value} (hs : L.Values vs vs') :
    (w.setList r vs).Twins L (w'.setList r' vs') :=
  { h with lists := h.lists.set hr hs }

theorem setDict (hr : L.Pairs .dict r r') {es es' : List (Value × Value)} (hs : L.Entries es es') :
    (w.setDict r es).Twins L (w'.setDict r' es') :=
  { h with dicts := h.dicts.set hr hs }

theorem setCoroutine (hr : L.Pairs .coroutine r r') {c c' : Coroutine} (hc : c.Twins L c') :
    World.Twins L { w with coroutines := w.coroutines.setIfInBounds r c }
      { w' with coroutines := w'.coroutines.setIfInBounds r' c' } :=
  { h with coroutines := h.coroutines.set hr hc }

theorem setSpace (hr : L.Pairs .space r r') {b b' : Bindings Value} (hb : L.Bound b b') :
    (w.setSpace r b).Twins L (w'.setSpace r' b') :=
  { h with spaces := h.spaces.set hr hb }

theorem fresh : World.Twins L { w with identities := w.identities + 1 }
    { w' with identities := w'.identities + 1 } :=
  { h with identities := Link.fresh_succ h.identities }

theorem write (text : List Char) : (w.write text).Twins L (w'.write text) :=
  { h with written := congrArg (text :: ·) h.written }

/-! ### Tasks -/

/-- Who is driven and who has the turn does not count. -/
theorem turn (running running' : Option Ref) (current current' : Waker) :
    World.Twins L { w with running := running, current := current }
      { w' with running := running', current := current' } :=
  { h with }

/-- A task is changed, if there is one. -/
theorem updateTask (hr : L.Pairs .task r r') {t t' : Task}
    (ht : (w.task r).Twins L w.tasks.size r (w'.task r') → t.Twins L w.tasks.size r t') :
    (w.setTask r t).Twins L (w'.setTask r' t') := by
  have hsize : (w.setTask r t).tasks.size = w.tasks.size := Array.size_setIfInBounds
  by_cases hlt : r < w.tasks.size
  · refine { h with tasks := ?_, loops := ?_, counted := ?_ }
    · rw [hsize]
      exact h.tasks.set hr (ht (h.task_of_lt hr hlt))
    · rw [hsize]
      exact h.loops
    · rw [hsize]
      exact h.counted
  · have hlt' : ¬ r' < w'.tasks.size := fun h' => hlt ((h.tasks.lt_iff hr).mp h')
    unfold World.setTask
    rw [Array.setIfInBounds_eq_of_size_le (Nat.le_of_not_lt hlt),
      Array.setIfInBounds_eq_of_size_le (Nat.le_of_not_lt hlt')]
    exact h

theorem setLoop (hr : L.Fresh .loop r r') {l l' : EventLoop} (hl : l.Twins L w.tasks.size l') :
    (w.setLoop r l).Twins L (w'.setLoop r' l') :=
  { h with loops := h.loops.set hr.pairs fun _ => hl }

theorem newLoop : w.newLoop.2.Twins L w'.newLoop.2 :=
  { h with loops := h.loops.push fun _ => .default _ }

theorem newLoop_fresh : L.Fresh .loop w.newLoop.1 w'.newLoop.1 := h.loops.size

/-- What becomes of an old loop does not count. -/
theorem setOldLoop (hr : L.own .loop r) (l l' : EventLoop) :
    (w.setLoop r l).Twins L w' ∧ w.Twins L (w'.setLoop r l') := by
  have hfree (x x' : EventLoop) : L.New .loop r → x.Twins L w.tasks.size x' := by
    intro hnew
    exact absurd (L.own_left hr) (Nat.not_lt_of_le hnew)
  constructor
  · exact { h with loops := h.loops.setLeft hr hfree l }
  · exact { h with loops := h.loops.setRight hr hfree l' }

theorem wakeRoot (hr : L.Fresh .loop r r') : (w.wakeRoot r).Twins L (w'.wakeRoot r') :=
  h.setLoop hr { h.loop hr with rootWoken := rfl }

/-- A task is woken that exists. -/
theorem wakeTask (hr : L.Pairs .task r r') (hlt : r < w.tasks.size) :
    (w.wakeTask r).Twins L (w'.wakeTask r') := by
  have ht := h.task_of_lt hr hlt
  unfold World.wakeTask
  dsimp only
  by_cases hnew : L.New .task r
  swap
  · -- The loop is old: whatever becomes of it on either side, the worlds stay twins.
    obtain ⟨hown, hold⟩ := ht.loop.own fun hl => hnew (ht.onNew.mp hl)
    rw [hold]
    split
    · split
      · exact h
      · exact (h.setOldLoop hown default _).2
    · have hleft (l : EventLoop) : (w.setLoop (w.task r).loop l).Twins L w' := (h.setOldLoop hown l default).1
      split
      · exact hleft _
      · exact ((hleft _).setOldLoop hown default _).2
  · have hfresh := ht.loop.fresh (ht.onNew.mpr hnew)
    have hl := h.loop hfresh
    rw [both_isSome ht.outcome, Link.Pairs.contains hl.queue hr]
    split
    · exact h
    · refine h.setLoop hfresh { hl with queue := ?_, ready := ?_, rootWoken := rfl }
      · exact List.rel_append hl.queue (.cons hr .nil)
      · intro q hq
        rcases List.mem_append.mp hq with hq | hq
        · exact hl.ready q hq
        · exact List.mem_singleton.mp hq ▸ ⟨hlt, hnew⟩

theorem wake (hr : L.Fresh .loop r r') {who who' : Waker} (hw : who.Twins L w.tasks.size who') :
    (w.wake r who).Twins L (w'.wake r' who') := by
  cases hw with
  | root => exact h.wakeRoot hr
  | task ht hlt => exact h.wakeTask ht hlt

end World.Twins

end Transcript.Lang
