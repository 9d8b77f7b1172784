import Transcript.Proofs.Lang.TwinTask
import Mathlib.Logic.Relation

/-!
# What programs can get at

A program that has a namespace gets at the values bound in it, at the items of lists, at the namespaces of
functions, and so on. What it can get at when it begins is the same in two worlds if the places that it can
reach hold the same in both; then the two worlds are twins.

Results:
* `Value.twins_self`: a value whose places are the program's own is its own twin.
* `World.Reaches.mem_of_closed`: a list of places bounds what can be reached.
* `World.Extended.reaches_space`: new namespaces with bindings of before lead to nothing new but themselves.
* `World.Twins.leaves`: twins leave alone what their program cannot reach.
* `twins_of_same`, `reach_twins`: worlds that hold the same where a program can get at are twins.
-/

namespace Transcript.Lang

/-- **A place** of some kind. -/
abbrev Place := Store × Nat

/-- Places with contents that change in view of programs. Functions never change, identities have no contents,
and event loops are no values. -/
def Store.isMutable : Store → Bool
  | .function | .loop | .identity => false
  | .list | .dict | .coroutine | .space | .task => true

/-! ## Places -/

mutual

/-- The places in a value, without going through a reference. -/
def Value.places : Value → List Place
  | .str i _ => [(.identity, i)]
  | .list r => [(.list, r)]
  | .tuple i items => (.identity, i) :: Value.placesOf items
  | .dict r => [(.dict, r)]
  | .function r => [(.function, r)]
  | .method receiver _ => receiver.places
  | .module i => [(.identity, i)]
  | .coroutine r => [(.coroutine, r)]
  | .task r => [(.task, r)]
  | .exception i _ args => (.identity, i) :: Value.placesOf args
  | _ => []

/-- The places in the values of a list. -/
def Value.placesOf : List Value → List Place
  | [] => []
  | v :: vs => v.places ++ Value.placesOf vs

end

/-- The places in bindings. -/
def boundPlaces (b : Bindings Value) : List Place := b.entries.flatMap fun e => e.2.places

theorem mem_boundPlaces {b : Bindings Value} {p : Place} :
    p ∈ boundPlaces b ↔ ∃ name v, b.get? name = some v ∧ p ∈ v.places := by
  unfold boundPlaces
  rw [List.mem_flatMap]
  constructor
  · rintro ⟨⟨name, v⟩, he, hp⟩
    exact ⟨name, v, Bindings.mem_entries.mp he, hp⟩
  · rintro ⟨name, v, hget, hp⟩
    exact ⟨(name, v), Bindings.mem_entries.mpr hget, hp⟩

theorem mem_boundPlaces_update {b c : Bindings Value} {p : Place} (h : p ∈ boundPlaces (b.update c)) :
    p ∈ boundPlaces b ∨ p ∈ boundPlaces c := by
  obtain ⟨name, v, hget, hp⟩ := mem_boundPlaces.mp h
  rw [Bindings.get?_update, Option.or_eq_some_iff] at hget
  rcases hget with hget | ⟨-, hget⟩
  · exact .inr (mem_boundPlaces.mpr ⟨name, v, hget, hp⟩)
  · exact .inl (mem_boundPlaces.mpr ⟨name, v, hget, hp⟩)

theorem mem_boundPlaces_insert {b : Bindings Value} {name : String} {v : Value} {p : Place}
    (h : p ∈ boundPlaces (b.insert name v)) : p ∈ v.places ∨ p ∈ boundPlaces b := by
  obtain ⟨name', v', hget, hp⟩ := mem_boundPlaces.mp h
  by_cases hname : name = name'
  · subst hname
    rw [Bindings.get?_insert_self] at hget
    cases hget
    exact .inl hp
  · rw [Bindings.get?_insert_of_ne b v hname] at hget
    exact .inr (mem_boundPlaces.mpr ⟨name', v', hget, hp⟩)

/-- The places in a function. -/
def Function.places (g : Function) : List Place :=
  (.space, g.globals) :: g.defaults.flatMap fun o => (o.map Value.places).getD []

/-- The places in a computation that waits to be started. -/
def Pending.places : Pending → List Place
  | .call g locals => g.places ++ boundPlaces locals
  | .sleep _ result => result.places
  | .gather items => Value.placesOf items
  | .source _ globals => [(.space, globals)]

/-- The places in an ending. -/
def endingPlaces : Option Ending → List Place
  | none => []
  | some (.ok v) => v.places
  | some (.error e) => Value.placesOf e.args

/-- The places in a task: those of what it shows, and its loop. Nothing of its coroutine is left to those who
hold the task. -/
def Task.places (t : Task) : List Place := (.loop, t.loop) :: (endingPlaces t.result ++ endingPlaces t.outcome)

namespace World

/-- **The places that a place leads to.** -/
def placesAt (w : World) : Store → Nat → List Place
  | .list, r => Value.placesOf (w.list r)
  | .dict, r => (w.dict r).flatMap fun e => e.1.places ++ e.2.places
  | .function, r => (w.functions[r]?.map Function.places).getD []
  | .coroutine, r => ((w.coroutines[r]?.bind Coroutine.pending).map Pending.places).getD []
  | .space, r => boundPlaces (w.space r)
  | .task, r => (w.tasks[r]?.map Task.places).getD []
  | .loop, _ | .identity, _ => []

/-- **A program that can get at a place gets at another one.** -/
def Reaches (w : World) (p q : Place) : Prop := Relation.ReflTransGen (fun p q => q ∈ w.placesAt p.1 p.2) p q

/-- Everything that can be reached from a place exists. -/
def Holds (w : World) (p : Place) : Prop := ∀ q, w.Reaches p q → q.2 < w.count q.1

/-- **From two places no mutable value is reached in common.** -/
def Apart (w : World) (p q : Place) : Prop :=
  ∀ x : Place, x.1.isMutable → w.Reaches p x → ¬ w.Reaches q x

variable {w : World} {p q : Place}

/-- **A list of places bounds what can be reached** from one of them if no place of it leads outside. -/
theorem Reaches.mem_of_closed {ps : List Place} (h : w.Reaches p q) (hp : p ∈ ps)
    (hclosed : ∀ p ∈ ps, ∀ q ∈ w.placesAt p.1 p.2, q ∈ ps) : q ∈ ps := by
  induction h with
  | refl => exact hp
  | tail _ hstep ih => exact hclosed _ ih _ hstep

theorem holds_of_closed {ps : List Place} (hp : p ∈ ps) (hclosed : ∀ p ∈ ps, ∀ q ∈ w.placesAt p.1 p.2, q ∈ ps)
    (hexist : ∀ p ∈ ps, p.2 < w.count p.1) : w.Holds p :=
  fun _ hq => hexist _ (hq.mem_of_closed hp hclosed)

theorem apart_of_closed {ps qs : List Place} (hp : p ∈ ps) (hq : q ∈ qs)
    (hps : ∀ p ∈ ps, ∀ q ∈ w.placesAt p.1 p.2, q ∈ ps) (hqs : ∀ p ∈ qs, ∀ q ∈ w.placesAt p.1 p.2, q ∈ qs)
    (hcommon : ∀ x ∈ ps, x.1.isMutable → x ∉ qs) : w.Apart p q :=
  fun x hmutable hpx hqx => hcommon x (hpx.mem_of_closed hp hps) hmutable (hqx.mem_of_closed hq hqs)

end World

/-! ## Twins of themselves -/

section

variable {L : Link}

/-- The places are the program's own. -/
def Link.Owns (L : Link) (ps : List Place) : Prop := ∀ p ∈ ps, L.own p.1 p.2

theorem Link.Owns.left {ps qs : List Place} (h : L.Owns (ps ++ qs)) : L.Owns ps :=
  fun p hp => h p (List.mem_append_left _ hp)

theorem Link.Owns.right {ps qs : List Place} (h : L.Owns (ps ++ qs)) : L.Owns qs :=
  fun p hp => h p (List.mem_append_right _ hp)

theorem Link.Owns.tail {p : Place} {ps : List Place} (h : L.Owns (p :: ps)) : L.Owns ps :=
  fun q hq => h q (List.mem_cons_of_mem _ hq)

theorem Link.Owns.head {s : Store} {r : Nat} {ps : List Place} (h : L.Owns ((s, r) :: ps)) : L.Pairs s r r :=
  .inl ⟨h (s, r) List.mem_cons_self, rfl⟩

theorem Link.Owns.of_flatMap {α : Type} {as : List α} {f : α → List Place} (h : L.Owns (as.flatMap f)) :
    ∀ a ∈ as, L.Owns (f a) :=
  fun a ha p hp => h p (List.mem_flatMap.mpr ⟨a, ha, hp⟩)

mutual

/-- **A value whose places are the program's own** is its own twin. -/
theorem Value.twins_self (v : Value) (h : L.Owns v.places) : v.Twins L v :=
  match v, h with
  | .none, _ => .none
  | .bool b, _ => .bool b
  | .int n, _ => .int n
  | .float f, _ => .float f
  | .str _ s, h => .str h.head s
  | .bytes b, _ => .bytes b
  | .list _, h => .list h.head
  | .tuple _ items, h => .tuple h.head (Value.twins_self_all items h.tail)
  | .dict _, h => .dict h.head
  | .range a b c, _ => .range a b c
  | .function _, h => .function h.head
  | .builtin b, _ => .builtin b
  | .method receiver m, h => .method (Value.twins_self receiver h) m
  | .module _, h => .module h.head
  | .coroutine _, h => .coroutine h.head
  | .task _, h => .task h.head
  | .exceptionType k, _ => .exceptionType k
  | .exception _ k args, h => .exception h.head k (Value.twins_self_all args h.tail)

theorem Value.twins_self_all (vs : List Value) (h : L.Owns (Value.placesOf vs)) : L.Values vs vs :=
  match vs, h with
  | [], _ => .nil
  | v :: vs, h => .cons (Value.twins_self v h.left) (Value.twins_self_all vs h.right)

end

theorem bound_twins_self {b : Bindings Value} (h : L.Owns (boundPlaces b)) : L.Bound b b :=
  List.forall₂_same.mpr fun e he => ⟨rfl, Value.twins_self e.2 (h.of_flatMap e he)⟩

theorem Function.twins_self {g : Function} (h : L.Owns g.places) : g.Twins L g := by
  refine ⟨rfl, .inr h.head, List.forall₂_same.mpr fun o ho => ?_⟩
  have howns := h.tail.of_flatMap o ho
  cases o with
  | none => exact .none
  | some v => exact .some (Value.twins_self v howns)

theorem Pending.twins_self {p : Pending} (h : L.Owns p.places) : p.Twins L p := by
  cases p with
  | call g locals => exact .call (Function.twins_self h.left) (bound_twins_self h.right)
  | sleep delay result => exact .sleep delay (Value.twins_self result h)
  | gather items => exact .gather (Value.twins_self_all items h)
  | source code globals => exact .source code h.head

theorem ending_twins_self {o : Option Ending} (h : L.Owns (endingPlaces o)) : Option.Rel L.Endings o o := by
  cases o with
  | none => exact .none
  | some e =>
    cases e with
    | ok v => exact .some (.ok (Value.twins_self v h))
    | error e => exact .some (.error ⟨rfl, Value.twins_self_all e.args h⟩)

/-- An old task is its own twin. -/
theorem Task.twins_self {t : Task} {n r : Nat} (h : L.Owns t.places) (hr : L.own .task r) : t.Twins L n r t := by
  have hold : ¬ L.New .task r := Nat.not_le_of_lt (L.own_left hr)
  have hloop : ¬ L.New .loop t.loop := Nat.not_le_of_lt (L.own_left (h _ List.mem_cons_self))
  exact {
    name := rfl
    hasHandle := rfl
    result := ending_twins_self h.tail.left
    outcome := ending_twins_self h.tail.right
    cancelled := rfl
    loop := h.head
    onNew := iff_of_false hloop hold
    coroutine := fun hnew => absurd hnew hold
    waiter := fun hnew => absurd hnew hold }

end

/-! ## The beginning of two runs -/

/-- **Two worlds hold the same at a place.** Nothing is asked of event loops. -/
def World.SameAt (w w' : World) : Store → Nat → Prop
  | .list, r => w'.lists[r]? = w.lists[r]?
  | .dict, r => w'.dicts[r]? = w.dicts[r]?
  | .function, r => w'.functions[r]? = w.functions[r]?
  | .coroutine, r => w'.coroutines[r]? = w.coroutines[r]?
  | .space, r => w'.spaces[r]? = w.spaces[r]?
  | .task, r => w'.tasks[r]? = w.tasks[r]?
  | .loop, _ | .identity, _ => True

theorem World.SameAt.refl {w : World} {s : Store} {r : Nat} : w.SameAt w s r := by
  cases s <;> trivial

theorem World.SameAt.placesAt {w w' : World} {s : Store} {r : Nat} (h : w.SameAt w' s r) :
    w'.placesAt s r = w.placesAt s r := by
  cases s with
  | list => exact congrArg (fun o : Option (List Value) => Value.placesOf (o.getD [])) h
  | dict =>
    exact congrArg (fun o : Option (List (Value × Value)) =>
      (o.getD []).flatMap fun e => e.1.places ++ e.2.places) h
  | function => exact congrArg (fun o : Option Function => (o.map Function.places).getD []) h
  | coroutine =>
    exact congrArg (fun o : Option Coroutine => ((o.bind Coroutine.pending).map Pending.places).getD []) h
  | space => exact congrArg (fun o : Option (Bindings Value) => boundPlaces (o.getD .empty)) h
  | task => exact congrArg (fun o : Option Task => (o.map Task.places).getD []) h
  | loop | identity => rfl

/-- **A world that was extended:** it holds the same as before at all places that it had. -/
structure World.Extended (w w' : World) : Prop where
  /-- It holds the same. -/
  same : ∀ s r, r < w.count s → w.SameAt w' s r
  /-- Nothing is taken away. -/
  count_le : ∀ s, w.count s ≤ w'.count s

namespace World.Extended

/-- An identity is used up. -/
theorem identity (w : World) : w.Extended { w with identities := w.identities + 1 } where
  same s _ _ := by
    cases s with
    | list | dict | function | coroutine | space | task => rfl
    | loop | identity => trivial
  count_le s := by
    cases s with
    | identity => exact Nat.le_succ _
    | list | dict | function | coroutine | space | task | loop => exact Nat.le_refl _

variable {w w' : World} {p q : Place}

/-- Nothing more is reached from a place of before. -/
theorem reaches (h : w.Extended w') (hp : w.Holds p) (hq : w'.Reaches p q) : w.Reaches p q := by
  induction hq with
  | refl => exact .refl
  | tail _ hstep ih =>
    rw [(h.same _ _ (hp _ ih)).placesAt] at hstep
    exact ih.tail hstep

theorem holds (h : w.Extended w') (hp : w.Holds p) : w'.Holds p :=
  fun q hq => Nat.lt_of_lt_of_le (hp q (h.reaches hp hq)) (h.count_le q.1)

/-- **What a new namespace leads to:** nothing new but itself, if its bindings are those of before. -/
theorem reaches_space (h : w.Extended w') {space : Ref} (hb : ∀ p ∈ boundPlaces (w'.space space), w.Holds p)
    (hq : w'.Reaches (.space, space) q) : q = (.space, space) ∨ q.2 < w.count q.1 := by
  rcases Relation.ReflTransGen.cases_head hq with rfl | ⟨p, hp, hq⟩
  · exact .inl rfl
  · exact .inr (hb p hp q (h.reaches (hb p hp) hq))

end World.Extended

/-- **The link of a program** that begins with a namespace and gets at what is reached from there. -/
def reachLink (w w' : World) (space : Ref) (h : w.Holds (.space, space)) (hle : ∀ s, w.count s ≤ w'.count s) :
    Link where
  own s r := w.Reaches (.space, space) (s, r)
  left := w
  right := w'
  own_left hown := h _ hown
  own_right hown := Nat.lt_of_lt_of_le (h _ hown) (hle _)

section

variable {L : Link}

theorem Link.Stored.start {α : Type} {s : Store} {R : Nat → α → α → Prop} {a a' : Array α}
    (ha : a.size = L.left.count s) (ha' : a'.size = L.right.count s)
    (h : ∀ r, L.own s r → Option.Rel (R r) a[r]? a'[r]?) : L.Stored s R a a a' where
  size := ⟨0, ha, ha'⟩
  items {r r'} hr := by
    rcases hr with ⟨hown, rfl⟩ | ⟨i, rfl, rfl⟩
    · exact h r' hown
    · rw [Array.getElem?_eq_none (by omega), Array.getElem?_eq_none (by omega)]
      exact .none
  kept _ _ := rfl

theorem rel_self {α : Type} {R : α → α → Prop} {o o' : Option α} (ho : o' = o) (h : ∀ a, o = some a → R a a) :
    Option.Rel R o o' := by
  subst ho
  cases o' with
  | none => exact .none
  | some a => exact .some (h a rfl)

/-- **Worlds that hold the same where a program can get at** are twins, if they have written the same and count
tasks from the same number on. -/
theorem twins_of_same (hclosed : ∀ s r, L.own s r → L.Owns (L.left.placesAt s r))
    (hsame : ∀ s r, L.own s r → L.left.SameAt L.right s r) (hwritten : L.right.written = L.left.written)
    (hcreated : L.right.created = L.left.created) : L.left.Twins L L.right where
  lists := .start rfl rfl fun r hr => rel_self (hsame _ r hr) fun vs hvs => by
    have howns := hclosed _ r hr
    change L.Owns (Value.placesOf (L.left.list r)) at howns
    unfold World.list at howns
    rw [hvs] at howns
    exact Value.twins_self_all vs howns
  dicts := .start rfl rfl fun r hr => rel_self (hsame _ r hr) fun es hes => by
    have howns := hclosed _ r hr
    change L.Owns ((L.left.dict r).flatMap _) at howns
    unfold World.dict at howns
    rw [hes] at howns
    refine List.forall₂_same.mpr fun e he => ?_
    have hentry := howns.of_flatMap e he
    exact ⟨Value.twins_self e.1 hentry.left, Value.twins_self e.2 hentry.right⟩
  functions := .start rfl rfl fun r hr => rel_self (hsame _ r hr) fun g hg => by
    have howns := hclosed _ r hr
    unfold World.placesAt at howns
    dsimp only at howns
    rw [hg] at howns
    exact Function.twins_self howns
  coroutines := .start rfl rfl fun r hr => rel_self (hsame _ r hr) fun c hc => by
    have howns := hclosed _ r hr
    unfold World.placesAt at howns
    dsimp only at howns
    rw [hc] at howns
    refine ⟨rfl, rel_self rfl fun p hp => Pending.twins_self ?_⟩
    rw [Option.bind_some, hp] at howns
    exact howns
  spaces := .start rfl rfl fun r hr => rel_self (hsame _ r hr) fun b hb => by
    have howns := hclosed _ r hr
    change L.Owns (boundPlaces (L.left.space r)) at howns
    unfold World.space at howns
    rw [hb] at howns
    exact bound_twins_self howns
  tasks := .start rfl rfl fun r hr => rel_self (hsame _ r hr) fun t ht => by
    have howns := hclosed _ r hr
    unfold World.placesAt at howns
    dsimp only at howns
    rw [ht] at howns
    exact Task.twins_self howns hr
  loops := .start rfl rfl fun r hr => by
    -- An old loop may hold anything, but both worlds have it.
    have hl : r < L.left.loops.size := L.own_left hr
    have hr' : r < L.right.loops.size := L.own_right hr
    rw [Array.getElem?_eq_getElem hl, Array.getElem?_eq_getElem hr']
    exact .some fun hnew => absurd hl (Nat.not_lt_of_le hnew)
  identities := ⟨0, rfl, rfl⟩
  written := hwritten
  created := hcreated
  now := Nat.add_comm _ _
  oldFunctions _ _ := rfl
  counted := rfl

/-- **Worlds that hold the same where a namespace leads** are twins for a program that begins with it. -/
theorem reach_twins {w w' : World} {space : Ref} (h : w.Holds (.space, space)) (hle : ∀ s, w.count s ≤ w'.count s)
    (hsame : ∀ p, w.Reaches (.space, space) p → w.SameAt w' p.1 p.2) (hwritten : w'.written = w.written)
    (hcreated : w'.created = w.created) : w.Twins (reachLink w w' space h hle) w' :=
  twins_of_same (L := reachLink w w' space h hle) (fun _ _ hown _ hp => Relation.ReflTransGen.tail hown hp)
    (fun _ _ hown => hsame _ hown) hwritten hcreated

namespace World.Twins

variable {w w' : World} (h : w.Twins L w')

include h

/-- **Twins leave alone** what is mutable and out of reach of the program, and what is not mutable. -/
theorem leaves {s : Store} {r : Nat} (hlt : r < L.left.count s) (hown : s.isMutable → ¬ L.own s r) :
    L.left.SameAt w s r := by
  cases s with
  | list => exact h.lists.kept hlt (hown rfl)
  | dict => exact h.dicts.kept hlt (hown rfl)
  | function => exact h.oldFunctions r hlt
  | coroutine => exact h.coroutines.kept hlt (hown rfl)
  | space => exact h.spaces.kept hlt (hown rfl)
  | task => exact h.tasks.kept hlt (hown rfl)
  | loop => trivial
  | identity => trivial

/-- Nothing is taken away. -/
theorem count_le (s : Store) : L.left.count s ≤ w.count s := by
  cases s with
  | list => exact h.lists.left_le
  | dict => exact h.dicts.left_le
  | function => exact h.functions.left_le
  | coroutine => exact h.coroutines.left_le
  | space => exact h.spaces.left_le
  | task => exact h.tasks.left_le
  | loop => exact h.loops.left_le
  | identity =>
    obtain ⟨i, hi, -⟩ := h.identities
    change _ ≤ w.identities
    omega

end World.Twins

end

end Transcript.Lang
