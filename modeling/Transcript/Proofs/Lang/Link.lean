import Transcript.Lang.Run
import Transcript.Proofs.Both

/-!
# Twins

The same program runs in two worlds. What it can get at when it begins stands at the same places of both;
what the two runs make from then on stands at places that are counted from the sizes of their worlds. A link
says which places of two such worlds belong together, once for the whole of both runs. Values are twins if
they are the same but for such places, and so are exceptions, functions, coroutines and the rest.

Results:
* `Link.Pairs.eq_iff`: a place belongs together with one place only.
* `Value.Twins.typeName`, `Value.Twins.asInt?`: what is seen of a value without its places.
* `Problem.Twins.raised`: problems become exceptions that are twins.
-/

namespace Transcript.Lang

/-- **The kinds of places** in a world. -/
inductive Store
  | list | dict | function | coroutine | space | task | loop | identity
  deriving DecidableEq

/-- The number of places of a kind. -/
def World.count (w : World) : Store → Nat
  | .list => w.lists.size
  | .dict => w.dicts.size
  | .function => w.functions.size
  | .coroutine => w.coroutines.size
  | .space => w.spaces.size
  | .task => w.tasks.size
  | .loop => w.loops.size
  | .identity => w.identities

/-- **A link of two worlds** in which a program begins to run. -/
structure Link where
  /-- The places that the program can get at. They are the same in both worlds. -/
  own : Store → Nat → Prop
  /-- The first world. -/
  left : World
  /-- The second world. -/
  right : World
  /-- The first world has them. -/
  own_left : ∀ {s : Store} {r : Nat}, own s r → r < left.count s
  /-- The second world has them. -/
  own_right : ∀ {s : Store} {r : Nat}, own s r → r < right.count s

namespace Link

variable {L : Link} {s : Store} {r r' q q' : Nat}

/-- **Places made by the two runs,** which belong together in the order in which they are made. -/
def Fresh (L : Link) (s : Store) (r r' : Nat) : Prop :=
  ∃ i, r = L.left.count s + i ∧ r' = L.right.count s + i

/-- **Places that belong together.** -/
def Pairs (L : Link) (s : Store) (r r' : Nat) : Prop := (L.own s r ∧ r' = r) ∨ L.Fresh s r r'

/-- **Places made by the first run.** -/
def New (L : Link) (s : Store) (r : Nat) : Prop := L.left.count s ≤ r

theorem Fresh.new (h : L.Fresh s r r') : L.New s r := by
  obtain ⟨i, rfl, -⟩ := h
  exact Nat.le_add_right _ _

/-- A place that is not new is the same in both worlds. -/
theorem Pairs.own (h : L.Pairs s r r') (hr : ¬ L.New s r) : L.own s r ∧ r' = r := by
  rcases h with h | h
  · exact h
  · exact absurd h.new hr

theorem Pairs.fresh (h : L.Pairs s r r') (hr : L.New s r) : L.Fresh s r r' := by
  rcases h with ⟨hown, -⟩ | h
  · exact absurd (L.own_left hown) (Nat.not_lt_of_le hr)
  · exact h

theorem Fresh.pairs (h : L.Fresh s r r') : L.Pairs s r r' := .inr h

/-- **A place belongs together with one place only.** -/
theorem Pairs.eq_iff (h : L.Pairs s r r') (hq : L.Pairs s q q') : r' = q' ↔ r = q := by
  rcases h with ⟨hr, rfl⟩ | ⟨i, rfl, rfl⟩ <;> rcases hq with ⟨hq, rfl⟩ | ⟨j, rfl, rfl⟩
  · rfl
  · have hl := L.own_left hr
    have hr := L.own_right hr
    omega
  · have hl := L.own_left hq
    have hr := L.own_right hq
    omega
  · omega

theorem Pairs.beq (h : L.Pairs s r r') (hq : L.Pairs s q q') : (r' == q') = (r == q) := by
  rw [Bool.eq_iff_iff, beq_iff_eq, beq_iff_eq]
  exact h.eq_iff hq

theorem fresh_succ {n n' : Nat} (h : L.Fresh s n n') : L.Fresh s (n + 1) (n' + 1) := by
  obtain ⟨i, rfl, rfl⟩ := h
  exact ⟨i + 1, rfl, rfl⟩

/-- A list of places is found in another one if its twin is. -/
theorem Pairs.contains {rs rs' : List Ref} (hs : List.Forall₂ (L.Pairs s) rs rs') (h : L.Pairs s r r') :
    rs'.contains r' = rs.contains r := by
  induction hs with
  | nil => rfl
  | cons hq _ ih => rw [List.contains_cons, List.contains_cons, ih, h.beq hq]

end Link

/-! ## Values -/

/-- **Values that are twins.** -/
inductive Value.Twins (L : Link) : Value → Value → Prop
  | none : Twins L .none .none
  | bool (b : Bool) : Twins L (.bool b) (.bool b)
  | int (n : Int64) : Twins L (.int n) (.int n)
  | float (f : Float) : Twins L (.float f) (.float f)
  | str {i i' : Nat} (h : L.Pairs .identity i i') (s : List Char) : Twins L (.str i s) (.str i' s)
  | bytes (b : List UInt8) : Twins L (.bytes b) (.bytes b)
  | list {r r' : Ref} (h : L.Pairs .list r r') : Twins L (.list r) (.list r')
  | tuple {i i' : Nat} (h : L.Pairs .identity i i') {vs vs' : List Value}
      (hs : List.Forall₂ (Twins L) vs vs') : Twins L (.tuple i vs) (.tuple i' vs')
  | dict {r r' : Ref} (h : L.Pairs .dict r r') : Twins L (.dict r) (.dict r')
  | range (start stop step : Int64) : Twins L (.range start stop step) (.range start stop step)
  | function {r r' : Ref} (h : L.Pairs .function r r') : Twins L (.function r) (.function r')
  | builtin (b : Builtin) : Twins L (.builtin b) (.builtin b)
  | method {v v' : Value} (h : Twins L v v') (m : Method) : Twins L (.method v m) (.method v' m)
  | module {i i' : Nat} (h : L.Pairs .identity i i') : Twins L (.module i) (.module i')
  | coroutine {r r' : Ref} (h : L.Pairs .coroutine r r') : Twins L (.coroutine r) (.coroutine r')
  | task {r r' : Ref} (h : L.Pairs .task r r') : Twins L (.task r) (.task r')
  | exceptionType (k : ExceptionKind) : Twins L (.exceptionType k) (.exceptionType k)
  | exception {i i' : Nat} (h : L.Pairs .identity i i') (k : ExceptionKind) {vs vs' : List Value}
      (hs : List.Forall₂ (Twins L) vs vs') : Twins L (.exception i k vs) (.exception i' k vs')

namespace Link

variable (L : Link)

/-- Lists of values that are twins. -/
abbrev Values : List Value → List Value → Prop := List.Forall₂ (Value.Twins L)

/-- Entries that are twins. -/
abbrev Entries : List (Value × Value) → List (Value × Value) → Prop :=
  List.Forall₂ fun e e' => e.1.Twins L e'.1 ∧ e.2.Twins L e'.2

/-- Named arguments that are twins. -/
abbrev Named : List (String × Value) → List (String × Value) → Prop :=
  Bindings.BothEntries (Value.Twins L)

/-- Bindings that are twins. -/
abbrev Bound : Bindings Value → Bindings Value → Prop := Bindings.Both (Value.Twins L)

end Link

variable {L : Link}

namespace Value.Twins

variable {v v' : Value}

theorem typeName (h : v.Twins L v') : v'.typeName = v.typeName := by
  cases h <;> rfl

theorem asInt? (h : v.Twins L v') : v'.asInt? = v.asInt? := by
  cases h <;> rfl

theorem asFloat? (h : v.Twins L v') : v'.asFloat? = v.asFloat? := by
  cases h <;> rfl

theorem isNone (h : v.Twins L v') : v'.isNone = v.isNone := by
  cases h <;> rfl

end Value.Twins

theorem entries_keys {es es' : List (Value × Value)} (h : L.Entries es es') :
    L.Values (es.map Prod.fst) (es'.map Prod.fst) :=
  List.forall₂_map_left_iff.mpr (List.forall₂_map_right_iff.mpr (h.imp fun _ _ he => he.1))

theorem entries_values {es es' : List (Value × Value)} (h : L.Entries es es') :
    L.Values (es.map Prod.snd) (es'.map Prod.snd) :=
  List.forall₂_map_left_iff.mpr (List.forall₂_map_right_iff.mpr (h.imp fun _ _ he => he.2))

/-! ## Exceptions -/

/-- Exceptions that are twins. -/
structure Raised.Twins (L : Link) (e e' : Raised) : Prop where
  /-- They are of one kind. -/
  kind : e'.kind = e.kind
  /-- Their arguments are twins. -/
  args : L.Values e.args e'.args

/-- Endings that are twins. -/
abbrev Link.Endings (L : Link) : Ending → Ending → Prop := Except.Both (Raised.Twins L) (Value.Twins L)

/-- **Problems that are twins.** Only a missing key is a value. -/
inductive Problem.Twins (L : Link) : Problem → Problem → Prop
  | missingKey {k k' : Value} (h : k.Twins L k') : Twins L (.missingKey k) (.missingKey k')
  | same (p : Problem) (h : ∀ k, p ≠ .missingKey k) : Twins L p p

/-- **Problems become exceptions** that are twins, if their messages have identities that belong together. -/
theorem Problem.Twins.raised {p p' : Problem} (h : p.Twins L p') {i i' : Nat}
    (hi : L.Pairs .identity i i') : (p.raised i).Twins L (p'.raised i') := by
  cases h with
  | missingKey hk => exact ⟨rfl, .cons hk .nil⟩
  | same p hp =>
    have hraised (i : Nat) : p.raised i =
        ⟨p.kind, if p.message.toList.isEmpty then [] else [.str i p.message.toList]⟩ := by
      unfold Problem.raised
      split
      · exact absurd rfl (hp _)
      · rfl
    rw [hraised, hraised]
    refine ⟨rfl, ?_⟩
    dsimp only
    split
    · exact .nil
    · exact .cons (.str hi _) .nil

theorem Problem.Twins.endless {p p' : Problem} (h : p.Twins L p') : p' = .endless ↔ p = .endless := by
  cases h with
  | missingKey hk => exact ⟨Problem.noConfusion, Problem.noConfusion⟩
  | same p hp => rfl

/-! ## Functions and coroutines -/

/-- **Functions that are twins.** One without statements needs no namespace. -/
structure Function.Twins (L : Link) (g g' : Function) : Prop where
  /-- They have one definition. -/
  definition : g'.definition = g.definition
  /-- Their namespaces belong together. -/
  globals : g.definition.body = [] ∨ L.Pairs .space g.globals g'.globals
  /-- Their defaults are twins. -/
  defaults : List.Forall₂ (Option.Rel (Value.Twins L)) g.defaults g'.defaults

/-- Computations that are twins and wait to be started. -/
inductive Pending.Twins (L : Link) : Pending → Pending → Prop
  | call {g g' : Function} (h : g.Twins L g') {b b' : Bindings Value} (hb : L.Bound b b') :
      Twins L (.call g b) (.call g' b')
  | sleep (delay : Float) {v v' : Value} (h : v.Twins L v') : Twins L (.sleep delay v) (.sleep delay v')
  | gather {vs vs' : List Value} (h : L.Values vs vs') : Twins L (.gather vs) (.gather vs')
  | source (code : Code) {r r' : Ref} (h : L.Pairs .space r r') : Twins L (.source code r) (.source code r')

/-- Coroutines that are twins. -/
structure Coroutine.Twins (L : Link) (c c' : Coroutine) : Prop where
  /-- They have one name. -/
  name : c'.name = c.name
  /-- Their computations are twins, until they are started. -/
  pending : Option.Rel (Pending.Twins L) c.pending c'.pending

/-! ## Tasks -/

/-- **Those who can be woken and are twins,** in worlds that have made so many tasks. -/
inductive Waker.Twins (L : Link) (n : Nat) : Waker → Waker → Prop
  | root : Twins L n .root .root
  | task {r r' : Ref} (h : L.Pairs .task r r') (hr : r < n) : Twins L n (.task r) (.task r')

theorem Waker.Twins.mono {n m : Nat} {who who' : Waker} (h : who.Twins L n who') (hnm : n ≤ m) :
    who.Twins L m who' := by
  cases h with
  | root => exact .root
  | task h hr => exact .task h (Nat.lt_of_lt_of_le hr hnm)

/-- A task is whoever has the turn if its twin is. -/
theorem Waker.Twins.beq {n : Nat} {who who' : Waker} (h : who.Twins L n who') {r r' : Ref}
    (hr : L.Pairs .task r r') : (who' == .task r') = (who == .task r) := by
  cases h with
  | root => rfl
  | task hq hlt =>
    rw [Bool.eq_iff_iff, beq_iff_eq, beq_iff_eq, Waker.task.injEq, Waker.task.injEq]
    exact hq.eq_iff hr

/-- **Tasks that look alike** to those who hold them. -/
structure Task.LookAlike (L : Link) (t t' : Task) : Prop where
  /-- They have one name. -/
  name : t'.name = t.name
  /-- The right to await them is taken or not. -/
  hasHandle : t'.hasHandle = t.hasHandle
  /-- The outcomes received are twins. -/
  result : Option.Rel L.Endings t.result t'.result
  /-- The outcomes are twins. -/
  outcome : Option.Rel L.Endings t.outcome t'.outcome
  /-- They are cancelled or not. -/
  cancelled : t'.cancelled = t.cancelled

/-- **Tasks that are twins,** at a place of the first world. The loops of old tasks are never driven again, so
nobody awaits them in vain, and their coroutines do not go on. -/
structure Task.Twins (L : Link) (n r : Nat) (t t' : Task) : Prop extends Task.LookAlike L t t' where
  /-- Their loops belong together. -/
  loop : L.Pairs .loop t.loop t'.loop
  /-- The tasks made by the runs are those on the loops made by the runs. -/
  onNew : L.New .loop t.loop ↔ L.New .task r
  /-- The coroutines of tasks made by the runs belong together. -/
  coroutine : L.New .task r → L.Pairs .coroutine t.coroutine t'.coroutine
  /-- Those who await tasks made by the runs are twins. -/
  waiter : L.New .task r → Option.Rel (Waker.Twins L n) t.waiter t'.waiter

theorem Task.LookAlike.isDone {t t' : Task} (h : t.LookAlike L t') : t'.isDone = t.isDone := by
  unfold Task.isDone
  rw [both_isSome h.result, both_isSome h.outcome, h.hasHandle]

theorem Task.LookAlike.default : Task.LookAlike L default default := ⟨rfl, rfl, .none, .none, rfl⟩

theorem option_rel_imp {α β : Type} {R S : α → β → Prop} {o : Option α} {o' : Option β}
    (h : Option.Rel R o o') (hRS : ∀ a b, R a b → S a b) : Option.Rel S o o' := by
  cases h with
  | some h => exact .some (hRS _ _ h)
  | none => exact .none

theorem Task.Twins.mono {n m r : Nat} {t t' : Task} (h : t.Twins L n r t') (hnm : n ≤ m) : t.Twins L m r t' :=
  { h with waiter := fun hf => option_rel_imp (h.waiter hf) fun _ _ hw => hw.mono hnm }

/-- Times that are twins: they are equally far from the beginnings of the runs. -/
def Link.Times (L : Link) (t t' : Nat) : Prop := t + L.right.now = t' + L.left.now

/-- **Event loops that are twins.** -/
structure EventLoop.Twins (L : Link) (n : Nat) (l l' : EventLoop) : Prop where
  /-- Their tasks belong together. -/
  tasks : List.Forall₂ (L.Pairs .task) l.tasks l'.tasks
  /-- The tasks that are ready belong together. -/
  queue : List.Forall₂ (L.Pairs .task) l.queue l'.queue
  /-- The tasks that are ready exist, and were made by the runs. -/
  ready : ∀ r ∈ l.queue, r < n ∧ L.New .task r
  /-- The driven computations are woken or not. -/
  rootWoken : l'.rootWoken = l.rootWoken
  /-- Those who have yielded are twins. -/
  yielded : List.Forall₂ (Waker.Twins L n) l.yielded l'.yielded
  /-- Those who wait for a time are twins. -/
  timers : List.Forall₂ (fun p p' => L.Times p.1 p'.1 ∧ p.2.Twins L n p'.2) l.timers l'.timers

theorem EventLoop.Twins.mono {n m : Nat} {l l' : EventLoop} (h : l.Twins L n l') (hnm : n ≤ m) :
    l.Twins L m l' where
  tasks := h.tasks
  queue := h.queue
  ready r hr := ⟨Nat.lt_of_lt_of_le (h.ready r hr).1 hnm, (h.ready r hr).2⟩
  rootWoken := h.rootWoken
  yielded := h.yielded.imp fun _ _ hw => hw.mono hnm
  timers := h.timers.imp fun _ _ hp => ⟨hp.1, hp.2.mono hnm⟩

theorem EventLoop.Twins.default (n : Nat) : EventLoop.Twins L n default default :=
  ⟨.nil, .nil, List.forall_mem_nil _, rfl, .nil, .nil⟩

/-! ## Frames -/

/-- Waits that are twins. -/
inductive Wait.Twins (L : Link) : Wait → Wait → Prop
  | turn : Twins L .turn .turn
  | time {t t' : Nat} (h : L.Times t t') : Twins L (.time t) (.time t')
  | task {r r' : Ref} (h : L.Pairs .task r r') : Twins L (.task r) (.task r')

/-- Signals that are twins. -/
inductive Signal.Twins (L : Link) : Signal → Signal → Prop
  | raised {e e' : Raised} (h : e.Twins L e') : Twins L (.raised e) (.raised e')
  | exit {v v' : Value} (h : v.Twins L v') : Twins L (.exit v) (.exit v')
  | leave : Twins L .leave .leave
  | next : Twins L .next .next

/-- **Frames that are twins.** -/
structure Frame.Twins (L : Link) (f f' : Frame) : Prop where
  /-- Their namespaces belong together. -/
  globals : L.Pairs .space f.globals f'.globals
  /-- The names of their function bodies are bound to twins. -/
  locals : Option.Rel L.Bound f.locals f'.locals
  /-- The same names mean those of the module. -/
  declared : f'.declared = f.declared
  /-- Values are shown or not. -/
  echo : f'.echo = f.echo
  /-- The exceptions that are being handled are twins. -/
  handling : Option.Rel (Raised.Twins L) f.handling f'.handling
  /-- Both may await, or none. -/
  mayAwait : f'.mayAwait = f.mayAwait

theorem Frame.Twins.isLocal {f f' : Frame} (h : f.Twins L f') (name : String) :
    f'.isLocal name = f.isLocal name := by
  unfold Frame.isLocal
  rw [both_isSome h.locals, h.declared]

end Transcript.Lang
