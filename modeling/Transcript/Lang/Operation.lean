import Transcript.Lang.Number

/-!
# Operations on the world

An operation reads and changes the world and may fail with a problem; when it fails, nothing has
changed. This module holds the operations that make new values, and equality, identity and truth.

Results:
* `op_bind`: an operation goes on with the result of the one before.
* `equal?_succ_int`: integers are equal iff their numbers are.
-/

namespace Transcript.Lang

/-- **An operation.** -/
abbrev Op := StateT World (Except Problem)

/-- An operation goes on with the result of the one before. -/
theorem op_bind {α β : Type} {x : Op α} {g : α → Op β} {w w' : World} {a : α} (h : x w = .ok (a, w')) :
    (x >>= g) w = g a w' := by
  change (x w >>= fun p => g p.1 p.2) = _
  rw [h]
  rfl

namespace Op

/-- Fails. -/
def fail {α : Type} (p : Problem) : Op α := throw p

/-- The result of an arithmetic step. -/
def ofExcept {α : Type} (x : Except Problem α) : Op α := fun w => x.map (·, w)

/-- A result that is missing only where a value contains itself. -/
def ofOption {α : Type} (x : Option α) : Op α :=
  match x with
  | some a => pure a
  | none => throw .endless

/-- An identity that no value has. -/
def fresh : Op Nat := fun w => .ok (w.identities, { w with identities := w.identities + 1 })

/-- A new text. -/
def newText (s : List Char) : Op Value := do return .str (← fresh) s

/-- A new tuple. -/
def newTuple (items : List Value) : Op Value := do return .tuple (← fresh) items

/-- A new list. -/
def newList (items : List Value) : Op Value := fun w =>
  .ok (.list w.lists.size, { w with lists := w.lists.push items })

/-- A new dictionary. -/
def newDict (entries : List (Value × Value)) : Op Value := fun w =>
  .ok (.dict w.dicts.size, { w with dicts := w.dicts.push entries })

/-- A new coroutine. -/
def newCoroutine (name : String) (pending : Pending) : Op Value := fun w =>
  .ok (.coroutine w.coroutines.size, { w with coroutines := w.coroutines.push ⟨name, some pending⟩ })

/-- The exception of a value. -/
def newException (e : Raised) : Op Value := do return .exception (← fresh) e.kind e.args

end Op

/-- The number of items of a range. Its ends are far apart only where they do not overflow. -/
def rangeLength (start stop step : Int64) : Int64 :=
  if 0 < step && start < stop then (stop - start + step - 1) / step
  else if step < 0 && stop < start then (start - stop - step - 1) / -step
  else 0

/-- The items of a range. -/
def rangeItems (start stop step : Int64) : List Int64 :=
  (List.range (rangeLength start stop step).toInt.toNat).map fun i =>
    start + Int64.ofNat i * step

/-- Whether a value counts as true: not nothing, not zero, not empty. -/
def World.truthy (w : World) : Value → Bool
  | .none => false
  | .bool b => b
  | .int n => n != 0
  | .float f => f != 0.0
  | .str _ s => !s.isEmpty
  | .bytes b => !b.isEmpty
  | .list r => !(w.list r).isEmpty
  | .tuple _ items => !items.isEmpty
  | .dict r => !(w.dict r).isEmpty
  | .range start stop step => 0 < rangeLength start stop step
  | _ => true

/-- Whether all pairs of two lists satisfy a test that may find no end. -/
def allPairs? (test : Value → Value → Option Bool) : List Value → List Value → Option Bool
  | [], [] => some true
  | a :: as, b :: bs => do if ← test a b then allPairs? test as bs else some false
  | _, _ => some false

/-- Whether numbers are equal; what is no number equals none. -/
def equalNumbers (a b : Value) : Bool :=
  match a.asInt?, b.asInt? with
  | some x, some y => x == y
  | _, _ =>
    match a.asFloat?, b.asFloat? with
    | some x, some y => x == y
    | _, _ => false

/-- **Equality** of values nested at most so deep. -/
def equal? : Nat → World → Value → Value → Option Bool
  | 0, _, _, _ => none
  | fuel + 1, w, a, b =>
    match a, b with
    | .none, .none => some true
    | .str _ s, .str _ t => some (s == t)
    | .bytes s, .bytes t => some (s == t)
    | .list r, .list s => equalItems fuel w (r == s) (w.list r) (w.list s)
    | .tuple _ xs, .tuple _ ys => equalItems fuel w false xs ys
    | .dict r, .dict s =>
      let xs := w.dict r
      let ys := w.dict s
      if xs.length ≠ ys.length then some false
      else
        xs.allM fun (k, v) => ys.anyM fun (k', v') => do
          if ← equal? fuel w k k' then equal? fuel w v v' else some false
    | .range a₁ a₂ a₃, .range b₁ b₂ b₃ => some (a₁ == b₁ && a₂ == b₂ && a₃ == b₃)
    | .function r, .function s => some (r == s)
    | .builtin x, .builtin y => some (x == y)
    | .module i, .module j => some (i == j)
    | .coroutine r, .coroutine s => some (r == s)
    | .task r, .task s => some (r == s)
    | .exceptionType x, .exceptionType y => some (x == y)
    | .exception i .., .exception j .. => some (i == j)
    | a, b => some (equalNumbers a b)
where
  /-- Equality of two lists of values; the same list needs no look at its items. -/
  equalItems (fuel : Nat) (w : World) (same : Bool) (xs ys : List Value) : Option Bool :=
    if same then some true
    else if xs.length ≠ ys.length then some false
    else allPairs? (equal? fuel w) xs ys

/-- The depth that suffices to compare two values: on the way down every list or dictionary can be met
together with every other one. -/
def World.equalDepth (w : World) (a b : Value) : Nat := w.nesting * w.nesting + a.depth + b.depth + 2

/-- Equality of two values. -/
def World.equal? (w : World) (a b : Value) : Option Bool := Lang.equal? (w.equalDepth a b) w a b

/-- Equality as an operation. -/
def equal (a b : Value) : Op Bool := do Op.ofOption ((← get).equal? a b)

/-- **Identity** of values that are no numbers, texts or bytes; small integers and empty texts are
always the same object. -/
def same (w : World) (a b : Value) : Option Bool :=
  match a, b with
  | .none, .none => some true
  | .bool x, .bool y => some (x == y)
  | .list r, .list s | .dict r, .dict s => some (r == s)
  | .tuple i _, .tuple j _ => some (i == j)
  | .str i s, .str j t => some (i == j || (s.isEmpty && t.isEmpty))
  | .int x, .int y => some (x == y && -5 ≤ x && x ≤ 256)
  | .bool _, _ | _, .bool _ | .none, _ | _, .none => some false
  | .int _, _ | .float _, _ | .str .., _ | .bytes _, _ | .list _, _ | .dict _, _ => some false
  | a, b => w.equal? a b

theorem equal?_succ_int (fuel : Nat) (w : World) (x y : Int64) :
    Lang.equal? (fuel + 1) w (.int x) (.int y) = some (x == y) := by
  simp [Lang.equal?, equalNumbers, Value.asInt?]

end Transcript.Lang
