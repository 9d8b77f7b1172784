import Transcript.Lang.Operation

/-!
# Order of values

Numbers, texts, bytes, and lists and tuples of such are ordered; sorting is stable.
-/

namespace Transcript.Lang

/-- The order of two lists by their first difference. -/
def compareLists {α : Type} (cmp : α → α → Ordering) : List α → List α → Ordering
  | [], [] => .eq
  | [], _ :: _ => .lt
  | _ :: _, [] => .gt
  | a :: as, b :: bs =>
    match cmp a b with
    | .eq => compareLists cmp as bs
    | o => o

/-- The order of two floating point numbers, if there is one. -/
def compareFloats (x y : Float) : Option Ordering :=
  if x < y then some .lt else if x == y then some .eq else if y < x then some .gt else none

/-- The order of two numbers, if there is one. -/
def compareNumbers (a b : Value) : Option Ordering :=
  match a.asInt?, b.asInt? with
  | some x, some y => some (compare x.toInt y.toInt)
  | _, _ =>
    match a.asFloat?, b.asFloat? with
    | some x, some y => compareFloats x y
    | _, _ => none

/-- **The order of two values** nested at most so deep; `symbol` is the comparison asked for. -/
def compareValues (symbol : String) : Nat → Value → Value → Op Ordering
  | 0, _, _ => Op.fail .endless
  | fuel + 1, a, b => do
    match a, b with
    | .str _ s, .str _ t => return compareLists (fun c d => compare c.toNat d.toNat) s t
    | .bytes s, .bytes t => return compareLists (fun c d => compare c.toNat d.toNat) s t
    | .list r, .list s => items fuel ((← get).list r) ((← get).list s)
    | .tuple _ xs, .tuple _ ys => items fuel xs ys
    | a, b =>
      match compareNumbers a b with
      | some o => return o
      | none => Op.fail (.notOrdered symbol a.typeName b.typeName)
where
  /-- The order of two lists by their first unequal items. -/
  items (fuel : Nat) : List Value → List Value → Op Ordering
    | x :: xs, y :: ys => do if ← equal x y then items fuel xs ys else compareValues symbol fuel x y
    | xs, ys => return compare xs.length ys.length

/-- The order of two values. -/
def order (symbol : String) (a b : Value) : Op Ordering := do
  compareValues symbol ((← get).equalDepth a b) a b

/-- Puts a value behind the values of a sorted list that are not greater, the list given from its
end. -/
def sortInto (x : Value) : List Value → Op (List Value)
  | [] => return [x]
  | y :: ys => do
    if (← order "<" x y) == .lt then return y :: (← sortInto x ys) else return x :: y :: ys

/-- The values in ascending order; equal values keep their order. -/
def sort (items : List Value) : Op (List Value) := do
  return (← items.foldlM (fun sorted x => sortInto x sorted) []).reverse

/-- The first value that no other one beats. -/
def extreme (symbol : String) (keep : Ordering) : Value → List Value → Op Value
  | best, [] => return best
  | best, x :: xs => do
    extreme symbol keep (if (← order symbol x best) == keep then x else best) xs

end Transcript.Lang
