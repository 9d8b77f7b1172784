import Transcript.Lang.Order
import Transcript.Text.Search

/-!
# Sequences and dictionaries

Iteration, length, membership, indexing, slicing, and changing items. Indices below zero count from
the end; the ends of slices are cut to the sequence.

Results:
* `clampIndex_le`: the end of a slice lies within the sequence.
-/

namespace Transcript.Lang

/-- The items of a value. -/
def iterate (v : Value) : Op (List Value) := do
  match v with
  | .list r => return (← get).list r
  | .tuple _ items => return items
  | .str _ s => s.mapM fun c => Op.newText [c]
  | .bytes b => return b.map fun x => .int (Int64.ofNat x.toNat)
  | .dict r => return ((← get).dict r).map Prod.fst
  | .range start stop step => return (rangeItems start stop step).map .int
  | v => Op.fail (.notIterable v.typeName)

/-- The number of items of a value. -/
def size (v : Value) : Op Value := do
  match v with
  | .str _ s => return .int (Int64.ofNat s.length)
  | .bytes b => return .int (Int64.ofNat b.length)
  | .list r => return .int (Int64.ofNat ((← get).list r).length)
  | .tuple _ items => return .int (Int64.ofNat items.length)
  | .dict r => return .int (Int64.ofNat ((← get).dict r).length)
  | .range start stop step => return .int (rangeLength start stop step)
  | v => Op.fail (.noLength v.typeName)

/-- Whether some item equals a value. -/
def anyEqual (v : Value) : List Value → Op Bool
  | [] => return false
  | x :: xs => do if ← equal x v then return true else anyEqual v xs

/-- Whether an integer is an item of a range. -/
def inRange (start stop step n : Int64) : Bool :=
  let offset := n - start
  let place := offset / step
  offset % step == 0 && 0 ≤ place && place < rangeLength start stop step

/-- **Membership.** -/
def contains (container item : Value) : Op Bool := do
  match container, item with
  | .str _ s, .str _ t => return Text.contains s t
  | .str .., item => Op.fail (.notInText item.typeName)
  | .dict r, key => anyEqual key (((← get).dict r).map Prod.fst)
  | .range start stop step, v =>
    match v.asInt? with
    | some n => return inRange start stop step n
    | none => return false
  | container, item => anyEqual item (← iterate container)

/-- The place that an index means in a sequence of some length. -/
def placeOf? (index : Int64) (length : Int) : Option Nat :=
  let i := if index < 0 then index.toInt + length else index.toInt
  if 0 ≤ i && i < length then some i.toNat else none

/-- The place that an index value means. -/
def indexIn (index : Value) (length : Int) (what : String) : Op Nat :=
  match index.asInt? with
  | none => Op.fail (.badIndex what index.typeName)
  | some i =>
    match placeOf? i length with
    | some n => pure n
    | none => Op.fail (.indexRange what)

/-- An end of a slice, cut to a sequence of some length. -/
def clampIndex (i : Int64) (length : Nat) : Nat :=
  if i < 0 then (i.toInt + length).toNat else min i.toInt.toNat length

/-- An end of a slice. -/
def sliceEnd (v : Value) (length dflt : Nat) : Op Nat :=
  match v with
  | .none => pure dflt
  | v =>
    match v.asInt? with
    | some i => pure (clampIndex i length)
    | none => Op.fail .sliceBounds

/-- The part of a list between the ends of a slice. -/
def sliceOf {α : Type} (lower upper : Value) (items : List α) : Op (List α) := do
  let start ← sliceEnd lower items.length 0
  let stop ← sliceEnd upper items.length items.length
  return (items.drop start).take (stop - start)

/-- **A slice** of a value. -/
def slice (v lower upper : Value) : Op Value := do
  match v with
  | .list r => Op.newList (← sliceOf lower upper ((← get).list r))
  | .tuple _ items => Op.newTuple (← sliceOf lower upper items)
  | .str _ s => Op.newText (← sliceOf lower upper s)
  | v => Op.fail (.notSubscriptable v.typeName)

/-- The value stored under a key. -/
def lookupKey (key : Value) : List (Value × Value) → Op (Option Value)
  | [] => return none
  | (k, v) :: rest => do if ← equal k key then return some v else lookupKey key rest

/-- The entries with a value stored under a key: in its place if the key is present, else at the
end. -/
def putEntry (key value : Value) : List (Value × Value) → Op (List (Value × Value))
  | [] => return [(key, value)]
  | (k, v) :: rest => do
    if ← equal k key then return (k, value) :: rest
    else return (k, v) :: (← putEntry key value rest)

/-- The entries whose keys differ from a key. -/
def dropKey (key : Value) : List (Value × Value) → Op (List (Value × Value))
  | [] => return []
  | (k, v) :: rest => do
    let hit ← equal k key
    let rest ← dropKey key rest
    return if hit then rest else (k, v) :: rest

/-- **The item** of a value at an index or under a key. -/
def itemAt (v index : Value) : Op Value := do
  match v with
  | .list r =>
    let items := (← get).list r
    return items.getD (← indexIn index items.length "list") .none
  | .tuple _ items => return items.getD (← indexIn index items.length "tuple") .none
  | .str _ s => Op.newText [s.getD (← indexIn index s.length "string") ' ']
  | .bytes b => return .int (Int64.ofNat (b.getD (← indexIn index b.length "index") 0).toNat)
  | .range start stop step =>
    let n ← indexIn index (rangeLength start stop step).toInt "range object"
    return .int (start + Int64.ofNat n * step)
  | .dict r =>
    match ← lookupKey index ((← get).dict r) with
    | some v => return v
    | none => Op.fail (.missingKey index)
  | v => Op.fail (.notSubscriptable v.typeName)

/-- The place of a list that an index assigns to or deletes. -/
def assignedPlace (index : Value) (length : Nat) : Op Nat :=
  match index.asInt?.bind (placeOf? · length) with
  | some n => pure n
  | none => Op.fail .assignmentRange

/-- **Stores an item** at an index or under a key. -/
def setItem (container index item : Value) : Op Unit := do
  match container with
  | .list r =>
    let items := (← get).list r
    let n ← assignedPlace index items.length
    modify (·.setList r (items.set n item))
  | .dict r =>
    let entries ← putEntry index item ((← get).dict r)
    modify (·.setDict r entries)
  | v => Op.fail (.noItemAssignment v.typeName)

/-- **Deletes the item** at an index or under a key. -/
def deleteItem (container index : Value) : Op Unit := do
  match container with
  | .list r =>
    let items := (← get).list r
    let n ← assignedPlace index items.length
    modify (·.setList r (items.eraseIdx n))
  | .dict r =>
    let entries := (← get).dict r
    let left ← dropKey index entries
    if left.length = entries.length then Op.fail (.missingKey index)
    modify (·.setDict r left)
  | v => Op.fail (.noItemDeletion v.typeName)

/-- The greatest length that repeating may reach. -/
def longestRepeat : Nat := Nat.pow 2 28

/-- How often something of some length is repeated. -/
def repeatCount (n : Int64) (length : Nat) (what : String) : Op Nat :=
  let count := n.toInt.toNat
  if length * count ≤ longestRepeat then pure count else Op.fail (.repeatedTooOften what)

/-- A text repeated. -/
def repeatText (s : List Char) (n : Int64) : Op Value := do
  let count ← repeatCount n (Text.byteLength s) "string"
  Op.newText (List.replicate count s).flatten

/-- The items of a list repeated. -/
def repeatList (items : List Value) (n : Int64) : Op Value := do
  let count ← repeatCount n items.length "list"
  Op.newList (List.replicate count items).flatten

/-- **An arithmetic operator** on two values. -/
def binary (op : BinaryOp) (left right : Value) : Op Value := do
  match left.asInt?, right.asInt? with
  | some a, some b => Op.ofExcept (intBinary op a b)
  | _, _ =>
    match left.asFloat?, right.asFloat? with
    | some a, some b => Op.ofExcept (floatBinary op a b)
    | _, _ =>
      match op, left, right with
      | .add, .str _ s, .str _ t => Op.newText (s ++ t)
      | .add, .bytes s, .bytes t => return .bytes (s ++ t)
      | .add, .list r, .list s => Op.newList ((← get).list r ++ (← get).list s)
      | .add, .tuple _ xs, .tuple _ ys => Op.newTuple (xs ++ ys)
      | .mul, left, right =>
        match left, right.asInt?, left.asInt?, right with
        | .str _ s, some n, _, _ => repeatText s n
        | _, _, some n, .str _ s => repeatText s n
        | .list r, some n, _, _ => repeatList ((← get).list r) n
        | _, _, some n, .list r => repeatList ((← get).list r) n
        | _, _, _, _ => Op.fail (.unsupportedOperands .mul left.typeName right.typeName)
      | op, left, right => Op.fail (.unsupportedOperands op left.typeName right.typeName)

/-- An operator with one operand. -/
def unary (op : UnaryOp) (v : Value) : Op Value := do
  match op with
  | .not => return .bool (!(← get).truthy v)
  | .negate => Op.ofExcept (negate v)
  | .plus => Op.ofExcept (positive v)

/-- **A comparison** of two values. -/
def compareWith (op : CompareOp) (left right : Value) : Op Bool := do
  match op with
  | .equal => equal left right
  | .notEqual => return !(← equal left right)
  | .less => return (← order "<" left right) == .lt
  | .lessEqual => return (← order "<=" left right) != .gt
  | .greater => return (← order ">" left right) == .gt
  | .greaterEqual => return (← order ">=" left right) != .lt
  | .member => contains right left
  | .notMember => return !(← contains right left)
  | .same => Op.ofOption (same (← get) left right)
  | .notSame => return !(← Op.ofOption (same (← get) left right))

/-- The value of an augmented assignment. A list grows in place. -/
def augmented (op : BinaryOp) (current operand : Value) : Op Value := do
  match op, current with
  | .add, .list r =>
    let extra ← iterate operand
    modify fun w => w.setList r (w.list r ++ extra)
    return current
  | _, _ => binary op current operand

theorem clampIndex_le (i : Int64) (length : Nat) : clampIndex i length ≤ length := by
  unfold clampIndex
  split
  · rename_i h
    have : i.toInt < 0 := by simpa using Int64.lt_iff_toInt_lt.1 h
    omega
  · omega

end Transcript.Lang
