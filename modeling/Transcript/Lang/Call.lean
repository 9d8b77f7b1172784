import Transcript.Lang.Task
import Transcript.Text.Character

/-!
# Functions and methods that come with the language

All of them but the one that drives an event loop are operations on the world. Each first checks
how many arguments it was given and which names they have.

Results:
* `count_eq_ok`: the check of the number of arguments accepts exactly the numbers in its bounds.
-/

namespace Transcript.Lang

/-- **The arguments of a call**, with the name of what is called. -/
structure Arguments where
  /-- The name of the function. -/
  function : String
  /-- The arguments without names. -/
  positional : List Value
  /-- The arguments with names. -/
  named : List (String × Value)

namespace Arguments

/-- Refuses fewer and more arguments than the bounds. -/
def count (a : Arguments) (least most : Nat) : Except Problem Unit :=
  let given := a.positional.length
  if given < least then .error (.tooFewArguments a.function least given)
  else if most < given then .error (.tooManyArguments a.function most given)
  else .ok ()

/-- Refuses named arguments other than those allowed. -/
def onlyNamed (a : Arguments) (allowed : List String) : Except Problem Unit :=
  match a.named.find? fun (k, _) => !allowed.contains k with
  | some (k, _) => .error (.unexpectedKeyword a.function k)
  | none => .ok ()

/-- Refuses a wrong number of arguments, then wrong names. -/
def check (a : Arguments) (least most : Nat) (allowed : List String) : Op Unit :=
  Op.ofExcept do
    a.count least most
    a.onlyNamed allowed

/-- A named argument. -/
def named? (a : Arguments) (key : String) : Option Value :=
  (a.named.find? (·.1 == key)).map Prod.snd

/-- An argument that can also be given by name. -/
def either (a : Arguments) (place : Nat) (key : String) (dflt : Value) : Value :=
  (a.positional[place]?.or (a.named? key)).getD dflt

/-- An argument; the check comes before. -/
def nth (a : Arguments) (place : Nat) : Value := a.positional.getD place .none

theorem count_eq_ok (a : Arguments) (least most : Nat) :
    a.count least most = .ok () ↔ least ≤ a.positional.length ∧ a.positional.length ≤ most := by
  simp only [count]
  split
  · simp; omega
  · split
    · simp; omega
    · simp; omega

end Arguments

/-- The integer of a value. -/
def integerOf (v : Value) : Op Int64 :=
  match v.asInt? with
  | some n => pure n
  | none => Op.fail (.notInteger v.typeName)

/-- The reference of a coroutine. -/
def coroutineOf (v : Value) : Op Ref := do
  match v with
  | .coroutine r => return r
  | v => Op.fail (.notCoroutine (String.ofList (← Op.ofOption ((← get).show? v))))

/-- The form of a value for reading. -/
def readText (v : Value) : Op (List Char) := do Op.ofOption ((← get).read? v)

/-- The form that shows a value. -/
def showValue (v : Value) : Op (List Char) := do Op.ofOption ((← get).show? v)

/-! ### Functions -/

/-- A text argument of the printing function. -/
def printText (a : Arguments) (key : String) (dflt : List Char) : Op (List Char) :=
  match a.named? key with
  | none | some .none => pure dflt
  | some (.str _ s) => pure s
  | some v => Op.fail (.textOption key v.typeName)

/-- Writes values to the output. -/
def print (a : Arguments) : Op Value := do
  Op.ofExcept (a.onlyNamed ["sep", "end"])
  let sep ← printText a "sep" [' ']
  let last ← printText a "end" ['\n']
  let parts ← a.positional.mapM readText
  modify (·.write (Text.joinWith sep parts ++ last))
  return .none

/-- The sum of values. -/
def sumOf : Value → List Value → Op Value
  | total, [] => return total
  | total, v :: vs => do sumOf (← binary .add total v) vs

/-- A range. -/
def rangeOf (args : List Value) : Op Value := do
  let ns ← args.mapM integerOf
  match ns with
  | [stop] => return .range 0 stop 1
  | [start, stop] => return .range start stop 1
  | [start, stop, step] =>
    if step = 0 then Op.fail .zeroStep else return .range start stop step
  | _ => return .none

/-- The least or greatest value. -/
def extremeOf (a : Arguments) (symbol : String) (keep : Ordering) : Op Value := do
  Op.ofExcept (a.onlyNamed [])
  let items ←
    match a.positional with
    | [] => Op.fail (.noneToCompare a.function)
    | [v] => iterate v
    | vs => pure vs
  match items with
  | [] => Op.fail (.emptyToCompare a.function)
  | v :: vs => extreme symbol keep v vs

/-- The kinds of exceptions that a class argument stands for. -/
def kindsOf (v : Value) : Op (List ExceptionKind) :=
  let kind (v : Value) : Op ExceptionKind :=
    match v with
    | .exceptionType k => pure k
    | v => Op.fail (.notClass v.typeName)
  match v with
  | .tuple _ items => items.mapM kind
  | v => do return [← kind v]

/-- Whether a value is an exception of one of some kinds. -/
def isInstance (v classes : Value) : Op Value := do
  let kinds ← kindsOf classes
  match v with
  | .exception _ k .. => return .bool (kinds.any k.isSubclass)
  | _ => return .bool false

/-- Creates a task on the event loop that is being driven. -/
def createTask (a : Arguments) : Op Value := do
  a.check 1 1 ["name"]
  let coroutine ← coroutineOf (a.nth 0)
  let name ← (a.named? "name").mapM readText
  let w ← get
  match w.running with
  | none => Op.fail .noRunningLoop
  | some l =>
    let name := (name.map String.ofList).getD s!"Task-{w.created + 1}"
    let (r, w) := w.spawn l coroutine name
    set w
    return .task r

/-- **Calls a function** that comes with the language. The one that drives an event loop is no
operation on the world alone. -/
def callBuiltin (b : Builtin) (a : Arguments) : Op Value := do
  match b with
  | .print => print a
  | .len =>
    a.check 1 1 []
    size (a.nth 0)
  | .str =>
    a.check 0 1 []
    match a.positional with
    | [] => Op.newText []
    | v :: _ => Op.newText (← readText v)
  | .repr =>
    a.check 1 1 []
    Op.newText (← showValue (a.nth 0))
  | .bool =>
    a.check 0 1 []
    return .bool ((← get).truthy (a.nth 0))
  | .int =>
    a.check 0 1 []
    Op.ofExcept (toInt (a.positional.headD (.int 0)))
  | .float =>
    a.check 0 1 []
    Op.ofExcept (toFloat (a.positional.headD (.float 0.0)))
  | .abs =>
    a.check 1 1 []
    Op.ofExcept (absolute (a.nth 0))
  | .min => extremeOf a "<" .lt
  | .max => extremeOf a ">" .gt
  | .sum =>
    a.check 1 2 ["start"]
    sumOf (a.either 1 "start" (.int 0)) (← iterate (a.nth 0))
  | .range =>
    a.check 1 3 []
    rangeOf a.positional
  | .list =>
    a.check 0 1 []
    match a.positional with
    | [] => Op.newList []
    | v :: _ => Op.newList (← iterate v)
  | .tuple =>
    a.check 0 1 []
    match a.positional with
    | [] => Op.newTuple []
    | v :: _ => Op.newTuple (← iterate v)
  | .sorted =>
    a.check 1 1 ["reverse"]
    let items ← sort (← iterate (a.nth 0))
    let backward := (a.named? "reverse").any (← get).truthy
    Op.newList (if backward then items.reverse else items)
  | .isinstance =>
    a.check 2 2 []
    isInstance (a.nth 0) (a.nth 1)
  | .interrupt =>
    a.check 0 0 []
    Op.fail .interrupted
  | .sleep =>
    a.check 1 2 ["result"]
    match (a.nth 0).asFloat? with
    | some delay => Op.newCoroutine "sleep" (.sleep delay (a.either 1 "result" .none))
    | none => Op.fail (.notNumber (a.nth 0).typeName)
  | .gather =>
    Op.ofExcept (a.onlyNamed [])
    Op.newCoroutine "gather" (.gather a.positional)
  | .createTask => createTask a
  | .run => Op.fail .loopIsRunning

/-! ### Methods -/

/-- A text argument. -/
def textOf (v : Value) : Op (List Char) :=
  match v with
  | .str _ s => pure s
  | v => Op.fail (.mustBeText v.typeName)

/-- The texts to join. -/
def joinedParts : Nat → List Value → Op (List (List Char))
  | _, [] => return []
  | i, .str _ s :: vs => do return s :: (← joinedParts (i + 1) vs)
  | i, v :: _ => Op.fail (.badPart i v.typeName)

/-- A text with every occurrence of a pattern replaced; the empty pattern occurs between all
characters and at both ends. -/
def replaceText (pattern replacement s : List Char) : List Char :=
  if pattern.isEmpty then replacement ++ s.flatMap (· :: replacement)
  else Text.joinWith replacement (Text.splitOn pattern s)

/-- Calls a method of a text. -/
def callText (s : List Char) (m : Method) (a : Arguments) : Op Value := do
  match m with
  | .upper =>
    a.check 0 0 []
    Op.newText (Text.upper s)
  | .lower =>
    a.check 0 0 []
    Op.newText (Text.lower s)
  | .strip =>
    a.check 0 1 []
    match a.positional with
    | .str _ chars :: _ => Op.newText (Text.dropEndWhile chars.contains (s.dropWhile chars.contains))
    | _ => Op.newText (Text.trim s)
  | .split =>
    a.check 0 1 []
    let parts ←
      match a.positional with
      | .str _ [] :: _ => Op.fail .emptySeparator
      | .str _ sep :: _ => pure (Text.splitOn sep s)
      | _ => pure (Text.words s)
    Op.newList (← parts.mapM Op.newText)
  | .join =>
    a.check 1 1 []
    Op.newText (Text.joinWith s (← joinedParts 0 (← iterate (a.nth 0))))
  | .startswith =>
    a.check 1 1 []
    return .bool ((Text.afterBegin? (← textOf (a.nth 0)) s).isSome)
  | .endswith =>
    a.check 1 1 []
    return .bool ((Text.beforeEnd? (← textOf (a.nth 0)) s).isSome)
  | .replace =>
    a.check 2 2 []
    Op.newText (replaceText (← textOf (a.nth 0)) (← textOf (a.nth 1)) s)
  | m => Op.fail (.noAttribute "str" m.name)

/-- Takes an item out of a list, by default the last one. -/
def popItem (r : Ref) (index : Option Value) : Op Value := do
  let items := (← get).list r
  if items.isEmpty then Op.fail .popEmpty
  else
    let i ←
      match index with
      | none => pure (-1)
      | some v => integerOf v
    match placeOf? i items.length with
    | none => Op.fail .popRange
    | some n =>
      modify (·.setList r (items.eraseIdx n))
      return items.getD n .none

/-- Calls a method of a list. -/
def callList (r : Ref) (m : Method) (a : Arguments) : Op Value := do
  match m with
  | .append =>
    a.check 1 1 []
    modify fun w => w.setList r (w.list r ++ [a.nth 0])
    return .none
  | .extend =>
    a.check 1 1 []
    let extra ← iterate (a.nth 0)
    modify fun w => w.setList r (w.list r ++ extra)
    return .none
  | .pop =>
    a.check 0 1 []
    popItem r a.positional.head?
  | m => Op.fail (.noAttribute "list" m.name)

/-- Calls a method of a dictionary. -/
def callDict (r : Ref) (m : Method) (a : Arguments) : Op Value := do
  match m with
  | .get =>
    a.check 1 2 []
    return (← lookupKey (a.nth 0) ((← get).dict r)).getD (a.nth 1)
  | .keys =>
    a.check 0 0 []
    Op.newList (((← get).dict r).map Prod.fst)
  | .values =>
    a.check 0 0 []
    Op.newList (((← get).dict r).map Prod.snd)
  | .items =>
    a.check 0 0 []
    Op.newList (← ((← get).dict r).mapM fun (k, v) => Op.newTuple [k, v])
  | m => Op.fail (.noAttribute "dict" m.name)

/-- Calls a method of a task. A raised outcome is a result as well. -/
def callTask (r : Ref) (m : Method) (a : Arguments) : Op Ending := do
  match m with
  | .done =>
    a.check 0 0 []
    return .ok (.bool ((← get).task r).isDone)
  | .cancel =>
    a.check 0 0 []
    let t := (← get).task r
    if t.hasHandle && t.outcome.isNone then
      modify (·.cancelTask r)
      return .ok (.bool true)
    else return .ok (.bool false)
  | .result =>
    a.check 0 0 []
    match ((← get).task r).result with
    | some o => return o
    | none => Op.fail .resultNotSet
  | m => Op.fail (.noAttribute "Task" m.name)

/-- **Calls a method.** -/
def callMethod (receiver : Value) (m : Method) (args : List Value) (named : List (String × Value)) :
    Op Ending := do
  let a : Arguments := ⟨m.name, args, named⟩
  Op.ofExcept (a.onlyNamed [])
  match receiver with
  | .str _ s => return .ok (← callText s m a)
  | .list r => return .ok (← callList r m a)
  | .dict r => return .ok (← callDict r m a)
  | .task r => callTask r m a
  | v => Op.fail (.noAttribute v.typeName m.name)

/-- The methods of a value. -/
def methodsOf : Value → List Method
  | .str .. => Method.ofText
  | .list _ => Method.ofList
  | .dict _ => Method.ofDict
  | .task _ => Method.ofTask
  | _ => []

/-- **An attribute** of a value. -/
def attributeOf (v : Value) (name : String) : Op Value := do
  match v with
  | .module _ =>
    match Builtin.concurrent.find? (·.name == name) with
    | some b => return .builtin b
    | none =>
      if name = ExceptionKind.cancelledError.name then return .exceptionType .cancelledError
      else Op.fail (.noModuleAttribute concurrencyModule name)
  | v =>
    match v, name with
    | .exception _ _ args, "args" => Op.newTuple args
    | v, name =>
      match (methodsOf v).find? (·.name == name) with
      | some m => return .method v m
      | none => Op.fail (.noAttribute v.typeName name)

/-- Loads a module. Every load gives a module of its own. -/
def loadModule (name : String) : Op Value := do
  if name = concurrencyModule then return .module (← Op.fresh) else Op.fail (.noModule name)

/-! ### Functions of a program -/

/-- The arguments of a call by the names of parameters, from those given without names. -/
def bindPositional : Bindings Value → List Param → List Value → Bindings Value
  | b, p :: ps, v :: vs => bindPositional (b.insert p.name v) ps vs
  | b, _, _ => b

/-- Adds the arguments given by name. -/
def bindNamed (function : String) (params : List String) :
    Bindings Value → List (String × Value) → Except Problem (Bindings Value)
  | b, [] => .ok b
  | b, (name, v) :: rest =>
    if !params.contains name then .error (.unexpectedKeyword function name)
    else if b.contains name then .error (.multipleValues function name)
    else bindNamed function params (b.insert name v) rest

/-- Adds the defaults of parameters without argument; the names of those that have none. -/
def bindDefaults : Bindings Value → List (String × Option Value) → Bindings Value × List String
  | b, [] => (b, [])
  | b, (name, dflt) :: rest =>
    if b.contains name then bindDefaults b rest
    else
      match dflt with
      | some v => bindDefaults (b.insert name v) rest
      | none =>
        let (b, missing) := bindDefaults b rest
        (b, name :: missing)

/-- **The names that a call of a function binds.** -/
def bindArguments (f : Function) (args : List Value) (named : List (String × Value)) :
    Except Problem (Bindings Value) := do
  let name := f.definition.name
  let params := f.definition.params
  if params.length < args.length then throw (.tooManyPositional name params.length args.length)
  let names := params.map Param.name
  let b ← bindNamed name names (bindPositional .empty params args) named
  let (b, missing) := bindDefaults b (names.zip f.defaults)
  if missing.isEmpty then return b else throw (.missingArguments name missing)

end Transcript.Lang
