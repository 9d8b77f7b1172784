import Transcript.Bindings
import Transcript.Lang.Compile

/-!
# Values of the session language

Mutable values (lists, dictionaries) and values with a life of their own (functions, coroutines,
tasks) are references into a store. Texts, tuples, modules and exceptions carry an identity beside
their contents, because a program can ask whether two of them are the same object.
-/

namespace Transcript.Lang

/-- A place in one of the stores. -/
abbrev Ref := Nat

/-- Functions that come with the language. -/
inductive Builtin
  | abs | bool | float | int | interrupt | isinstance | len | list | max | min | print | range
  | repr | sorted | str | sum | tuple
  | createTask | gather | run | sleep
  deriving DecidableEq, Repr

namespace Builtin

/-- The functions that every namespace sees. -/
def globals : List Builtin :=
  [.abs, .bool, .float, .int, .interrupt, .isinstance, .len, .list, .max, .min, .print, .range,
    .repr, .sorted, .str, .sum, .tuple]

/-- The functions of the module for concurrency. -/
def concurrent : List Builtin := [.createTask, .gather, .run, .sleep]

/-- The name of a function. -/
def name : Builtin → String
  | .abs => "abs"
  | .bool => "bool"
  | .float => "float"
  | .int => "int"
  | .interrupt => "interrupt"
  | .isinstance => "isinstance"
  | .len => "len"
  | .list => "list"
  | .max => "max"
  | .min => "min"
  | .print => "print"
  | .range => "range"
  | .repr => "repr"
  | .sorted => "sorted"
  | .str => "str"
  | .sum => "sum"
  | .tuple => "tuple"
  | .createTask => "create_task"
  | .gather => "gather"
  | .run => "run"
  | .sleep => "sleep"

end Builtin

/-- Methods of values. -/
inductive Method
  | endswith | join | lower | replace | split | startswith | strip | upper
  | append | extend | pop
  | get | items | keys | values
  | cancel | done | result
  deriving DecidableEq, Repr

namespace Method

/-- The name of a method. -/
def name : Method → String
  | .endswith => "endswith"
  | .join => "join"
  | .lower => "lower"
  | .replace => "replace"
  | .split => "split"
  | .startswith => "startswith"
  | .strip => "strip"
  | .upper => "upper"
  | .append => "append"
  | .extend => "extend"
  | .pop => "pop"
  | .get => "get"
  | .items => "items"
  | .keys => "keys"
  | .values => "values"
  | .cancel => "cancel"
  | .done => "done"
  | .result => "result"

/-- The methods of texts. -/
def ofText : List Method := [.endswith, .join, .lower, .replace, .split, .startswith, .strip, .upper]

/-- The methods of lists. -/
def ofList : List Method := [.append, .extend, .pop]

/-- The methods of dictionaries. -/
def ofDict : List Method := [.get, .items, .keys, .values]

/-- The methods of tasks. -/
def ofTask : List Method := [.cancel, .done, .result]

end Method

/-- **A value.** -/
inductive Value
  | none
  | bool (b : Bool)
  | int (n : Int64)
  | float (f : Float)
  | str (identity : Nat) (s : List Char)
  | bytes (b : List UInt8)
  | list (ref : Ref)
  | tuple (identity : Nat) (items : List Value)
  | dict (ref : Ref)
  | range (start stop step : Int64)
  | function (ref : Ref)
  | builtin (b : Builtin)
  | method (receiver : Value) (m : Method)
  | module (identity : Nat)
  | coroutine (ref : Ref)
  | task (ref : Ref)
  | exceptionType (kind : ExceptionKind)
  | exception (identity : Nat) (kind : ExceptionKind) (args : List Value)
  deriving Inhabited

/-- **An exception that a program raises.** It has no place in a source: only sources that do not
compile have one, and no program compiles a source. -/
structure Raised where
  /-- Its kind. -/
  kind : ExceptionKind
  /-- Its arguments. -/
  args : List Value
  deriving Inhabited

/-- The name of the module for concurrency. -/
def concurrencyModule : String := "asyncio"

namespace Value

/-- The name of the type of a value. -/
def typeName : Value → String
  | .none => "NoneType"
  | .bool _ => "bool"
  | .int _ => "int"
  | .float _ => "float"
  | .str .. => "str"
  | .bytes _ => "bytes"
  | .list _ => "list"
  | .tuple .. => "tuple"
  | .dict _ => "dict"
  | .range .. => "range"
  | .function _ => "function"
  | .builtin _ => "builtin_function_or_method"
  | .method .. => "method"
  | .module _ => "module"
  | .coroutine _ => "coroutine"
  | .task _ => "Task"
  | .exceptionType _ => "type"
  | .exception _ kind .. => kind.name

/-- The integer that a value counts as: truth values count as zero and one. -/
def asInt? : Value → Option Int64
  | .bool b => some (if b then 1 else 0)
  | .int n => some n
  | _ => Option.none

/-- Whether a value is nothing. -/
def isNone : Value → Bool
  | .none => true
  | _ => false

mutual

/-- How deep values are nested in a value without going through a reference. -/
def depth : Value → Nat
  | .tuple _ items => depths items + 1
  | .exception _ _ args => depths args + 1
  | .method receiver _ => depth receiver + 1
  | _ => 1

/-- How deep values are nested in the values of a list. -/
def depths : List Value → Nat
  | [] => 0
  | v :: vs => max (depth v) (depths vs)

end

end Value

/-- **A function of a program.** -/
structure Function where
  /-- Its definition. -/
  definition : FunctionDef
  /-- The namespace it was defined in. -/
  globals : Ref
  /-- The defaults of its parameters. -/
  defaults : List (Option Value)
  deriving Inhabited

/-- **A computation that waits to be started.** -/
inductive Pending
  /-- A call of an async function with its arguments bound. -/
  | call (function : Function) (locals : Bindings Value)
  /-- A pause in seconds, with the value it gives. -/
  | sleep (delay : Float) (result : Value)
  /-- Several awaitable values, awaited side by side. -/
  | gather (items : List Value)
  /-- A source that awaits at the top level. -/
  | source (code : Code) (globals : Ref)

/-- **A coroutine.** Starting it takes the computation away. -/
structure Coroutine where
  /-- Its name. -/
  name : String
  /-- The computation, until it is started. -/
  pending : Option Pending
  deriving Inhabited

/-- How a computation ended. -/
abbrev Ending := Except Raised Value

/-- Who is woken when something happens: the driven computation itself, or a task. -/
inductive Waker
  | root
  | task (ref : Ref)
  deriving DecidableEq, Repr

/-- **A task**: a coroutine that an event loop runs beside others. -/
structure Task where
  /-- Its name. -/
  name : String
  /-- The event loop that runs it. -/
  loop : Ref
  /-- The coroutine. -/
  coroutine : Ref
  /-- Whether the right to await it has not been taken. -/
  hasHandle : Bool
  /-- The outcome that an awaiting computation has received. -/
  result : Option Ending
  /-- The outcome of its run. -/
  outcome : Option Ending
  /-- Who awaits it. -/
  waiter : Option Waker
  /-- Whether it has been cancelled and has not run since. -/
  cancelled : Bool
  deriving Inhabited

/-- Whether a task counts as done: its outcome has been received or can be, or someone else has
taken the right to await it. -/
def Task.isDone (t : Task) : Bool := t.result.isSome || !t.hasHandle || t.outcome.isSome

/-- **An event loop** between two steps. -/
structure EventLoop where
  /-- The tasks created on it. -/
  tasks : List Ref
  /-- The tasks that are ready to run, first in first out. -/
  queue : List Ref
  /-- Whether the driven computation has been woken. -/
  rootWoken : Bool
  /-- Who has yielded since the loop last came to rest, the most recent first. -/
  yielded : List Waker
  /-- Who waits for which time, in nanoseconds. -/
  timers : List (Nat × Waker)
  deriving Inhabited

end Transcript.Lang
