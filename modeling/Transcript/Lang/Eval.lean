import Transcript.Lang.Call
import Transcript.Lang.Loop

/-!
# Evaluation

Expressions are evaluated from left to right, statements run in order. Every function takes the
number of steps that it may still nest; without any, the computation counts as one that has no end.
A watch is told of every await and of every statement that declares names of the module, with the frame, so
that it can be said where programs do that.
-/

namespace Transcript.Lang

/-- The value of a literal. -/
def constantValue : Constant → Op Value
  | .none => return .none
  | .bool b => return .bool b
  | .int n => return .int n
  | .float d => return .float d.toFloat
  | .str s => Op.newText s
  | .bytes b => return .bytes b

/-- The exception of a raised value. -/
def exceptionOf (v : Value) : Op Raised :=
  match v with
  | .exceptionType k => return ⟨k, []⟩
  | .exception _ k args => return ⟨k, args⟩
  | _ => Op.fail .notException

mutual

/-- Whether an exception is of a kind, or of one of several kinds. -/
def isCaughtBy (e : Raised) : Value → Op Bool
  | .exceptionType k => return e.kind.isSubclass k
  | .tuple _ kinds => isCaughtByAny e kinds
  | _ => Op.fail .notExceptionClass

/-- Whether an exception is of some kind of a list. -/
def isCaughtByAny (e : Raised) : List Value → Op Bool
  | [] => return false
  | v :: vs => do if ← isCaughtBy e v then return true else isCaughtByAny e vs

end

/-- The items of a value that is taken apart. -/
def unpacked (v : Value) (expected : Nat) : Op (List Value) := do
  let items ←
    match v with
    | .list _ | .tuple .. | .str .. | .range .. | .dict _ => iterate v
    | v => Op.fail (.notUnpackable v.typeName)
  if items.length < expected then Op.fail (.tooFewValues expected items.length)
  else if expected < items.length then Op.fail (.tooManyValues expected)
  else return items

/-- A new function. -/
def newFunction (f : Function) : Op Value := fun w =>
  .ok (.function w.functions.size, { w with functions := w.functions.push f })

/-- A function. -/
def functionAt (r : Ref) : Op Function := do return ((← get).functions[r]?).getD default

/-- Takes the computation out of a coroutine. -/
def takePending (r : Ref) : Op Pending := do
  let w ← get
  let c := (w.coroutines[r]?).getD default
  match c.pending with
  | none => Op.fail .reusedCoroutine
  | some p =>
    set { w with coroutines := w.coroutines.setIfInBounds r { c with pending := none } }
    return p

/-- The result of a function body or a module. -/
def resultOf : Except Signal Unit → Eval Value
  | .error (.raised e) => throw e
  | .error (.exit v) => return v
  | _ => return .none

/-- Calls an exception kind. -/
def makeException (k : ExceptionKind) (args : List Value) (named : List (String × Value)) :
    Op Value :=
  match named with
  | (name, _) :: _ => Op.fail (.exceptionKeyword k.name name)
  | [] => Op.newException ⟨k, args⟩

/-- Ends a computation the way another one has ended. -/
def Exec.conclude : Except Signal Unit → Exec Unit
  | .ok () => return
  | .error s => throw s

/-- **What watches an evaluation.** -/
structure Watch where
  /-- Called with the frame whenever the evaluation of an await begins. -/
  onAwait : Frame → Eval Unit
  /-- Called with the frame and the names whenever names are declared to mean those of the module. -/
  onGlobals : Frame → List String → Eval Unit

/-- A watch that looks at awaits only. -/
abbrev Watch.ofAwaits (onAwait : Frame → Eval Unit) : Watch := ⟨onAwait, fun _ _ => pure ()⟩

instance : Coe (Frame → Eval Unit) Watch := ⟨Watch.ofAwaits⟩

/-- What programs do when an await begins: nothing but to await. -/
def plainly : Frame → Eval Unit := fun _ => pure ()

section

variable (watch : Watch)

mutual

/-- **Evaluates an expression.** -/
def eval : Nat → Frame → Expr → Eval Value
  | 0, _, _ => Eval.endless
  | fuel + 1, f, e => do
    match e with
    | .constant c => Eval.ofOp (constantValue c)
    | .name n => Eval.ofOp (f.lookup n)
    | .list items => Eval.ofOp (Op.newList (← items.mapM (eval fuel f)))
    | .tuple items => Eval.ofOp (Op.newTuple (← items.mapM (eval fuel f)))
    | .dict items =>
      let put (entries : List (Value × Value)) (item : Expr × Expr) : Eval (List (Value × Value)) := do
        let k ← eval fuel f item.1
        let v ← eval fuel f item.2
        Eval.ofOp (putEntry k v entries)
      Eval.ofOp (Op.newDict (← items.foldlM put []))
    | .binary op l r =>
      let l ← eval fuel f l
      let r ← eval fuel f r
      Eval.ofOp (binary op l r)
    | .unary op e =>
      let v ← eval fuel f e
      Eval.ofOp (unary op v)
    | .logic op l r =>
      let v ← eval fuel f l
      if (← Eval.world).truthy v == (op == .or) then return v else eval fuel f r
    | .compare e rest => evalChain fuel f (← eval fuel f e) rest
    | .call g args named =>
      let g ← eval fuel f g
      let args ← args.mapM (eval fuel f)
      let named ← named.mapM fun (n, e) => do return (n, ← eval fuel f e)
      call fuel g args named
    | .attribute e name =>
      let v ← eval fuel f e
      Eval.ofOp (attributeOf v name)
    | .subscript e (.slice lower upper) =>
      let v ← eval fuel f e
      let lower ← lower.mapM (eval fuel f)
      let upper ← upper.mapM (eval fuel f)
      Eval.ofOp (slice v (lower.getD .none) (upper.getD .none))
    | .subscript e index =>
      let v ← eval fuel f e
      let index ← eval fuel f index
      Eval.ofOp (itemAt v index)
    | .slice _ _ => Eval.fail .sliceOutside
    | .conditional test yes no =>
      let v ← eval fuel f test
      if (← Eval.world).truthy v then eval fuel f yes else eval fuel f no
    | .await e =>
      watch.onAwait f
      awaitValue fuel (← eval fuel f e)

/-- Evaluates the rest of a chain of comparisons. It ends at the first that does not hold. -/
def evalChain : Nat → Frame → Value → List (CompareOp × Expr) → Eval Value
  | 0, _, _, _ => Eval.endless
  | _ + 1, _, _, [] => return .bool true
  | fuel + 1, f, left, (op, e) :: rest => do
    let right ← eval fuel f e
    if ← Eval.ofOp (compareWith op left right) then evalChain fuel f right rest
    else return .bool false

/-- **Calls a value.** -/
def call : Nat → Value → List Value → List (String × Value) → Eval Value
  | 0, _, _, _ => Eval.endless
  | fuel + 1, g, args, named => do
    match g with
    | .builtin .run =>
      let a : Arguments := ⟨Builtin.run.name, args, named⟩
      let coroutine ← Eval.ofOp do
        a.check 1 1 ["debug"]
        coroutineOf (a.nth 0)
      if (← Eval.world).running.isSome then Eval.fail .loopIsRunning
      else ExceptT.mk (runOnNewLoop (runCoroutine fuel) fuel coroutine)
    | .builtin b => Eval.ofOp (callBuiltin b ⟨b.name, args, named⟩)
    | .method receiver m => Eval.ofEnding (← Eval.ofOp (callMethod receiver m args named))
    | .exceptionType k => Eval.ofOp (makeException k args named)
    | .function r =>
      let g ← Eval.ofOp (functionAt r)
      let locals ← Eval.ofOp (Op.ofExcept (bindArguments g args named))
      if g.definition.isAsync then
        Eval.ofOp (Op.newCoroutine g.definition.name (.call g locals))
      else runFunction fuel g locals
    | g => Eval.fail (.notCallable g.typeName)

/-- Runs the body of a function. -/
def runFunction : Nat → Function → Bindings Value → Eval Value
  | 0, _, _ => Eval.endless
  | fuel + 1, g, locals => do
    let frame := Frame.ofFunction g.globals locals g.definition.isAsync
    resultOf (← Eval.ofRun ((execBlock fuel g.definition.body).run' frame))

/-- Runs a compiled source. -/
def runModule : Nat → Code → Ref → Eval Value
  | 0, _, _ => Eval.endless
  | fuel + 1, code, globals => do
    let frame := Frame.ofModule globals (code.mode == .single) code.isCoroutine
    match code.mode, code.body with
    | .eval, [.mk _ (.eval e)] => eval fuel frame e
    | _, body =>
      match ← Eval.ofRun ((execBlock fuel body).run' frame) with
      | .error (.raised e) => throw e
      | _ => return .none

/-- **Awaits a value.** -/
def awaitValue : Nat → Value → Eval Value
  | 0, _ => Eval.endless
  | fuel + 1, v =>
    match v with
    | .coroutine r => runCoroutine fuel r
    | .task r => awaitTask r
    | v => Eval.fail (.notAwaitable v.typeName)

/-- Runs a coroutine, which can be done once. -/
def runCoroutine : Nat → Ref → Eval Value
  | 0, _ => Eval.endless
  | fuel + 1, r => do
    match ← Eval.ofOp (takePending r) with
    | .call g locals => runFunction fuel g locals
    | .sleep delay result => sleep delay result
    | .gather items =>
      let members := items.map fun v => Member.waiting (.ofRun (awaitValue fuel v))
      let outcomes ← Eval.ofRun (Member.together fuel members)
      Eval.ofOp (Op.newList (← Eval.ofEnding (outcomes.mapM id)))
    | .source code globals => runModule fuel code globals

/-- Runs statements in order. -/
def execBlock : Nat → List Stmt → Exec Unit
  | 0, _ => Exec.endless
  | _ + 1, [] => return
  | fuel + 1, s :: ss => do
    exec fuel s
    execBlock fuel ss

/-- **Runs a statement.** -/
def exec : Nat → Stmt → Exec Unit
  | 0, _ => Exec.endless
  | fuel + 1, .mk _ action => do
    match action with
    | .eval e =>
      let v ← Exec.ofEval (eval fuel · e)
      if (← getThe Frame).echo && !v.isNone then
        Exec.ofOp do
          let shown ← showValue v
          modify (·.write (shown ++ ['\n']))
    | .assign targets value =>
      let v ← Exec.ofEval (eval fuel · value)
      targets.forM fun t => assign fuel t v
    | .augment target op value => augment fuel target op value
    | .load module newName => bindName (newName.getD module) (← Exec.ofOp (loadModule module))
    | .raise none =>
      match (← getThe Frame).handling with
      | some e => Exec.raise e
      | none => Exec.fail .nothingToReraise
    | .raise (some e) =>
      let v ← Exec.ofEval (eval fuel · e)
      Exec.raise (← Exec.ofOp (exceptionOf v))
    | .pass => return
    | .delete targets => targets.forM (delete fuel)
    | .assert test message =>
      let v ← Exec.ofEval (eval fuel · test)
      if (← Exec.ofOp get).truthy v then return
      else
        let message ← message.mapM fun e => Exec.ofEval (eval fuel · e)
        Exec.raise ⟨.assertionError, message.toList⟩
    | .globals names =>
      Exec.ofEval fun f => watch.onGlobals f names
      modifyThe Frame fun f => { f with declared := f.declared ++ names }
    | .exit value =>
      let v ← value.mapM fun e => Exec.ofEval (eval fuel · e)
      throw (.exit (v.getD .none))
    | .branch test yes no =>
      let v ← Exec.ofEval (eval fuel · test)
      if (← Exec.ofOp get).truthy v then execBlock fuel yes else execBlock fuel no
    | .loop test body => execLoop fuel test body
    | .each target items body =>
      let v ← Exec.ofEval (eval fuel · items)
      execEach fuel target body (← Exec.ofOp (iterate v))
    | .guard body handlers final =>
      let ending ←
        match ← Exec.attempt (execBlock fuel body) with
        | .error (.raised e) => Exec.attempt (handle fuel e handlers)
        | ending => pure ending
      execBlock fuel final
      Exec.conclude ending
    | .leave => throw .leave
    | .next => throw .next
    | .define d =>
      let defaults ← d.params.mapM fun p => p.default.mapM fun e => Exec.ofEval (eval fuel · e)
      let g : Function := ⟨d, (← getThe Frame).globals, defaults⟩
      bindName d.name (← Exec.ofOp (newFunction g))

/-- Runs a block as long as a test holds. -/
def execLoop : Nat → Expr → List Stmt → Exec Unit
  | 0, _, _ => Exec.endless
  | fuel + 1, test, body => do
    let v ← Exec.ofEval (eval fuel · test)
    if (← Exec.ofOp get).truthy v then
      match ← Exec.attempt (execBlock fuel body) with
      | .ok () | .error .next => execLoop fuel test body
      | .error .leave => return
      | ending => Exec.conclude ending

/-- Runs a block for each item. -/
def execEach : Nat → Target → List Stmt → List Value → Exec Unit
  | 0, _, _, _ => Exec.endless
  | _ + 1, _, _, [] => return
  | fuel + 1, target, body, v :: vs => do
    assign fuel target v
    match ← Exec.attempt (execBlock fuel body) with
    | .ok () | .error .next => execEach fuel target body vs
    | .error .leave => return
    | ending => Exec.conclude ending

/-- Handles an exception: the first handler that catches it runs. -/
def handle : Nat → Raised → List Handler → Exec Unit
  | 0, _, _ => Exec.endless
  | _ + 1, e, [] => Exec.raise e
  | fuel + 1, e, .mk kind name body :: rest => do
    let isMatch ←
      match kind with
      | none => pure true
      | some k =>
        let v ← Exec.ofEval (eval fuel · k)
        Exec.ofOp (isCaughtBy e v)
    if isMatch then
      name.forM fun n => do bindName n (← Exec.ofOp (Op.newException e))
      let previous := (← getThe Frame).handling
      modifyThe Frame fun f => { f with handling := some e }
      let ending ← Exec.attempt (execBlock fuel body)
      modifyThe Frame fun f => { f with handling := previous }
      name.forM fun n => discard (Exec.attempt (unbindName n))
      Exec.conclude ending
    else handle fuel e rest

/-- **Assigns a value.** -/
def assign : Nat → Target → Value → Exec Unit
  | 0, _, _ => Exec.endless
  | fuel + 1, target, v => do
    match target with
    | .name n => bindName n v
    | .subscript e index =>
      let container ← Exec.ofEval (eval fuel · e)
      let index ← Exec.ofEval (eval fuel · index)
      Exec.ofOp (setItem container index v)
    | .tuple targets =>
      let items ← Exec.ofOp (unpacked v targets.length)
      (targets.zip items).forM fun (t, v) => assign fuel t v

/-- Assigns the value of an operator applied to the old value. -/
def augment : Nat → Target → BinaryOp → Expr → Exec Unit
  | 0, _, _, _ => Exec.endless
  | fuel + 1, target, op, value => do
    match target with
    | .name n =>
      let current ← Exec.ofEval fun f => Eval.ofOp (f.lookup n)
      let operand ← Exec.ofEval (eval fuel · value)
      bindName n (← Exec.ofOp (augmented op current operand))
    | .subscript e index =>
      let container ← Exec.ofEval (eval fuel · e)
      let index ← Exec.ofEval (eval fuel · index)
      let current ← Exec.ofOp (itemAt container index)
      let operand ← Exec.ofEval (eval fuel · value)
      let updated ← Exec.ofOp (augmented op current operand)
      Exec.ofOp (setItem container index updated)
    | .tuple _ => Exec.fail .augmentedTuple

/-- Deletes what a target means. -/
def delete : Nat → Target → Exec Unit
  | 0, _ => Exec.endless
  | fuel + 1, target => do
    match target with
    | .name n => unbindName n
    | .subscript e index =>
      let container ← Exec.ofEval (eval fuel · e)
      let index ← Exec.ofEval (eval fuel · index)
      Exec.ofOp (deleteItem container index)
    | .tuple targets => targets.forM (delete fuel)

end

end

end Transcript.Lang
