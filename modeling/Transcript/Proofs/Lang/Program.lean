import Transcript.Proofs.Lang.Drive
import Transcript.Proofs.Lang.Law

/-!
# Laws that programs obey

Whatever a program does is made of what laws say something about. So the evaluation of every expression,
statement and coroutine obeys every law. The proof is by induction on the steps that may nest; one bundle
says it of all functions of the evaluator. One law is that whatever a program does, it does by acts: it
leads from any moment of a history in which the program has the turn to another one.

Results:
* `obedient`: the evaluator obeys every law, however many steps may nest.
* `acting`: the evaluator acts.
-/

namespace Transcript.Lang

/-- **The evaluator obeys a law,** with so many steps to nest. -/
structure Obedient (L : Law) (fuel : Nat) : Prop where
  eval : ∀ (f : Frame) (e : Expr), (eval plainly fuel f e).Obeys L
  evalChain : ∀ (f : Frame) (left : Value) (rest : List (CompareOp × Expr)),
    (evalChain plainly fuel f left rest).Obeys L
  call : ∀ (g : Value) (args : List Value) (named : List (String × Value)),
    (call plainly fuel g args named).Obeys L
  runFunction : ∀ (g : Function) (locals : Bindings Value),
    (runFunction plainly fuel g locals).Obeys L
  runModule : ∀ (code : Code) (globals : Ref), (runModule plainly fuel code globals).Obeys L
  awaitValue : ∀ v : Value, (awaitValue plainly fuel v).Obeys L
  runCoroutine : ∀ r : Ref, (runCoroutine plainly fuel r).Obeys L
  execBlock : ∀ body : List Stmt, (execBlock plainly fuel body).Obeys L
  exec : ∀ s : Stmt, (exec plainly fuel s).Obeys L
  execLoop : ∀ (test : Expr) (body : List Stmt), (execLoop plainly fuel test body).Obeys L
  execEach : ∀ (target : Target) (body : List Stmt) (vs : List Value),
    (execEach plainly fuel target body vs).Obeys L
  handle : ∀ (e : Raised) (handlers : List Handler), (handle plainly fuel e handlers).Obeys L
  assign : ∀ (target : Target) (v : Value), (assign plainly fuel target v).Obeys L
  augment : ∀ (target : Target) (op : BinaryOp) (value : Expr),
    (augment plainly fuel target op value).Obeys L
  delete : ∀ target : Target, (delete plainly fuel target).Obeys L

namespace Obedient

variable {L : Law} {fuel : Nat}

/-! ## Expressions -/

theorem eval_obeys (h : Obedient L fuel) (f : Frame) (e : Expr) :
    (Lang.eval plainly (fuel + 1) f e).Obeys L := by
  cases e with
  | constant c => exact .onData (constantValue_onData c)
  | name n => exact .onData (lookup_onData f n)
  | list items => exact .bind (.mapM (h.eval f) items) fun _ => .onData (.newList _)
  | tuple items => exact .bind (.mapM (h.eval f) items) fun _ => .onData (.newTuple _)
  | dict items =>
    refine .bind (.foldlM (fun entries item => ?_) [] items) fun _ => .onData (.newDict _)
    refine .bind (h.eval f item.1) fun k => .bind (h.eval f item.2) fun v => ?_
    exact .onData (putEntry_onData k v entries)
  | binary op l r =>
    refine .bind (h.eval f l) fun l => .bind (h.eval f r) fun r => ?_
    exact .onData (binary_onData op l r)
  | unary op e => exact .bind (h.eval f e) fun v => .onData (unary_onData op v)
  | logic op l r =>
    refine .bind (h.eval f l) fun v => .reading (fun w => ?_) fun _ => rfl
    split
    · exact .pure _
    · exact h.eval f r
  | compare e rest => exact .bind (h.eval f e) fun v => h.evalChain f v rest
  | call g args named =>
    refine .bind (h.eval f g) fun g => .bind (.mapM (h.eval f) args) fun args => ?_
    refine .bind (.mapM (fun arg => ?_) named) fun named => h.call g args named
    exact .bind (h.eval f arg.2) fun _ => .pure _
  | «attribute» e name => exact .bind (h.eval f e) fun v => .onData (attributeOf_onData v name)
  | subscript e index =>
    cases index with
    | slice lower upper =>
      refine .bind (h.eval f e) fun v => .bind (.mapM_option (h.eval f) lower) fun lower => ?_
      exact .bind (.mapM_option (h.eval f) upper) fun upper => .onData (slice_onData v _ _)
    | _ =>
      refine .bind (h.eval f e) fun v => .bind (h.eval f _) fun index => ?_
      exact .onData (itemAt_onData v index)
  | slice lower upper => exact .fail _
  | conditional test yes no =>
    refine .bind (h.eval f test) fun v => .reading (fun w => ?_) fun _ => rfl
    split
    · exact h.eval f yes
    · exact h.eval f no
  | await e => exact .bind (.pure ()) fun _ => .bind (h.eval f e) fun v => h.awaitValue v

theorem evalChain_obeys (h : Obedient L fuel) (f : Frame) (left : Value)
    (rest : List (CompareOp × Expr)) :
    (Lang.evalChain plainly (fuel + 1) f left rest).Obeys L := by
  cases rest with
  | nil => exact .pure _
  | cons operand rest =>
    obtain ⟨op, e⟩ := operand
    refine .bind (h.eval f e) fun right => ?_
    refine .bind (.onData (compareWith_onData op left right)) fun holds => ?_
    split
    · exact h.evalChain f right rest
    · exact .pure _

/-! ## Calls -/

/-- **Calls** obey every law. -/
theorem call_obeys (h : Obedient L fuel) (g : Value) (args : List Value)
    (named : List (String × Value)) : (Lang.call plainly (fuel + 1) g args named).Obeys L := by
  cases g with
  | builtin b =>
    cases b with
    | run =>
      refine .bind (.onData ?_) fun coroutine => L.runAlone fuel coroutine h.runCoroutine
      exact .bind (Arguments.check_onData _ _ _ _) fun _ => coroutineOf_onData _
    | _ => exact callBuiltin_obeys _ _
  | method receiver m => exact .bind (callMethod_obeys receiver m args named) fun r => .ofEnding r
  | exceptionType k => exact .onData (makeException_onData k args named)
  | function r =>
    refine .bind (.onMemory (.functionAt r)) fun g => .bind (.onData (.ofExcept _)) fun locals => ?_
    split
    · exact .onMemory (.newCoroutine _ _)
    · exact h.runFunction g locals
  | _ => exact .fail _

theorem resultOf_obeys (r : Except Signal Unit) : (resultOf r).Obeys L := by
  unfold resultOf
  split
  · exact .throw _
  · exact .pure _
  · exact .pure _

theorem runFunction_obeys (h : Obedient L fuel) (g : Function) (locals : Bindings Value) :
    (Lang.runFunction plainly (fuel + 1) g locals).Obeys L :=
  .bind (.ofRun ((h.execBlock _).run' _)) fun r => resultOf_obeys r

theorem runModule_obeys (h : Obedient L fuel) (code : Code) (globals : Ref) :
    (Lang.runModule plainly (fuel + 1) code globals).Obeys L := by
  unfold Lang.runModule
  dsimp only
  split
  · exact h.eval _ _
  · refine .bind (.ofRun ((h.execBlock _).run' _)) fun r => ?_
    split
    · exact .throw _
    · exact .pure _

/-! ## Coroutines -/

theorem awaitValue_obeys (h : Obedient L fuel) (v : Value) :
    (Lang.awaitValue plainly (fuel + 1) v).Obeys L := by
  cases v with
  | coroutine r => exact h.runCoroutine r
  | task r => exact L.awaitTask r
  | _ => exact .fail _

theorem runCoroutine_obeys (h : Obedient L fuel) (r : Ref) :
    (Lang.runCoroutine plainly (fuel + 1) r).Obeys L := by
  refine .bind (.onMemory (.takePending r)) fun p => ?_
  cases p with
  | call g locals => exact h.runFunction g locals
  | sleep delay result => exact L.sleep delay result
  | gather items =>
    refine .bind (.ofRun (L.together fuel items fun v => h.awaitValue v)) fun outcomes => ?_
    exact .bind (.ofEnding _) fun _ => .onData (.newList _)
  | source code globals => exact h.runModule code globals

/-! ## Targets -/

/-- An expression in a statement. -/
theorem ofEval (h : Obedient L fuel) (e : Expr) :
    (Exec.ofEval (Lang.eval plainly fuel · e)).Obeys L :=
  .ofEval fun f => h.eval f e

theorem assign_obeys (h : Obedient L fuel) (target : Target) (v : Value) :
    (Lang.assign plainly (fuel + 1) target v).Obeys L := by
  cases target with
  | name n => exact .bindName n v
  | subscript e index =>
    refine .bind (h.ofEval e) fun container => .bind (h.ofEval index) fun index => ?_
    exact .onData (setItem_onData container index v)
  | tuple targets =>
    refine .bind (.onData (unpacked_onData v _)) fun items => .forM (fun pair => ?_) _
    exact h.assign pair.1 pair.2

theorem augment_obeys (h : Obedient L fuel) (target : Target) (op : BinaryOp) (value : Expr) :
    (Lang.augment plainly (fuel + 1) target op value).Obeys L := by
  cases target with
  | name n =>
    refine .bind (.ofEval fun f => .onData (lookup_onData f n)) fun current => ?_
    refine .bind (h.ofEval value) fun operand => ?_
    exact .bind (.onData (augmented_onData op current operand)) fun v => .bindName n v
  | subscript e index =>
    refine .bind (h.ofEval e) fun container => .bind (h.ofEval index) fun index => ?_
    refine .bind (.onData (itemAt_onData container index)) fun current => ?_
    refine .bind (h.ofEval value) fun operand => ?_
    refine .bind (.onData (augmented_onData op current operand)) fun updated => ?_
    exact .onData (setItem_onData container index updated)
  | tuple items => exact .fail _

theorem delete_obeys (h : Obedient L fuel) (target : Target) :
    (Lang.delete plainly (fuel + 1) target).Obeys L := by
  cases target with
  | name n => exact .unbindName n
  | subscript e index =>
    refine .bind (h.ofEval e) fun container => .bind (h.ofEval index) fun index => ?_
    exact .onData (deleteItem_onData container index)
  | tuple targets => exact .forM (h.delete) targets

/-! ## Loops and handlers -/

theorem execLoop_obeys (h : Obedient L fuel) (test : Expr) (body : List Stmt) :
    (Lang.execLoop plainly (fuel + 1) test body).Obeys L := by
  refine .bind (h.ofEval test) fun v => .reading (fun w => ?_) fun _ => rfl
  split
  · refine .bind (.attempt (h.execBlock body)) fun ending => ?_
    split
    · exact h.execLoop test body
    · exact h.execLoop test body
    · exact .pure ()
    · exact .conclude ending
  · exact .pure ()

theorem execEach_obeys (h : Obedient L fuel) (target : Target) (body : List Stmt) (vs : List Value) :
    (Lang.execEach plainly (fuel + 1) target body vs).Obeys L := by
  cases vs with
  | nil => exact .pure ()
  | cons v vs =>
    refine .bind (h.assign target v) fun _ => ?_
    refine .bind (.attempt (h.execBlock body)) fun ending => ?_
    split
    · exact h.execEach target body vs
    · exact h.execEach target body vs
    · exact .pure ()
    · exact .conclude ending

theorem handle_obeys (h : Obedient L fuel) (e : Raised) (handlers : List Handler) :
    (Lang.handle plainly (fuel + 1) e handlers).Obeys L := by
  match handlers with
  | [] => exact .raise e
  | .mk kind name body :: rest =>
    have hruns (isMatch : Bool) : Exec.Obeys L (do
        if isMatch then
          name.forM fun n => do bindName n (← Exec.ofOp (Op.newException e))
          let previous := (← getThe Frame).handling
          modifyThe Frame fun f => { f with handling := some e }
          let ending ← Exec.attempt (Lang.execBlock plainly fuel body)
          modifyThe Frame fun f => { f with handling := previous }
          name.forM fun n => discard (Exec.attempt (unbindName n))
          Exec.conclude ending
        else Lang.handle plainly fuel e rest) := by
      split
      · refine .bind (.forM_option (fun n => ?_) _) fun _ => ?_
        · exact .bind (.onData (.newException e)) fun v => .bindName n v
        refine .bind .frame fun f => .bind (.modifyFrame _) fun _ => ?_
        refine .bind (.attempt (h.execBlock body)) fun ending => .bind (.modifyFrame _) fun _ => ?_
        refine .bind (.forM_option (fun n => ?_) _) fun _ => .conclude ending
        exact .bind (.attempt (.unbindName n)) fun _ => .pure ()
      · exact h.handle e rest
    unfold Lang.handle
    dsimp only
    cases kind with
    | none => exact hruns true
    | some k =>
      refine .bind (h.ofEval k) fun v => .bind (.onData (isCaughtBy_onData e v)) fun isMatch => ?_
      exact hruns isMatch

/-! ## Statements -/

theorem execBlock_obeys (h : Obedient L fuel) (body : List Stmt) :
    (Lang.execBlock plainly (fuel + 1) body).Obeys L := by
  match body with
  | [] => exact .pure ()
  | s :: ss => exact .bind (h.exec s) fun _ => h.execBlock ss

/-- **Statements** obey every law. -/
theorem exec_obeys (h : Obedient L fuel) (s : Stmt) :
    (Lang.exec plainly (fuel + 1) s).Obeys L := by
  obtain ⟨line, action⟩ := s
  cases action with
  | eval e =>
    refine .bind (h.ofEval e) fun v => .bind .frame fun f => ?_
    split
    · exact .onData (.bind (showValue_onData v) fun _ => .modifying fun _ => rfl)
    · exact .pure ()
  | assign targets value =>
    exact .bind (h.ofEval value) fun v => .forM (fun target => h.assign target v) targets
  | augment target op value => exact h.augment target op value
  | load module newName => exact .bind (.onData (loadModule_onData module)) fun v => .bindName _ v
  | raise e =>
    cases e with
    | none =>
      refine .bind .frame fun f => ?_
      split
      · exact .raise _
      · exact .fail _
    | some e =>
      exact .bind (h.ofEval e) fun v => .bind (.onData (exceptionOf_onData v)) fun e => .raise e
  | pass => exact .pure ()
  | delete targets => exact .forM (h.delete) targets
  | assert test message =>
    refine .bind (h.ofEval test) fun v => .reading (fun w => ?_) fun _ => rfl
    split
    · exact .pure ()
    · exact .bind (.mapM_option h.ofEval message) fun message => .raise _
  | globals names => exact .bind (.ofEval fun _ => .pure ()) fun _ => .modifyFrame _
  | exit value => exact .bind (.mapM_option h.ofEval value) fun v => .throw _
  | branch test yes no =>
    refine .bind (h.ofEval test) fun v => .reading (fun w => ?_) fun _ => rfl
    split
    · exact h.execBlock yes
    · exact h.execBlock no
  | loop test body => exact h.execLoop test body
  | each target items body =>
    refine .bind (h.ofEval items) fun v => ?_
    exact .bind (.onData (iterate_onData v)) fun vs => h.execEach target body vs
  | guard body handlers final =>
    have hconclude (ending : Except Signal Unit) : Exec.Obeys L (do
        Lang.execBlock plainly fuel final
        Exec.conclude ending) :=
      .bind (h.execBlock final) fun _ => .conclude ending
    refine .bind (.attempt (h.execBlock body)) fun ending => ?_
    split
    · exact .bind (.attempt (h.handle _ handlers)) hconclude
    · exact hconclude _
  | leave => exact .throw _
  | next => exact .throw _
  | define d =>
    refine .bind (.mapM (fun p => .mapM_option h.ofEval _) _) fun defaults => .bind .frame fun f => ?_
    exact .bind (.onMemory (.newFunction _)) fun v => .bindName _ v

end Obedient

/-- **The evaluator obeys every law,** however many steps may nest. -/
theorem obedient (L : Law) (fuel : Nat) : Obedient L fuel := by
  induction fuel with
  | zero =>
    exact ⟨fun _ _ => .endless, fun _ _ _ => .endless, fun _ _ _ => .endless, fun _ _ => .endless,
      fun _ _ => .endless, fun _ => .endless, fun _ => .endless, fun _ => .endless, fun _ => .endless,
      fun _ _ => .endless, fun _ _ _ => .endless, fun _ _ => .endless, fun _ _ => .endless,
      fun _ _ _ => .endless, fun _ => .endless⟩
  | succ fuel ih =>
    exact {
      eval := ih.eval_obeys
      evalChain := ih.evalChain_obeys
      call := ih.call_obeys
      runFunction := ih.runFunction_obeys
      runModule := ih.runModule_obeys
      awaitValue := ih.awaitValue_obeys
      runCoroutine := ih.runCoroutine_obeys
      execBlock := ih.execBlock_obeys
      exec := ih.exec_obeys
      execLoop := ih.execLoop_obeys
      execEach := ih.execEach_obeys
      handle := ih.handle_obeys
      assign := ih.assign_obeys
      augment := ih.augment_obeys
      delete := ih.delete_obeys }

/-! ## Acts -/

/-- **The law of acts:** wherever a program has the turn, a computation is a sequence of acts. -/
def Law.acts : Law where
  Holds x := ∀ place : Option (Ref × Waker), x.Acts (.program place)
  pure a _ := .pure a
  bind hx hf place := (hx place).bind fun a => hf a place
  endless _ := .halt _
  onMemory h _ := Eval.Acts.ofOp (.onMemory h)
  createTask a _ := Eval.Acts.ofOp (createTask_acts a)
  cancel r _ _ _ := Eval.Acts.ofOp (.bind (.onData (.ofExcept _)) fun _ => callTask_acts r _)
  awaitTask r _ := awaitTask_acts r
  sleep delay result _ := sleep_acts delay result
  together turns _ _ _ hx place :=
    together_acts turns (List.forall_mem_map.mpr fun a _ => .ofRun (hx a place))
  runAlone {start} rounds coroutine hstart place := by
    refine Eval.Acts.reading fun w g hw => ?_
    split
    · exact Eval.Acts.fail _ w g hw
    · rename_i hrunning
      rw [Option.not_isSome_iff_eq_none] at hrunning
      cases hw.place_of_not_running hrunning
      exact runOnNewLoop_acts (fun place r => hstart r place) rounds coroutine w g hw

/-- **What a host does with programs,** it does by acts, wherever it has the turn. -/
structure Acting (fuel : Nat) : Prop where
  runModule : ∀ (place : Option (Ref × Waker)) (code : Code) (globals : Ref),
    (runModule plainly fuel code globals).Acts (.program place)
  awaitValue : ∀ (place : Option (Ref × Waker)) (v : Value),
    (awaitValue plainly fuel v).Acts (.program place)
  runCoroutine : ∀ (place : Option (Ref × Waker)) (r : Ref),
    (runCoroutine plainly fuel r).Acts (.program place)

/-- **The evaluator acts,** however many steps may nest. -/
theorem acting (fuel : Nat) : Acting fuel where
  runModule place code globals := (obedient .acts fuel).runModule code globals place
  awaitValue place v := (obedient .acts fuel).awaitValue v place
  runCoroutine place r := (obedient .acts fuel).runCoroutine r place

end Transcript.Lang
