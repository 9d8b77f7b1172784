import Transcript.Proofs.Lang.Loop

/-!
# Evaluations that agree

A program is evaluated with two hooks. If one of them does nothing in a frame that may await, and the
program awaits only where it may, then the evaluations agree: the hook is not felt. The proof is by
induction on the steps that may nest; one bundle says what holds of all functions of the evaluator.
Executions of statements close the induction.

Results:
* `eval_agree`, `call_agree`: expressions and calls.
* `runFunction_agree`, `runModule_agree`: function bodies and sources.
* `runCoroutine_agree`: coroutines, which may wait.
* `exec_agree`, `execBlock_agree`: statements and blocks.
* `unfelt`: the evaluator does not feel such a hook, however many steps may nest.
-/

namespace Transcript.Lang

/-- **The evaluator does not feel a hook,** with so many steps to nest. -/
structure Unfelt (onAwait : Frame → Eval Unit) (fuel : Nat) : Prop where
  eval : ∀ (f : Frame) (e : Expr), Fits f.mayAwait e.awaits →
    Eval.Agree f.mayAwait (fun _ => True) (eval onAwait fuel f e) (eval plainly fuel f e)
  evalChain : ∀ (f : Frame) (left : Value) (rest : List (CompareOp × Expr)),
    Fits f.mayAwait (awaitsAnyCompared rest) →
      Eval.Agree f.mayAwait (fun _ => True) (evalChain onAwait fuel f left rest)
        (evalChain plainly fuel f left rest)
  call : ∀ (g : Value) (args : List Value) (named : List (String × Value)),
    Eval.Agree false (fun _ => True) (call onAwait fuel g args named) (call plainly fuel g args named)
  runFunction : ∀ (g : Function) (locals : Bindings Value), g.Guarded →
    Eval.Agree g.definition.isAsync (fun _ => True) (runFunction onAwait fuel g locals)
      (runFunction plainly fuel g locals)
  runModule : ∀ (code : Code) (globals : Ref), blockStrays code.isCoroutine code.body = false →
    Eval.Agree code.isCoroutine (fun _ => True) (runModule onAwait fuel code globals)
      (runModule plainly fuel code globals)
  awaitValue : ∀ v : Value,
    Eval.Agree true (fun _ => True) (awaitValue onAwait fuel v) (awaitValue plainly fuel v)
  runCoroutine : ∀ r : Ref,
    Eval.Agree true (fun _ => True) (runCoroutine onAwait fuel r) (runCoroutine plainly fuel r)
  execBlock : ∀ (m : Bool) (body : List Stmt), blockStrays m body = false →
    Exec.Agree m (fun _ => True) (execBlock onAwait fuel body) (execBlock plainly fuel body)
  exec : ∀ (m : Bool) (s : Stmt), s.strays m = false →
    Exec.Agree m (fun _ => True) (exec onAwait fuel s) (exec plainly fuel s)
  execLoop : ∀ (m : Bool) (test : Expr) (body : List Stmt), Fits m test.awaits →
    blockStrays m body = false →
      Exec.Agree m (fun _ => True) (execLoop onAwait fuel test body) (execLoop plainly fuel test body)
  execEach : ∀ (m : Bool) (target : Target) (body : List Stmt) (vs : List Value),
    Fits m target.awaits → blockStrays m body = false →
      Exec.Agree m (fun _ => True) (execEach onAwait fuel target body vs)
        (execEach plainly fuel target body vs)
  handle : ∀ (m : Bool) (e : Raised) (handlers : List Handler), handlersStray m handlers = false →
    Exec.Agree m (fun _ => True) (handle onAwait fuel e handlers) (handle plainly fuel e handlers)
  assign : ∀ (m : Bool) (target : Target) (v : Value), Fits m target.awaits →
    Exec.Agree m (fun _ => True) (assign onAwait fuel target v) (assign plainly fuel target v)
  augment : ∀ (m : Bool) (target : Target) (op : BinaryOp) (value : Expr), Fits m target.awaits →
    Fits m value.awaits →
      Exec.Agree m (fun _ => True) (augment onAwait fuel target op value)
        (augment plainly fuel target op value)
  delete : ∀ (m : Bool) (target : Target), Fits m target.awaits →
    Exec.Agree m (fun _ => True) (delete onAwait fuel target) (delete plainly fuel target)

namespace Unfelt

variable {onAwait : Frame → Eval Unit} {fuel : Nat}

/-! ## Expressions -/

/-- **Expressions** agree. Only an await calls the hook, and it stands where it may. -/
theorem eval_agree (hook : ∀ f : Frame, f.mayAwait = true → onAwait f = pure ())
    (h : Unfelt onAwait fuel) (f : Frame) (e : Expr) (he : Fits f.mayAwait e.awaits) :
    Eval.Agree f.mayAwait (fun _ => True) (Lang.eval onAwait (fuel + 1) f e)
      (Lang.eval plainly (fuel + 1) f e) := by
  cases e with
  | constant c => exact .onData (constantValue_onData c)
  | name n => exact .onData (lookup_onData f n)
  | list items =>
    exact .bind (.mapM fun e hmem => h.eval f e (he.awaitsAny e hmem)) fun _ _ => .onData (.newList _)
  | tuple items =>
    exact .bind (.mapM fun e hmem => h.eval f e (he.awaitsAny e hmem)) fun _ _ => .onData (.newTuple _)
  | dict items =>
    refine .bind (.foldlM (fun entries item hmem => ?_) []) fun _ _ => .onData (.newDict _)
    have hitem := he.awaitsAnyPair item hmem
    refine .bind (h.eval f item.1 hitem.left) fun k _ => .bind (h.eval f item.2 hitem.right) fun v _ => ?_
    exact .onData (putEntry_onData k v entries)
  | binary op l r =>
    refine .bind (h.eval f l he.left) fun l _ => .bind (h.eval f r he.right) fun r _ => ?_
    exact .onData (binary_onData op l r)
  | unary op e => exact .bind (h.eval f e he) fun v _ => .onData (unary_onData op v)
  | logic op l r =>
    refine .bind (h.eval f l he.left) fun v _ => .bind .world fun w _ => ?_
    split
    · exact .pure trivial
    · exact h.eval f r he.right
  | compare e rest => exact .bind (h.eval f e he.left) fun v _ => h.evalChain f v rest he.right
  | call g args named =>
    refine .bind (h.eval f g he.left.left) fun g _ => ?_
    refine .bind (.mapM fun e hmem => h.eval f e (he.left.right.awaitsAny e hmem)) fun args _ => ?_
    refine .bind (.mapM fun arg hmem => ?_) fun named _ => .of_false (h.call g args named)
    exact .bind (h.eval f arg.2 (he.right.awaitsAnyNamed arg hmem)) fun _ _ => .pure trivial
  | «attribute» e name => exact .bind (h.eval f e he) fun v _ => .onData (attributeOf_onData v name)
  | subscript e index =>
    cases index with
    | slice lower upper =>
      refine .bind (h.eval f e he.left) fun v _ => ?_
      refine .bind (.mapM_option fun e hmem => h.eval f e (he.right.left.awaitsOption e hmem))
        fun lower _ => ?_
      refine .bind (.mapM_option fun e hmem => h.eval f e (he.right.right.awaitsOption e hmem))
        fun upper _ => .onData (slice_onData v _ _)
    | _ =>
      refine .bind (h.eval f e he.left) fun v _ => ?_
      exact .bind (h.eval f _ he.right) fun index _ => .onData (itemAt_onData v index)
  | slice lower upper => exact .fail _
  | conditional test yes no =>
    refine .bind (h.eval f test he.left.left) fun v _ => .bind .world fun w _ => ?_
    split
    · exact h.eval f yes he.left.right
    · exact h.eval f no he.right
  | await e =>
    have hmay : f.mayAwait = true := he.of_true
    have hhook : Eval.Agree true (fun _ => True) (onAwait f) (plainly f) := by
      rw [hook f hmay]
      exact .pure trivial
    change Eval.Agree _ _ (onAwait f >>= fun _ => _) (plainly f >>= fun _ => _)
    have heval := h.eval f e (hmay ▸ .may)
    rw [hmay] at heval ⊢
    exact .bind hhook fun _ _ => .bind heval fun v _ => h.awaitValue v

theorem evalChain_agree (h : Unfelt onAwait fuel) (f : Frame) (left : Value)
    (rest : List (CompareOp × Expr)) (hrest : Fits f.mayAwait (awaitsAnyCompared rest)) :
    Eval.Agree f.mayAwait (fun _ => True) (Lang.evalChain onAwait (fuel + 1) f left rest)
      (Lang.evalChain plainly (fuel + 1) f left rest) := by
  cases rest with
  | nil => exact .pure trivial
  | cons operand rest =>
    obtain ⟨op, e⟩ := operand
    refine .bind (h.eval f e hrest.left) fun right _ => ?_
    refine .bind (.onData (compareWith_onData op left right)) fun holds _ => ?_
    split
    · exact h.evalChain f right rest hrest.right
    · exact .pure trivial

/-! ## Calls -/

/-- **Calls** agree without leave to wait: an async function gives a coroutine, and a loop of its own
waits for its tasks itself. -/
theorem call_agree (h : Unfelt onAwait fuel) (g : Value) (args : List Value)
    (named : List (String × Value)) :
    Eval.Agree false (fun _ => True) (Lang.call onAwait (fuel + 1) g args named)
      (Lang.call plainly (fuel + 1) g args named) := by
  cases g with
  | builtin b =>
    cases b with
    | run =>
      refine .bind (.onData ?_) fun coroutine _ => .bind .world fun w _ => ?_
      · exact .bind (Arguments.check_onData _ _ _ _) fun _ => coroutineOf_onData _
      · split
        · exact .fail _
        · exact .mk (runOnNewLoop_agree (fun r => (h.runCoroutine r).run) fuel coroutine)
    | _ => exact .ofOp (callBuiltin_guards _ _)
  | method receiver m =>
    exact .bind (.ofOp (callMethod_guards receiver m args named)) fun r _ => .ofEnding r
  | exceptionType k => exact .onData (makeException_onData k args named)
  | function r =>
    refine .bind (.ofOp (functionAt_guards r)) fun g hg => ?_
    refine .bind (.onData (.ofExcept _)) fun locals _ => ?_
    split
    · exact .ofOp (newCoroutine_guards _ hg)
    · rename_i hsync
      exact (Bool.eq_false_iff.mpr hsync) ▸ h.runFunction g locals hg
  | _ => exact .fail _

theorem resultOf_agree {m : Bool} (r : Except Signal Unit) :
    Eval.Agree m (fun _ => True) (resultOf r) (resultOf r) := by
  unfold resultOf
  split
  · exact .throw _
  · exact .pure trivial
  · exact .pure trivial

/-- **Function bodies** agree with leave to wait if they are those of async functions. -/
theorem runFunction_agree (h : Unfelt onAwait fuel) (g : Function) (locals : Bindings Value)
    (hg : g.Guarded) :
    Eval.Agree g.definition.isAsync (fun _ => True) (Lang.runFunction onAwait (fuel + 1) g locals)
      (Lang.runFunction plainly (fuel + 1) g locals) := by
  exact .bind (.ofRun ((h.execBlock _ _ hg).run' rfl)) fun r _ => resultOf_agree r

/-- **Sources** agree with leave to wait if they await at their top level. -/
theorem runModule_agree (h : Unfelt onAwait fuel) (code : Code) (globals : Ref)
    (hcode : blockStrays code.isCoroutine code.body = false) :
    Eval.Agree code.isCoroutine (fun _ => True) (Lang.runModule onAwait (fuel + 1) code globals)
      (Lang.runModule plainly (fuel + 1) code globals) := by
  unfold Lang.runModule
  dsimp only
  split
  · rename_i line e _ hbody
    rw [hbody, blockStrays, Stmt.strays, Action.strays, Bool.or_eq_false_iff] at hcode
    exact h.eval (Frame.ofModule globals _ code.isCoroutine) e (stray_eq_false.mp hcode.1)
  · refine .bind (.ofRun ((h.execBlock _ _ hcode).run' rfl)) fun r _ => ?_
    split
    · exact .throw _
    · exact .pure trivial

/-! ## Coroutines -/

theorem awaitValue_agree (h : Unfelt onAwait fuel) (v : Value) :
    Eval.Agree true (fun _ => True) (Lang.awaitValue onAwait (fuel + 1) v)
      (Lang.awaitValue plainly (fuel + 1) v) := by
  cases v with
  | coroutine r => exact h.runCoroutine r
  | task r => exact awaitTask_agree r
  | _ => exact .fail _

/-- **Coroutines** agree with leave to wait. -/
theorem runCoroutine_agree (h : Unfelt onAwait fuel) (r : Ref) :
    Eval.Agree true (fun _ => True) (Lang.runCoroutine onAwait (fuel + 1) r)
      (Lang.runCoroutine plainly (fuel + 1) r) := by
  refine .bind (.ofOp (takePending_guards r)) fun p hp => ?_
  cases p with
  | call g locals => exact (h.runFunction g locals hp).mono (fun _ => rfl) fun _ _ => trivial
  | sleep delay result => exact sleep_agree delay result
  | gather items =>
    refine .bind (.ofRun (together_agree fuel ?_)) fun outcomes _ => ?_
    · refine List.forall₂_map_left_iff.mpr (List.forall₂_map_right_iff.mpr ?_)
      exact List.forall₂_same.mpr fun v _ => .waiting (.of_resume (h.awaitValue v).run)
    · exact .bind (.ofEnding _) fun _ _ => .onData (.newList _)
  | source code globals => exact (h.runModule code globals hp).mono (fun _ => rfl) fun _ _ => trivial

end Unfelt

/-! ## Executions -/

namespace Unfelt

variable {onAwait : Frame → Eval Unit} {fuel : Nat} {m : Bool}

/-- An expression in a statement. -/
theorem ofEval (h : Unfelt onAwait fuel) {e : Expr} (he : Fits m e.awaits) :
    Exec.Agree m (fun _ => True) (Exec.ofEval (Lang.eval onAwait fuel · e))
      (Exec.ofEval (Lang.eval plainly fuel · e)) := by
  refine .ofEval fun f hf => ?_
  have heval := h.eval f e (hf ▸ he)
  rwa [hf] at heval

/-- An expression that may be missing. -/
theorem ofOption (h : Unfelt onAwait fuel) {e : Option Expr} (he : Fits m (awaitsOption e)) :
    Exec.Agree m (fun _ => True) (e.mapM fun e => Exec.ofEval (Lang.eval onAwait fuel · e))
      (e.mapM fun e => Exec.ofEval (Lang.eval plainly fuel · e)) :=
  .mapM_option fun e hmem => h.ofEval (he.awaitsOption e hmem)

theorem truth_agree : Exec.Agree m World.Guarded (Exec.ofOp get) (Exec.ofOp get) := .ofOp .reading

/-! ## Targets -/

theorem assign_agree (h : Unfelt onAwait fuel) (target : Target) (v : Value)
    (ht : Fits m target.awaits) :
    Exec.Agree m (fun _ => True) (Lang.assign onAwait (fuel + 1) target v)
      (Lang.assign plainly (fuel + 1) target v) := by
  cases target with
  | name n => exact .bindName n v
  | subscript e index =>
    refine .bind (h.ofEval ht.left) fun container _ => .bind (h.ofEval ht.right) fun index _ => ?_
    exact .onData (setItem_onData container index v)
  | tuple targets =>
    refine .bind (.onData (unpacked_onData v _)) fun items _ => .forM fun pair hmem => ?_
    obtain ⟨t, v⟩ := pair
    exact h.assign m t v (ht.awaitsAnyTarget t (List.of_mem_zip hmem).1)

theorem augment_agree (h : Unfelt onAwait fuel) (target : Target) (op : BinaryOp) (value : Expr)
    (ht : Fits m target.awaits) (hv : Fits m value.awaits) :
    Exec.Agree m (fun _ => True) (Lang.augment onAwait (fuel + 1) target op value)
      (Lang.augment plainly (fuel + 1) target op value) := by
  cases target with
  | name n =>
    refine .bind (.ofEval fun f _ => .onData (lookup_onData f n)) fun current _ => ?_
    refine .bind (h.ofEval hv) fun operand _ => ?_
    exact .bind (.onData (augmented_onData op current operand)) fun v _ => .bindName n v
  | subscript e index =>
    refine .bind (h.ofEval ht.left) fun container _ => .bind (h.ofEval ht.right) fun index _ => ?_
    refine .bind (.onData (itemAt_onData container index)) fun current _ => ?_
    refine .bind (h.ofEval hv) fun operand _ => ?_
    refine .bind (.onData (augmented_onData op current operand)) fun updated _ => ?_
    exact .onData (setItem_onData container index updated)
  | tuple items => exact .fail _

theorem delete_agree (h : Unfelt onAwait fuel) (target : Target) (ht : Fits m target.awaits) :
    Exec.Agree m (fun _ => True) (Lang.delete onAwait (fuel + 1) target)
      (Lang.delete plainly (fuel + 1) target) := by
  cases target with
  | name n => exact .unbindName n
  | subscript e index =>
    refine .bind (h.ofEval ht.left) fun container _ => .bind (h.ofEval ht.right) fun index _ => ?_
    exact .onData (deleteItem_onData container index)
  | tuple targets => exact .forM fun t hmem => h.delete m t (ht.awaitsAnyTarget t hmem)

/-! ## Loops -/

theorem execLoop_agree (h : Unfelt onAwait fuel) (test : Expr) (body : List Stmt)
    (htest : Fits m test.awaits) (hbody : blockStrays m body = false) :
    Exec.Agree m (fun _ => True) (Lang.execLoop onAwait (fuel + 1) test body)
      (Lang.execLoop plainly (fuel + 1) test body) := by
  refine .bind (h.ofEval htest) fun v _ => .bind truth_agree fun w _ => ?_
  split
  · refine .bind (.attempt (h.execBlock m body hbody)) fun ending _ => ?_
    split
    · exact h.execLoop m test body htest hbody
    · exact h.execLoop m test body htest hbody
    · exact .pure trivial
    · exact .conclude ending
  · exact .pure trivial

theorem execEach_agree (h : Unfelt onAwait fuel) (target : Target) (body : List Stmt)
    (vs : List Value) (ht : Fits m target.awaits) (hbody : blockStrays m body = false) :
    Exec.Agree m (fun _ => True) (Lang.execEach onAwait (fuel + 1) target body vs)
      (Lang.execEach plainly (fuel + 1) target body vs) := by
  cases vs with
  | nil => exact .pure trivial
  | cons v vs =>
    refine .bind (h.assign m target v ht) fun _ _ => ?_
    refine .bind (.attempt (h.execBlock m body hbody)) fun ending _ => ?_
    split
    · exact h.execEach m target body vs ht hbody
    · exact h.execEach m target body vs ht hbody
    · exact .pure trivial
    · exact .conclude ending

/-! ## Handlers -/

/-- **Handlers** agree. A handler's own frame differs only in the exception it handles. -/
theorem handle_agree (h : Unfelt onAwait fuel) (e : Raised) (handlers : List Handler)
    (hh : handlersStray m handlers = false) :
    Exec.Agree m (fun _ => True) (Lang.handle onAwait (fuel + 1) e handlers)
      (Lang.handle plainly (fuel + 1) e handlers) := by
  match handlers with
  | [] => exact .raise e
  | .mk kind name body :: rest =>
    rw [handlersStray, Bool.or_eq_false_iff, Bool.or_eq_false_iff] at hh
    obtain ⟨⟨hkind, hbody⟩, hrest⟩ := hh
    have hruns (isMatch : Bool) : Exec.Agree m (fun _ => True)
        (do
          if isMatch then
            name.forM fun n => do bindName n (← Exec.ofOp (Op.newException e))
            let previous := (← getThe Frame).handling
            modifyThe Frame fun f => { f with handling := some e }
            let ending ← Exec.attempt (Lang.execBlock onAwait fuel body)
            modifyThe Frame fun f => { f with handling := previous }
            name.forM fun n => discard (Exec.attempt (unbindName n))
            Exec.conclude ending
          else Lang.handle onAwait fuel e rest)
        (do
          if isMatch then
            name.forM fun n => do bindName n (← Exec.ofOp (Op.newException e))
            let previous := (← getThe Frame).handling
            modifyThe Frame fun f => { f with handling := some e }
            let ending ← Exec.attempt (Lang.execBlock plainly fuel body)
            modifyThe Frame fun f => { f with handling := previous }
            name.forM fun n => discard (Exec.attempt (unbindName n))
            Exec.conclude ending
          else Lang.handle plainly fuel e rest) := by
      split
      · refine .bind (.forM_option fun n _ => ?_) fun _ _ => ?_
        · exact .bind (.onData (.newException e)) fun v _ => .bindName n v
        refine .bind .frame fun f hf => .bind (.modifyFrame fun _ => rfl) fun _ _ => ?_
        refine .bind (.attempt (h.execBlock m body hbody)) fun ending _ => ?_
        refine .bind (.modifyFrame fun _ => rfl) fun _ _ => ?_
        refine .bind (.forM_option fun n _ => ?_) fun _ _ => .conclude ending
        exact .bind (.attempt (.unbindName n)) fun _ _ => .pure trivial
      · exact h.handle m e rest hrest
    unfold Lang.handle
    dsimp only
    cases kind with
    | none => exact hruns true
    | some k =>
      refine .bind (h.ofEval (stray_eq_false.mp hkind)) fun v _ => ?_
      exact .bind (.onData (isCaughtBy_onData e v)) fun isMatch _ => hruns isMatch

/-! ## Statements -/

theorem execBlock_agree (h : Unfelt onAwait fuel) (body : List Stmt)
    (hbody : blockStrays m body = false) :
    Exec.Agree m (fun _ => True) (Lang.execBlock onAwait (fuel + 1) body)
      (Lang.execBlock plainly (fuel + 1) body) := by
  match body with
  | [] => exact .pure trivial
  | s :: ss =>
    rw [blockStrays, Bool.or_eq_false_iff] at hbody
    exact .bind (h.exec m s hbody.1) fun _ _ => h.execBlock m ss hbody.2

/-- **Function definitions** agree: the defaults are computed in the frame of the definition, and the
body awaits only if the function is async. -/
theorem define_agree (h : Unfelt onAwait fuel) (line : Nat) (d : FunctionDef)
    (hd : d.strays m = false) :
    Exec.Agree m (fun _ => True) (Lang.exec onAwait (fuel + 1) (.mk line (.define d)))
      (Lang.exec plainly (fuel + 1) (.mk line (.define d))) := by
  obtain ⟨name, params, body, isAsync⟩ := d
  rw [FunctionDef.strays, Bool.or_eq_false_iff] at hd
  obtain ⟨hparams, hbody⟩ := hd
  have hdefaults := (stray_eq_false.mp hparams).awaitsAnyDefault
  refine .bind (.mapM fun p hmem => h.ofOption (hdefaults p hmem)) fun defaults _ => ?_
  refine .bind .frame fun f _ => ?_
  exact .bind (.ofOp (newFunction_guards hbody)) fun v _ => .bindName name v

/-- **Statements** agree. -/
theorem exec_agree (h : Unfelt onAwait fuel) (s : Stmt) (hs : s.strays m = false) :
    Exec.Agree m (fun _ => True) (Lang.exec onAwait (fuel + 1) s)
      (Lang.exec plainly (fuel + 1) s) := by
  obtain ⟨line, action⟩ := s
  rw [Stmt.strays] at hs
  cases action with
  | eval e =>
    refine .bind (h.ofEval (stray_eq_false.mp hs)) fun v _ => .bind .frame fun f _ => ?_
    split
    · exact .onData (.bind (showValue_onData v) fun _ => .modifying fun _ => rfl)
    · exact .pure trivial
  | assign targets value =>
    have hfits := stray_eq_false.mp hs
    refine .bind (h.ofEval hfits.left) fun v _ => .forM fun t hmem => ?_
    exact h.assign m t v (hfits.right.awaitsAnyTarget t hmem)
  | augment target op value =>
    have hfits := stray_eq_false.mp hs
    exact h.augment m target op value hfits.left hfits.right
  | load module newName =>
    exact .bind (.onData (loadModule_onData module)) fun v _ => .bindName _ v
  | raise e =>
    cases e with
    | none =>
      refine .bind .frame fun f _ => ?_
      split
      · exact .raise _
      · exact .fail _
    | some e =>
      refine .bind (h.ofEval (stray_eq_false.mp hs)) fun v _ => ?_
      exact .bind (.onData (exceptionOf_onData v)) fun e _ => .raise e
  | pass => exact .pure trivial
  | delete targets =>
    exact .forM fun t hmem => h.delete m t ((stray_eq_false.mp hs).awaitsAnyTarget t hmem)
  | assert test message =>
    have hfits := stray_eq_false.mp hs
    refine .bind (h.ofEval hfits.left) fun v _ => .bind truth_agree fun w _ => ?_
    split
    · exact .pure trivial
    · exact .bind (h.ofOption hfits.right) fun message _ => .raise _
  | globals names =>
    have hwatch : Exec.Agree m (fun _ => True) (Exec.ofEval fun _ => pure ())
        (Exec.ofEval fun _ => pure ()) := .ofEval fun _ _ => .pure trivial
    exact hwatch.bind fun _ _ => .modifyFrame fun _ => rfl
  | exit value => exact .bind (h.ofOption (stray_eq_false.mp hs)) fun v _ => .throw _
  | branch test yes no =>
    rw [Action.strays, Bool.or_eq_false_iff, Bool.or_eq_false_iff] at hs
    refine .bind (h.ofEval (stray_eq_false.mp hs.1.1)) fun v _ => .bind truth_agree fun w _ => ?_
    split
    · exact h.execBlock m yes hs.1.2
    · exact h.execBlock m no hs.2
  | loop test body =>
    rw [Action.strays, Bool.or_eq_false_iff] at hs
    exact h.execLoop m test body (stray_eq_false.mp hs.1) hs.2
  | each target items body =>
    rw [Action.strays, Bool.or_eq_false_iff] at hs
    have hfits := stray_eq_false.mp hs.1
    refine .bind (h.ofEval hfits.right) fun v _ => ?_
    exact .bind (.onData (iterate_onData v)) fun vs _ => h.execEach m target body vs hfits.left hs.2
  | guard body handlers final =>
    rw [Action.strays, Bool.or_eq_false_iff, Bool.or_eq_false_iff] at hs
    have hconclude (ending : Except Signal Unit) : Exec.Agree m (fun _ => True)
        (do
          Lang.execBlock onAwait fuel final
          Exec.conclude ending)
        (do
          Lang.execBlock plainly fuel final
          Exec.conclude ending) :=
      .bind (h.execBlock m final hs.2) fun _ _ => .conclude ending
    refine .bind (.attempt (h.execBlock m body hs.1.1)) fun ending _ => ?_
    split
    · exact .bind (.attempt (h.handle m _ handlers hs.1.2)) fun ending _ => hconclude ending
    · exact hconclude _
  | leave => exact .throw _
  | next => exact .throw _
  | define d => exact h.define_agree line d hs

end Unfelt

/-- **The evaluator does not feel a hook** that does nothing in frames that may await, however many
steps may nest. -/
theorem unfelt {onAwait : Frame → Eval Unit}
    (hook : ∀ f : Frame, f.mayAwait = true → onAwait f = pure ()) (fuel : Nat) : Unfelt onAwait fuel := by
  induction fuel with
  | zero =>
    exact ⟨fun _ _ _ => .endless, fun _ _ _ _ => .endless, fun _ _ _ => .endless,
      fun _ _ _ => .endless, fun _ _ _ => .endless, fun _ => .endless, fun _ => .endless,
      fun _ _ _ => .endless, fun _ _ _ => .endless, fun _ _ _ _ _ => .endless,
      fun _ _ _ _ _ _ => .endless, fun _ _ _ _ => .endless, fun _ _ _ _ => .endless,
      fun _ _ _ _ _ _ => .endless, fun _ _ _ => .endless⟩
  | succ fuel ih =>
    exact {
      eval := ih.eval_agree hook
      evalChain := ih.evalChain_agree
      call := ih.call_agree
      runFunction := ih.runFunction_agree
      runModule := ih.runModule_agree
      awaitValue := ih.awaitValue_agree
      runCoroutine := ih.runCoroutine_agree
      execBlock := fun _ => ih.execBlock_agree
      exec := fun _ => ih.exec_agree
      execLoop := fun _ => ih.execLoop_agree
      execEach := fun _ => ih.execEach_agree
      handle := fun _ => ih.handle_agree
      assign := fun _ => ih.assign_agree
      augment := fun _ => ih.augment_agree
      delete := fun _ => ih.delete_agree }

end Transcript.Lang
