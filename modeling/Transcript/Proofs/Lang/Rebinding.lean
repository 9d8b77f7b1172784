import Transcript.Proofs.Lang.Tidy
import Transcript.Proofs.Lang.Watched

/-!
# Functions do not rebind the names of a module

The evaluator is compared with itself under a watch for declarations of one name of one namespace. A call
runs function bodies: if no source over the namespace waits to be begun, no frame of its module is made. So
the call is stopped by the watch, or it does the same as without it and leaves the name as it is bound, from
its start to its end, or to where it waits. While it waits, others may bind the name. The proof is by
induction on the steps that may nest; one bundle says what holds of all functions of the evaluator.

Results:
* `eval_heeds`, `call_heeds`, `exec_heeds`: expressions, calls and statements.
* `heedful`: the evaluator heeds the watch, however many steps may nest.
* `evaluate_sourceless`, `runCoroutine_sourceless`: in which worlds no source waits to be begun.
* `call_spares_bindings`: what a call rebinds has been declared.
-/

namespace Transcript.Lang

/-- **The evaluator heeds a watch** for declarations of a name, with so many steps to nest. -/
structure Heedful (ns : Ref) (n : String) (fuel : Nat) : Prop where
  eval : ∀ (f : Frame) (e : Expr),
    Eval.Heeds ns n (eval plainly fuel f e) (eval (stopsAtGlobal ns n) fuel f e)
  evalChain : ∀ (f : Frame) (left : Value) (rest : List (CompareOp × Expr)),
    Eval.Heeds ns n (evalChain plainly fuel f left rest) (evalChain (stopsAtGlobal ns n) fuel f left rest)
  call : ∀ (g : Value) (args : List Value) (named : List (String × Value)),
    Eval.Heeds ns n (call plainly fuel g args named) (call (stopsAtGlobal ns n) fuel g args named)
  runFunction : ∀ (g : Function) (locals : Bindings Value),
    Eval.Heeds ns n (runFunction plainly fuel g locals) (runFunction (stopsAtGlobal ns n) fuel g locals)
  runModule : ∀ (code : Code) (globals : Ref), globals ≠ ns →
    Eval.Heeds ns n (runModule plainly fuel code globals) (runModule (stopsAtGlobal ns n) fuel code globals)
  awaitValue : ∀ v : Value,
    Eval.Heeds ns n (awaitValue plainly fuel v) (awaitValue (stopsAtGlobal ns n) fuel v)
  runCoroutine : ∀ r : Ref,
    Eval.Heeds ns n (runCoroutine plainly fuel r) (runCoroutine (stopsAtGlobal ns n) fuel r)
  execBlock : ∀ body : List Stmt,
    Exec.Heeds ns n (execBlock plainly fuel body) (execBlock (stopsAtGlobal ns n) fuel body)
  exec : ∀ s : Stmt, Exec.Heeds ns n (exec plainly fuel s) (exec (stopsAtGlobal ns n) fuel s)
  execLoop : ∀ (test : Expr) (body : List Stmt),
    Exec.Heeds ns n (execLoop plainly fuel test body) (execLoop (stopsAtGlobal ns n) fuel test body)
  execEach : ∀ (target : Target) (body : List Stmt) (vs : List Value),
    Exec.Heeds ns n (execEach plainly fuel target body vs)
      (execEach (stopsAtGlobal ns n) fuel target body vs)
  handle : ∀ (e : Raised) (handlers : List Handler),
    Exec.Heeds ns n (handle plainly fuel e handlers) (handle (stopsAtGlobal ns n) fuel e handlers)
  assign : ∀ (target : Target) (v : Value),
    Exec.Heeds ns n (assign plainly fuel target v) (assign (stopsAtGlobal ns n) fuel target v)
  augment : ∀ (target : Target) (op : BinaryOp) (value : Expr),
    Exec.Heeds ns n (augment plainly fuel target op value)
      (augment (stopsAtGlobal ns n) fuel target op value)
  delete : ∀ target : Target,
    Exec.Heeds ns n (delete plainly fuel target) (delete (stopsAtGlobal ns n) fuel target)

namespace Heedful

variable {ns : Ref} {n : String} {fuel : Nat}

/-! ## Expressions -/

/-- **Expressions** heed the watch. -/
theorem eval_heeds (h : Heedful ns n fuel) (f : Frame) (e : Expr) :
    Eval.Heeds ns n (Lang.eval plainly (fuel + 1) f e) (Lang.eval (stopsAtGlobal ns n) (fuel + 1) f e) := by
  cases e with
  | constant c => exact .onData (constantValue_onData c)
  | name n => exact .onData (lookup_onData f n)
  | list items => exact .bind (.mapM (h.eval f) items) fun _ => .onData (.newList _)
  | tuple items => exact .bind (.mapM (h.eval f) items) fun _ => .onData (.newTuple _)
  | dict items =>
    refine .bind (.foldlM (fun entries item => ?_) [] items) fun _ => .onData (.newDict _)
    refine .bind (h.eval f item.1) fun k => .bind (h.eval f item.2) fun v => ?_
    exact .onData (putEntry_onData k v entries)
  | binary op l r =>
    refine .bind (h.eval f l) fun l => .bind (h.eval f r) fun r => ?_
    exact .onData (binary_onData op l r)
  | unary op e => exact .bind (h.eval f e) fun v => .onData (unary_onData op v)
  | logic op l r =>
    refine .bind (h.eval f l) fun v => .bind .world fun w => ?_
    split
    · exact .pure _
    · exact h.eval f r
  | compare e rest => exact .bind (h.eval f e) fun v => h.evalChain f v rest
  | call g args named =>
    refine .bind (h.eval f g) fun g => .bind (.mapM (h.eval f) args) fun args => ?_
    refine .bind (.mapM (fun arg => ?_) named) fun named => h.call g args named
    exact .bind (h.eval f arg.2) fun _ => .pure _
  | «attribute» e name => exact .bind (h.eval f e) fun v => .onData (attributeOf_onData v name)
  | subscript e index =>
    cases index with
    | slice lower upper =>
      refine .bind (h.eval f e) fun v => .bind (.mapM_option (h.eval f) lower) fun lower => ?_
      exact .bind (.mapM_option (h.eval f) upper) fun upper => .onData (slice_onData v _ _)
    | _ =>
      refine .bind (h.eval f e) fun v => .bind (h.eval f _) fun index => ?_
      exact .onData (itemAt_onData v index)
  | slice lower upper => exact .fail _
  | conditional test yes no =>
    refine .bind (h.eval f test) fun v => .bind .world fun w => ?_
    split
    · exact h.eval f yes
    · exact h.eval f no
  | await e => exact .bind (.pure ()) fun _ => .bind (h.eval f e) fun v => h.awaitValue v

theorem evalChain_heeds (h : Heedful ns n fuel) (f : Frame) (left : Value)
    (rest : List (CompareOp × Expr)) :
    Eval.Heeds ns n (Lang.evalChain plainly (fuel + 1) f left rest)
      (Lang.evalChain (stopsAtGlobal ns n) (fuel + 1) f left rest) := by
  cases rest with
  | nil => exact .pure _
  | cons operand rest =>
    obtain ⟨op, e⟩ := operand
    refine .bind (h.eval f e) fun right => ?_
    refine .bind (.onData (compareWith_onData op left right)) fun holds => ?_
    split
    · exact h.evalChain f right rest
    · exact .pure _

/-! ## Calls -/

/-- **Calls** heed the watch: a body starts in a frame that has declared nothing. -/
theorem call_heeds (h : Heedful ns n fuel) (g : Value) (args : List Value)
    (named : List (String × Value)) :
    Eval.Heeds ns n (Lang.call plainly (fuel + 1) g args named)
      (Lang.call (stopsAtGlobal ns n) (fuel + 1) g args named) := by
  cases g with
  | builtin b =>
    cases b with
    | run =>
      refine .bind (.onData ?_) fun coroutine => .bind .world fun w => ?_
      · exact .bind (Arguments.check_onData _ _ _ _) fun _ => coroutineOf_onData _
      · split
        · exact .fail _
        · exact runOnNewLoop_heeds h.runCoroutine fuel coroutine
    | _ => exact .ofOp (.callBuiltin _ _)
  | method receiver m => exact .bind (.ofOp (.callMethod receiver m args named)) fun r => .ofEnding r
  | exceptionType k => exact .onData (makeException_onData k args named)
  | function r =>
    refine .bind (.ofOp (.functionAt r)) fun g => .bind (.onData (.ofExcept _)) fun locals => ?_
    split
    · exact .ofOp (.newCoroutine _ rfl)
    · exact h.runFunction g locals
  | _ => exact .fail _

theorem resultOf_heeds (r : Except Signal Unit) : Eval.Heeds ns n (resultOf r) (resultOf r) := by
  unfold resultOf
  split
  · exact .throw _
  · exact .pure _
  · exact .pure _

theorem runFunction_heeds (h : Heedful ns n fuel) (g : Function) (locals : Bindings Value) :
    Eval.Heeds ns n (Lang.runFunction plainly (fuel + 1) g locals)
      (Lang.runFunction (stopsAtGlobal ns n) (fuel + 1) g locals) :=
  .bind (.ofRun ((h.execBlock _).run' (.ofFunction _ _ _))) fun r => resultOf_heeds r

/-- **Sources** over other namespaces heed the watch. -/
theorem runModule_heeds (h : Heedful ns n fuel) (code : Code) {globals : Ref} (hglobals : globals ≠ ns) :
    Eval.Heeds ns n (Lang.runModule plainly (fuel + 1) code globals)
      (Lang.runModule (stopsAtGlobal ns n) (fuel + 1) code globals) := by
  unfold Lang.runModule
  dsimp only
  split
  · exact h.eval _ _
  · refine .bind (.ofRun ((h.execBlock _).run' (.ofModule hglobals _ _))) fun r => ?_
    split
    · exact .throw _
    · exact .pure _

/-! ## Coroutines -/

theorem awaitValue_heeds (h : Heedful ns n fuel) (v : Value) :
    Eval.Heeds ns n (Lang.awaitValue plainly (fuel + 1) v)
      (Lang.awaitValue (stopsAtGlobal ns n) (fuel + 1) v) := by
  cases v with
  | coroutine r => exact h.runCoroutine r
  | task r => exact .awaitTask r
  | _ => exact .fail _

/-- **Coroutines** heed the watch, since none of them is a source over the namespace. -/
theorem runCoroutine_heeds (h : Heedful ns n fuel) (r : Ref) :
    Eval.Heeds ns n (Lang.runCoroutine plainly (fuel + 1) r)
      (Lang.runCoroutine (stopsAtGlobal ns n) (fuel + 1) r) := by
  refine .bindOp fun b w p w' hw hp => ?_
  obtain ⟨hw', hsource⟩ := takePending_binds hw hp
  refine ⟨hw', ?_⟩
  cases p with
  | call g locals => exact h.runFunction g locals
  | sleep delay result => exact .sleep delay result
  | gather items =>
    refine .bind (.ofRun (together_heeds fuel ?_)) fun outcomes => ?_
    · refine List.forall₂_map_left_iff.mpr (List.forall₂_map_right_iff.mpr ?_)
      exact List.forall₂_same.mpr fun v _ => .waiting (.of_resume (h.awaitValue v))
    · exact .bind (.ofEnding _) fun _ => .onData (.newList _)
  | source code globals => exact h.runModule code globals (beq_eq_false_iff_ne.mp hsource)

/-! ## Targets -/

/-- An expression in a statement. -/
theorem ofEval (h : Heedful ns n fuel) (e : Expr) :
    Exec.Heeds ns n (Exec.ofEval (Lang.eval plainly fuel · e))
      (Exec.ofEval (Lang.eval (stopsAtGlobal ns n) fuel · e)) :=
  .ofEval fun f _ => h.eval f e

theorem assign_heeds (h : Heedful ns n fuel) (target : Target) (v : Value) :
    Exec.Heeds ns n (Lang.assign plainly (fuel + 1) target v)
      (Lang.assign (stopsAtGlobal ns n) (fuel + 1) target v) := by
  cases target with
  | name n => exact .bindName n v
  | subscript e index =>
    refine .bind (h.ofEval e) fun container => .bind (h.ofEval index) fun index => ?_
    exact .onData (setItem_onData container index v)
  | tuple targets =>
    refine .bind (.onData (unpacked_onData v _)) fun items => .forM (fun pair => ?_) _
    exact h.assign pair.1 pair.2

theorem augment_heeds (h : Heedful ns n fuel) (target : Target) (op : BinaryOp) (value : Expr) :
    Exec.Heeds ns n (Lang.augment plainly (fuel + 1) target op value)
      (Lang.augment (stopsAtGlobal ns n) (fuel + 1) target op value) := by
  cases target with
  | name n =>
    refine .bind (.ofEval fun f _ => .onData (lookup_onData f n)) fun current => ?_
    refine .bind (h.ofEval value) fun operand => ?_
    exact .bind (.onData (augmented_onData op current operand)) fun v => .bindName n v
  | subscript e index =>
    refine .bind (h.ofEval e) fun container => .bind (h.ofEval index) fun index => ?_
    refine .bind (.onData (itemAt_onData container index)) fun current => ?_
    refine .bind (h.ofEval value) fun operand => ?_
    refine .bind (.onData (augmented_onData op current operand)) fun updated => ?_
    exact .onData (setItem_onData container index updated)
  | tuple items => exact .fail _

theorem delete_heeds (h : Heedful ns n fuel) (target : Target) :
    Exec.Heeds ns n (Lang.delete plainly (fuel + 1) target)
      (Lang.delete (stopsAtGlobal ns n) (fuel + 1) target) := by
  cases target with
  | name n => exact .unbindName n
  | subscript e index =>
    refine .bind (h.ofEval e) fun container => .bind (h.ofEval index) fun index => ?_
    exact .onData (deleteItem_onData container index)
  | tuple targets => exact .forM h.delete targets

/-! ## Loops and handlers -/

theorem execLoop_heeds (h : Heedful ns n fuel) (test : Expr) (body : List Stmt) :
    Exec.Heeds ns n (Lang.execLoop plainly (fuel + 1) test body)
      (Lang.execLoop (stopsAtGlobal ns n) (fuel + 1) test body) := by
  refine .bind (h.ofEval test) fun v => .bind .reading fun w => ?_
  split
  · refine .bind (.attempt (h.execBlock body)) fun ending => ?_
    split
    · exact h.execLoop test body
    · exact h.execLoop test body
    · exact .pure ()
    · exact .conclude ending
  · exact .pure ()

theorem execEach_heeds (h : Heedful ns n fuel) (target : Target) (body : List Stmt) (vs : List Value) :
    Exec.Heeds ns n (Lang.execEach plainly (fuel + 1) target body vs)
      (Lang.execEach (stopsAtGlobal ns n) (fuel + 1) target body vs) := by
  cases vs with
  | nil => exact .pure ()
  | cons v vs =>
    refine .bind (h.assign target v) fun _ => .bind (.attempt (h.execBlock body)) fun ending => ?_
    split
    · exact h.execEach target body vs
    · exact h.execEach target body vs
    · exact .pure ()
    · exact .conclude ending

theorem handle_heeds (h : Heedful ns n fuel) (e : Raised) (handlers : List Handler) :
    Exec.Heeds ns n (Lang.handle plainly (fuel + 1) e handlers)
      (Lang.handle (stopsAtGlobal ns n) (fuel + 1) e handlers) := by
  match handlers with
  | [] => exact .raise e
  | .mk kind name body :: rest =>
    let runs (watch : Watch) (isMatch : Bool) : Exec Unit := do
      if isMatch then
        name.forM fun n => do bindName n (← Exec.ofOp (Op.newException e))
        let previous := (← getThe Frame).handling
        modifyThe Frame fun f => { f with handling := some e }
        let ending ← Exec.attempt (Lang.execBlock watch fuel body)
        modifyThe Frame fun f => { f with handling := previous }
        name.forM fun n => discard (Exec.attempt (unbindName n))
        Exec.conclude ending
      else Lang.handle watch fuel e rest
    have hruns (isMatch : Bool) :
        Exec.Heeds ns n (runs plainly isMatch) (runs (stopsAtGlobal ns n) isMatch) := by
      have hhandling (o : Option Raised) : Exec.Heeds ns n
          (modifyThe Frame fun f => { f with handling := o })
          (modifyThe Frame fun f => { f with handling := o }) :=
        .modifyFrame fun _ hf => hf
      unfold runs
      split
      · refine .bind (.forM_option (fun n => ?_) _) fun _ => .frame fun f => ?_
        · exact .bind (.onData (.newException e)) fun v => .bindName n v
        refine .bind (hhandling _) fun _ => .bind (.attempt (h.execBlock body)) fun ending => ?_
        refine .bind (hhandling _) fun _ => .bind (.forM_option (fun n => ?_) _) fun _ => .conclude ending
        exact .bind (.attempt (.unbindName n)) fun _ => .pure ()
      · exact h.handle e rest
    unfold Lang.handle
    dsimp only
    cases kind with
    | none => exact hruns true
    | some k =>
      refine .bind (h.ofEval k) fun v => .bind (.onData (isCaughtBy_onData e v)) fun isMatch => ?_
      exact hruns isMatch

/-! ## Statements -/

theorem execBlock_heeds (h : Heedful ns n fuel) (body : List Stmt) :
    Exec.Heeds ns n (Lang.execBlock plainly (fuel + 1) body)
      (Lang.execBlock (stopsAtGlobal ns n) (fuel + 1) body) := by
  match body with
  | [] => exact .pure ()
  | s :: ss => exact .bind (h.exec s) fun _ => h.execBlock ss

/-- **A declaration** that the watch looks for stops the program; any other leaves the name undeclared. -/
theorem globals_heeds (names : List String) :
    Exec.Heeds ns n (do
        Exec.ofEval fun _ => pure ()
        modifyThe Frame fun f => { f with declared := f.declared ++ names }) (do
        Exec.ofEval fun f => (stopsAtGlobal ns n).onGlobals f names
        modifyThe Frame fun f => { f with declared := f.declared ++ names }) := by
  intro f hf b w hw
  by_cases hstop : f.globals = ns ∧ n ∈ names
  · have hhalt : (stopsAtGlobal ns n).onGlobals f names = Eval.stop := if_pos hstop
    change Step.Heeds ns n _ b _ (Step.bind (Step.bind ((stopsAtGlobal ns n).onGlobals f names w) _) _)
    rw [hhalt]
    exact .stopped
  · have hpass : (stopsAtGlobal ns n).onGlobals f names = pure () := if_neg hstop
    change Step.Heeds ns n _ b _ (Step.bind (Step.bind ((stopsAtGlobal ns n).onGlobals f names w) _) _)
    rw [hpass]
    refine .done hw fun hns => ⟨(hf hns).1, fun hmem => ?_⟩
    rcases List.mem_append.mp hmem with hmem | hmem
    · exact (hf hns).2 hmem
    · exact hstop ⟨hns, hmem⟩

/-- **Statements** heed the watch. -/
theorem exec_heeds (h : Heedful ns n fuel) (s : Stmt) :
    Exec.Heeds ns n (Lang.exec plainly (fuel + 1) s) (Lang.exec (stopsAtGlobal ns n) (fuel + 1) s) := by
  obtain ⟨line, action⟩ := s
  cases action with
  | eval e =>
    refine .bind (h.ofEval e) fun v => .frame fun f => ?_
    split
    · exact .onData (.bind (showValue_onData v) fun _ => .modifying fun _ => rfl)
    · exact .pure ()
  | assign targets value =>
    exact .bind (h.ofEval value) fun v => .forM (fun target => h.assign target v) targets
  | augment target op value => exact h.augment target op value
  | load module newName => exact .bind (.onData (loadModule_onData module)) fun v => .bindName _ v
  | raise e =>
    cases e with
    | none =>
      refine .frame fun f => ?_
      split
      · exact .raise _
      · exact .fail _
    | some e =>
      exact .bind (h.ofEval e) fun v => .bind (.onData (exceptionOf_onData v)) fun e => .raise e
  | pass => exact .pure ()
  | delete targets => exact .forM h.delete targets
  | assert test message =>
    refine .bind (h.ofEval test) fun v => .bind .reading fun w => ?_
    split
    · exact .pure ()
    · exact .bind (.mapM_option h.ofEval message) fun message => .raise _
  | globals names => exact globals_heeds names
  | exit value => exact .bind (.mapM_option h.ofEval value) fun v => .throw _
  | branch test yes no =>
    refine .bind (h.ofEval test) fun v => .bind .reading fun w => ?_
    split
    · exact h.execBlock yes
    · exact h.execBlock no
  | loop test body => exact h.execLoop test body
  | each target items body =>
    refine .bind (h.ofEval items) fun v => ?_
    exact .bind (.onData (iterate_onData v)) fun vs => h.execEach target body vs
  | guard body handlers final =>
    have hconclude (ending : Except Signal Unit) : Exec.Heeds ns n
        (do Lang.execBlock plainly fuel final; Exec.conclude ending)
        (do Lang.execBlock (stopsAtGlobal ns n) fuel final; Exec.conclude ending) :=
      .bind (h.execBlock final) fun _ => .conclude ending
    refine .bind (.attempt (h.execBlock body)) fun ending => ?_
    split
    · exact .bind (.attempt (h.handle _ handlers)) hconclude
    · exact hconclude _
  | leave => exact .throw _
  | next => exact .throw _
  | define d =>
    refine .bind (.mapM (fun p => .mapM_option h.ofEval _) _) fun defaults => .frame fun f => ?_
    exact .bind (.ofOp (.newFunction _)) fun v => .bindName _ v

end Heedful

/-- **The evaluator heeds the watch,** however many steps may nest. -/
theorem heedful (ns : Ref) (n : String) (fuel : Nat) : Heedful ns n fuel := by
  induction fuel with
  | zero =>
    exact ⟨fun _ _ => .endless, fun _ _ _ => .endless, fun _ _ _ => .endless, fun _ _ => .endless,
      fun _ _ _ => .endless, fun _ => .endless, fun _ => .endless, fun _ => .endless, fun _ => .endless,
      fun _ _ => .endless, fun _ _ _ => .endless, fun _ _ => .endless, fun _ _ => .endless,
      fun _ _ _ => .endless, fun _ => .endless⟩
  | succ fuel ih =>
    exact {
      eval := ih.eval_heeds
      evalChain := ih.evalChain_heeds
      call := ih.call_heeds
      runFunction := ih.runFunction_heeds
      runModule := fun code _ hglobals => ih.runModule_heeds code hglobals
      awaitValue := ih.awaitValue_heeds
      runCoroutine := ih.runCoroutine_heeds
      execBlock := ih.execBlock_heeds
      exec := ih.exec_heeds
      execLoop := ih.execLoop_heeds
      execEach := ih.execEach_heeds
      handle := ih.handle_heeds
      assign := ih.assign_heeds
      augment := ih.augment_heeds
      delete := ih.delete_heeds }

/-! ## Sources that wait to be begun -/

/-- A source that has been checked, over another namespace. -/
def CheckedApart (ns : Ref) (code : Code) (globals : Ref) : Prop := Checked code globals ∧ globals ≠ ns

theorem World.tidy_apart_iff {ns : Ref} {w : World} :
    w.Tidy (CheckedApart ns) ↔ w.Tidy Checked ∧ w.Sourceless ns := by
  have hpending (p : Pending) : p.Tidy (CheckedApart ns) ↔ p.Tidy Checked ∧ p.isSourceOver ns = false := by
    cases p with
    | source code globals => exact and_congr_right' (beq_eq_false_iff_ne (b := ns)).symm
    | _ => exact (and_iff_left rfl).symm
  constructor
  · intro h
    exact ⟨⟨h.functions, fun c hc p hp => ((hpending p).mp (h.coroutines c hc p hp)).1⟩,
      fun c hc p hp => ((hpending p).mp (h.coroutines c hc p hp)).2⟩
  · rintro ⟨h, hns⟩
    exact ⟨h.functions, fun c hc p hp => (hpending p).mpr ⟨h.coroutines c hc p hp, hns c hc p hp⟩⟩

/-- Programs make no sources. -/
theorem tidying_apart (ns : Ref) (fuel : Nat) : Tidying (CheckedApart ns) fuel := tidying (fun _ _ h => h.1) fuel

section

variable {source : List Char} {filename : String} {mode : Mode} {topLevelAwait : Bool} {code : Code}
  {globals ns : Ref} {w w' : World}

/-- **No source is left to be begun** by the evaluation of one that does not await at its top level, or that is
over another namespace. -/
theorem evaluate_sourceless (hcode : compile source filename mode topLevelAwait = .ok code)
    (happart : code.isCoroutine = true → globals ≠ ns) (hw : w.ComesAbout) (hns : w.Sourceless ns) {o : Outcome}
    (ho : evaluate code globals w = some (o, w')) : w'.Sourceless ns := by
  have htidy : w.Tidy (CheckedApart ns) := World.tidy_apart_iff.mpr ⟨hw.tidy.holds, hns⟩
  have hscope : Checked code globals := compile_scope hcode
  refine (World.tidy_apart_iff.mp ?_).2
  unfold evaluate at ho
  split at ho
  · rename_i hcoroutine
    have hp : (Pending.source code globals).Tidy (CheckedApart ns) := ⟨hscope, happart hcoroutine⟩
    exact Host.keeps_of_ofEval (Eval.Keeps.ofOp (newCoroutine_tidy _ hp) _ htidy) ho
  · exact Host.keeps_of_ofEval ((tidying_apart ns horizon).runModule code globals hscope w htidy) ho

/-- **A source that awaits at its top level** is a coroutine until it is begun. From then on none is left. -/
theorem runCoroutine_sourceless (hcode : compile source filename mode topLevelAwait = .ok code)
    (hw : w.ComesAbout) (hns : w.Sourceless ns) {r : Ref}
    (ho : evaluate code globals w = some (.ok (.coroutine r), w')) (hcoroutine : code.isCoroutine = true)
    (fuel : Nat) : (runCoroutine plainly fuel r w').Keeps (tidiness (CheckedApart ns)) := by
  have htidy : w.Tidy (CheckedApart ns) := World.tidy_apart_iff.mpr ⟨hw.tidy.holds, hns⟩
  have hscope : Checked code globals := compile_scope hcode
  have hlast : r = w.coroutines.size ∧
      w' = { w with coroutines := w.coroutines.push ⟨"<module>", some (.source code globals)⟩ } := by
    rw [evaluate, if_pos hcoroutine] at ho
    cases ho
    exact ⟨rfl, rfl⟩
  obtain ⟨rfl, rfl⟩ := hlast
  cases fuel with
  | zero => exact .halt
  | succ fuel =>
    let waiting : World := { w with coroutines := w.coroutines.push ⟨"<module>", some (.source code globals)⟩ }
    have hpending : waiting.pending? w.coroutines.size = some (.source code globals) := by
      simp [World.pending?, waiting]
    have hbegun : (waiting.begin w.coroutines.size).Tidy (CheckedApart ns) := by
      refine ⟨htidy.functions, fun c hc p hp => ?_⟩
      have hc : c ∈ w.coroutines.push ⟨"<module>", none⟩ := by
        simpa [World.begin, waiting, Array.setIfInBounds, Array.set_push] using hc
      rcases Array.mem_push.mp hc with hc | rfl
      · exact htidy.coroutines c hc p hp
      · cases hp
    change Step.Keeps _ ((runCoroutine plainly (fuel + 1) w.coroutines.size).run waiting)
    rw [runCoroutine_run hpending]
    exact (tidying_apart ns fuel).runModule code globals hscope _ hbegun

end

/-! ## What a call rebinds -/

/-- **A computation that goes on** from each wait in the next of these worlds. One that goes no further
stays where it is; one that has a result does not go on. -/
def Step.resumed {α : Type} : Step α → List World → Option (Step α)
  | s, [] => some s
  | .wait _ _ resume, w :: ws => (resume w).resumed ws
  | .halt why, _ :: _ => some (.halt why)
  | .done .., _ :: _ => none

@[simp] theorem Step.resumed_nil {α : Type} (s : Step α) : s.resumed [] = some s := by
  cases s <;> rfl

/-- The world where a computation has its result, or waits. -/
def Step.world? {α : Type} : Step α → Option World
  | .done _ w => some w
  | .wait _ w _ => some w
  | .halt _ => none

/-- The result of a computation that has one, with the world then. -/
def Step.result? {α : Type} : Step α → Option (α × World)
  | .done a w => some (a, w)
  | .wait .. => none
  | .halt _ => none

theorem Step.eq_done {α : Type} {s : Step α} {a : α} {w : World} (h : s.result? = some (a, w)) :
    s = .done a w := by
  cases s <;> cases h
  rfl

/-- What a computation rebinds since it last went on, it has declared: under the watch it is stopped. -/
theorem Step.Heeds.stopped_of_rebinding {α : Type} {ns : Ref} {n : String} {post : α → Prop}
    {s s' t : Step α} {w w' : World} {ws : List World} (h : Heeds ns n post (w.binding ns n) s s')
    (hws : ∀ u ∈ ws, u.Sourceless ns) (ht : s.resumed ws = some t) (hw' : t.world? = some w')
    (hchange : w'.binding ns n ≠ (ws.getLastD w).binding ns n) : s'.resumed ws = some (.halt .stopped) := by
  induction ws generalizing w s s' with
  | nil =>
    rw [Step.resumed_nil] at ht ⊢
    cases ht
    cases h with
    | done hw _ =>
      cases hw'
      exact absurd hw.binding hchange
    | wait hw _ =>
      cases hw'
      exact absurd hw.binding hchange
    | halt => cases hw'
    | stopped => rfl
  | cons u us ih =>
    rw [List.forall_mem_cons] at hws
    rw [List.getLastD_cons] at hchange
    cases h with
    | done => cases ht
    | wait _ hresume => exact ih (hresume _ u ⟨rfl, hws.1⟩) hws.2 ht hchange
    | halt =>
      cases ht
      cases hw'
    | stopped => rfl

/-- **Functions do not rebind names of a module:** if a name of a namespace is bound otherwise when a call
of a function ends or waits than when the call began or last went on, the call has executed a statement
that declares this name, in a frame over this namespace: under a watch for such statements it is stopped.
This is so while no source over the namespace waits to be begun, as one does that awaits at its top level. -/
theorem call_spares_bindings (ns : Ref) (n : String) (fuel : Nat) (r : Ref) (args : List Value)
    (named : List (String × Value)) (w : World) (ws : List World) {w' : World} {s : Step Ending}
    (hw : w.Sourceless ns) (hws : ∀ u ∈ ws, u.Sourceless ns)
    (hs : ((call plainly fuel (.function r) args named).run w).resumed ws = some s)
    (hw' : s.world? = some w') (hchange : w'.binding ns n ≠ (ws.getLastD w).binding ns n) :
    ((call (stopsAtGlobal ns n) fuel (.function r) args named).run w).resumed ws =
      some (.halt .stopped) :=
  ((heedful ns n fuel).call (.function r) args named _ w ⟨rfl, hw⟩).stopped_of_rebinding hws hs hw' hchange

/-- A source defines a function that declares a name and binds it: a call rebinds the name of the module. -/
theorem call_spares_bindings_declared : ∃ code o w w', ∃ s : Step Ending,
    compile "def f():\n global x\n x = 1\n".toList "<test>" .exec true = .ok code ∧
    evaluate code 0 (World.empty.newSpace .empty).2 = some (o, w) ∧ w.Sourceless 0 ∧
    (call plainly 9 (.function 0) [] []).run w = s ∧ s.world? = some w' ∧
    w'.binding 0 "x" ≠ w.binding 0 "x" ∧
    (call (stopsAtGlobal 0 "x") 9 (.function 0) [] []).run w = .halt .stopped := by
  have hfacts : (compile "def f():\n global x\n x = 1\n".toList "<test>" .exec true).toOption.any (fun code =>
      !code.isCoroutine && (evaluate code 0 (World.empty.newSpace .empty).2).any fun r =>
        (r.2.binding 0 "x").isNone && ((call plainly 9 (.function 0) [] []).run r.2).world?.any fun w' =>
          (w'.binding 0 "x").isSome) = true := by
    decide +kernel
  obtain ⟨code, hcode, hfacts⟩ := (Option.any_eq_true _ _).mp hfacts
  obtain ⟨hplain, hfacts⟩ := Bool.and_eq_true_iff.mp hfacts
  obtain ⟨⟨o, w⟩, ho, hfacts⟩ := (Option.any_eq_true _ _).mp hfacts
  obtain ⟨hfree, hfacts⟩ := Bool.and_eq_true_iff.mp hfacts
  obtain ⟨w', hw', hbound⟩ := (Option.any_eq_true _ _).mp hfacts
  have hcode : compile "def f():\n global x\n x = 1\n".toList "<test>" .exec true = .ok code :=
    Except.toOption_eq_some.mp hcode
  have hstart : (World.empty.newSpace .empty).2.ComesAbout := .other .empty rfl
  have hsourceless : w.Sourceless 0 := by
    refine evaluate_sourceless hcode (fun h => ?_) hstart (fun c hc => absurd hc (Array.not_mem_empty c)) ho
    rw [h] at hplain
    cases hplain
  have hchange : w'.binding 0 "x" ≠ w.binding 0 "x" := by
    intro h
    rw [h, Option.isNone_iff_eq_none.mp hfree] at hbound
    cases hbound
  have hstopped := call_spares_bindings 0 "x" 9 0 [] [] w [] hsourceless (List.forall_mem_nil _)
    (Step.resumed_nil _) hw' hchange
  rw [Step.resumed_nil] at hstopped
  exact ⟨code, o, w, w', _, hcode, ho, hsourceless, rfl, hw', hchange, Option.some.inj hstopped⟩

/-- From its start to its end a call may see a name rebound that nobody has declared meanwhile: a function
that awaits in the default of a parameter waits, and others go on. -/
theorem waiting_call_sees_rebinding :
    ¬(∀ (ns : Ref) (n : String) (fuel : Nat) (r : Ref) (w w' : World) (ws : List World) (o : Ending),
      w.Sourceless ns → (∀ u ∈ ws, u.Sourceless ns) →
      ((call plainly fuel (.function r) [] []).run w).resumed ws = some (.done o w') →
      w'.binding ns n ≠ w.binding ns n →
      ((call (stopsAtGlobal ns n) fuel (.function r) [] []).run w).resumed ws =
        some (.halt .stopped)) ∧
    ((compile ("import asyncio\nx = 1\nasync def one(): pass\nasync def rebinder():\n global x\n".toList ++
        " await asyncio.create_task(one())\n x = 2\ndef f():\n print(x)\n".toList ++
        " def g(y=await asyncio.create_task(one())): pass\n print(x)\nasync def caller(): f()\n".toList ++
        "async def main():\n r = asyncio.create_task(rebinder())\n".toList ++
        " c = asyncio.create_task(caller())\n await r\n await c\nasyncio.run(main())\n".toList)
        "<test>" .exec false).toOption.bind fun code =>
      (evaluate code 0 (World.empty.newSpace .empty).2).map fun r => r.2.output) =
        some "1\n2\n".toList := by
  refine ⟨fun hall => ?_, by
    repeat rw [String.toList_ofList]
    decide +kernel⟩
  let g : Function := ⟨.mk "f" [] [.mk 2 (.define (.mk "g" [⟨"y", some (.await (.name "t"))⟩] [] false))]
    false, 0, []⟩
  let names : Bindings Value := Bindings.empty.insert "t" (.task 0)
  let w : World := { World.empty with
    functions := #[g], spaces := #[names], tasks := #[⟨"t", 0, 0, true, none, none, none, false⟩] }
  -- Meanwhile the task has ended, and somebody has bound the name.
  let u : World := { w with
    spaces := #[names.insert "x" (.int 2)],
    tasks := #[⟨"t", 0, 0, false, none, some (.ok .none), none, false⟩] }
  have hends : (((call plainly 9 (.function 0) [] []).run w).resumed [u]).any (fun s =>
      s.result?.any fun r => (r.2.binding 0 "x").isSome) = true := by
    decide +kernel
  obtain ⟨s, hs, hresult⟩ := (Option.any_eq_true _ _).mp hends
  obtain ⟨⟨o, w'⟩, hdone, hbound⟩ := (Option.any_eq_true _ _).mp hresult
  cases Step.eq_done hdone
  have hempty (v : World) (hv : v.coroutines = #[]) : v.Sourceless 0 := by
    intro c hc
    rw [hv] at hc
    exact absurd hc (Array.not_mem_empty c)
  have hchange : w'.binding 0 "x" ≠ w.binding 0 "x" := by
    intro h
    have hunbound : (w'.binding 0 "x").isSome = false := by
      rw [h]
      decide +kernel
    exact Bool.noConfusion (hunbound.symm.trans hbound)
  have hstopped := hall 0 "x" 9 0 w w' [u] o (hempty w rfl) (List.forall_mem_singleton.mpr (hempty u rfl))
    hs hchange
  have hgoes : (((call (stopsAtGlobal 0 "x") 9 (.function 0) [] []).run w).resumed [u]).any
      (·.world?.isSome) = true := by
    decide +kernel
  rw [hstopped] at hgoes
  cases hgoes

end Transcript.Lang
