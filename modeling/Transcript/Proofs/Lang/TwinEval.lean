import Transcript.Proofs.Lang.TwinLoop

/-!
# Programs of twins

The same program, run in worlds that are twins and in frames that are, does the same: it comes to results that
are twins, waits for the same, or has no end, and leaves worlds that are twins. The proof is by induction on the
steps that may nest; one bundle says it of all functions of the evaluator.

Results:
* `twinned`: the evaluator treats twins alike, however many steps may nest.
-/

namespace Transcript.Lang

/-- **The evaluator treats twins alike,** with so many steps to nest. -/
structure Twinned (L : Link) (fuel : Nat) : Prop where
  eval : ∀ {place : Option (Ref × Ref)} {f f' : Frame}, f.Twins L f' → ∀ e : Expr,
    (eval plainly fuel f e).Twins L place (Value.Twins L) (eval plainly fuel f' e)
  evalChain : ∀ {place : Option (Ref × Ref)} {f f' : Frame}, f.Twins L f' → ∀ {v v' : Value}, v.Twins L v' →
    ∀ rest : List (CompareOp × Expr),
    (evalChain plainly fuel f v rest).Twins L place (Value.Twins L) (evalChain plainly fuel f' v' rest)
  call : ∀ {place : Option (Ref × Ref)} {g g' : Value}, g.Twins L g' → ∀ {args args' : List Value},
    L.Values args args' → ∀ {named named' : List (String × Value)}, L.Named named named' →
    (call plainly fuel g args named).Twins L place (Value.Twins L) (call plainly fuel g' args' named')
  runFunction : ∀ {place : Option (Ref × Ref)} {g g' : Function}, g.Twins L g' → ∀ {b b' : Bindings Value},
    L.Bound b b' →
    (runFunction plainly fuel g b).Twins L place (Value.Twins L) (runFunction plainly fuel g' b')
  runModule : ∀ {place : Option (Ref × Ref)} (code : Code) {r r' : Ref}, L.Pairs .space r r' →
    (runModule plainly fuel code r).Twins L place (Value.Twins L) (runModule plainly fuel code r')
  awaitValue : ∀ {place : Option (Ref × Ref)} {v v' : Value}, v.Twins L v' →
    (awaitValue plainly fuel v).Twins L place (Value.Twins L) (awaitValue plainly fuel v')
  runCoroutine : ∀ {place : Option (Ref × Ref)} {r r' : Ref}, L.Pairs .coroutine r r' →
    (runCoroutine plainly fuel r).Twins L place (Value.Twins L) (runCoroutine plainly fuel r')
  execBlock : ∀ {place : Option (Ref × Ref)} (body : List Stmt),
    (execBlock plainly fuel body).Twins L place (fun _ _ => True) (execBlock plainly fuel body)
  exec : ∀ {place : Option (Ref × Ref)} (s : Stmt),
    (exec plainly fuel s).Twins L place (fun _ _ => True) (exec plainly fuel s)
  execLoop : ∀ {place : Option (Ref × Ref)} (test : Expr) (body : List Stmt),
    (execLoop plainly fuel test body).Twins L place (fun _ _ => True) (execLoop plainly fuel test body)
  execEach : ∀ {place : Option (Ref × Ref)} (target : Target) (body : List Stmt) {vs vs' : List Value},
    L.Values vs vs' →
    (execEach plainly fuel target body vs).Twins L place (fun _ _ => True) (execEach plainly fuel target body vs')
  handle : ∀ {place : Option (Ref × Ref)} {e e' : Raised}, e.Twins L e' → ∀ handlers : List Handler,
    (handle plainly fuel e handlers).Twins L place (fun _ _ => True) (handle plainly fuel e' handlers)
  assign : ∀ {place : Option (Ref × Ref)} (target : Target) {v v' : Value}, v.Twins L v' →
    (assign plainly fuel target v).Twins L place (fun _ _ => True) (assign plainly fuel target v')
  augment : ∀ {place : Option (Ref × Ref)} (target : Target) (op : BinaryOp) (value : Expr),
    (augment plainly fuel target op value).Twins L place (fun _ _ => True) (augment plainly fuel target op value)
  delete : ∀ {place : Option (Ref × Ref)} (target : Target),
    (delete plainly fuel target).Twins L place (fun _ _ => True) (delete plainly fuel target)

namespace Twinned

variable {L : Link} {fuel : Nat} {place : Option (Ref × Ref)}

/-! ## Expressions -/

theorem eval_twins (h : Twinned L fuel) {f f' : Frame} (hf : f.Twins L f') (e : Expr) :
    (Lang.eval plainly (fuel + 1) f e).Twins L place (Value.Twins L) (Lang.eval plainly (fuel + 1) f' e) := by
  have hitems (items : List Expr) : Eval.Twins L place L.Values (items.mapM (Lang.eval plainly fuel f))
      (items.mapM (Lang.eval plainly fuel f')) :=
    Eval.Twins.sequential.mapM (both_eq items) fun e _ he => he ▸ h.eval hf e
  have hbound (o : Option Expr) : Eval.Twins L place (Option.Rel (Value.Twins L))
      (o.mapM (Lang.eval plainly fuel f)) (o.mapM (Lang.eval plainly fuel f')) :=
    Eval.Twins.sequential.mapM_option (both_eq_option o) fun e _ he => he ▸ h.eval hf e
  cases e with
  | constant c => exact .ofOp (.constantValue c)
  | name n => exact .ofOp (.lookup hf n)
  | list items => exact (hitems items).bind fun vs vs' hs => .ofOp (.newList hs)
  | tuple items => exact (hitems items).bind fun vs vs' hs => .ofOp (.newTuple hs)
  | dict items =>
    refine Eval.Twins.bind (R := L.Entries) ?_ fun es es' hes => .ofOp (.newDict hes)
    refine Eval.Twins.sequential.foldlM (both_eq items) (fun es es' item _ hes hitem => ?_) .nil
    subst hitem
    refine (h.eval hf item.1).bind fun k k' hk => (h.eval hf item.2).bind fun v v' hv => ?_
    exact .ofOp (.putEntry hk hes hv)
  | binary op l r =>
    exact (h.eval hf l).bind fun u u' hu => (h.eval hf r).bind fun v v' hv => .ofOp (.binary op hu hv)
  | unary op e => exact (h.eval hf e).bind fun v v' hv => .ofOp (.unary op hv)
  | logic op l r =>
    refine (h.eval hf l).bind fun v v' hv => Eval.Twins.world.bind fun w w' hw => ?_
    rw [hw.truthy hv]
    split
    · exact .pure hv
    · exact h.eval hf r
  | compare e rest => exact (h.eval hf e).bind fun v v' hv => h.evalChain hf hv rest
  | call g args named =>
    refine (h.eval hf g).bind fun g g' hg => (hitems args).bind fun args args' hargs => ?_
    refine Eval.Twins.bind (R := L.Named) ?_ fun named named' hnamed => h.call hg hargs hnamed
    refine Eval.Twins.sequential.mapM (both_eq named) fun arg _ harg => ?_
    subst harg
    exact (h.eval hf arg.2).bind fun v v' hv => .pure ⟨rfl, hv⟩
  | «attribute» e name => exact (h.eval hf e).bind fun v v' hv => .ofOp (.attributeOf hv name)
  | subscript e index =>
    cases index with
    | slice lower upper =>
      refine (h.eval hf e).bind fun v v' hv => (hbound lower).bind fun a a' ha => ?_
      exact (hbound upper).bind fun b b' hb => .ofOp (.slice hv (both_getD ha .none) (both_getD hb .none))
    | _ => exact (h.eval hf e).bind fun v v' hv => (h.eval hf _).bind fun k k' hk => .ofOp (.itemAt hv hk)
  | slice lower upper => exact .refuse _ nofun
  | conditional test yes no =>
    refine (h.eval hf test).bind fun v v' hv => Eval.Twins.world.bind fun w w' hw => ?_
    rw [hw.truthy hv]
    split
    · exact h.eval hf yes
    · exact h.eval hf no
  | await e =>
    refine Eval.Twins.bind (R := fun _ _ => True) (.pure trivial) fun _ _ _ => ?_
    exact (h.eval hf e).bind fun v v' hv => h.awaitValue hv

theorem evalChain_twins (h : Twinned L fuel) {f f' : Frame} (hf : f.Twins L f') {v v' : Value}
    (hv : v.Twins L v') (rest : List (CompareOp × Expr)) :
    (Lang.evalChain plainly (fuel + 1) f v rest).Twins L place (Value.Twins L)
      (Lang.evalChain plainly (fuel + 1) f' v' rest) := by
  cases rest with
  | nil => exact .pure (.bool _)
  | cons operand rest =>
    obtain ⟨op, e⟩ := operand
    refine (h.eval hf e).bind fun u u' hu => ?_
    refine (Eval.Twins.ofOp (.compareWith op hv hu)).bind fun b b' hb => ?_
    subst hb
    split
    · exact h.evalChain hf hu rest
    · exact .pure (.bool _)

/-! ## Calls -/

/-- **Calls** of twins. -/
theorem call_twins (h : Twinned L fuel) {g g' : Value} (hg : g.Twins L g') {args args' : List Value}
    (hargs : L.Values args args') {named named' : List (String × Value)} (hnamed : L.Named named named') :
    (Lang.call plainly (fuel + 1) g args named).Twins L place (Value.Twins L)
      (Lang.call plainly (fuel + 1) g' args' named') := by
  have harguments (name : String) : Arguments.Twins L ⟨name, args, named⟩ ⟨name, args', named'⟩ :=
    ⟨rfl, hargs, hnamed⟩
  cases hg with
  | builtin b =>
    cases b with
    | run =>
      refine Eval.Twins.bind (R := L.Pairs .coroutine) (.ofOp ?_) fun c c' hc => ?_
      · refine ((harguments _).check _ _ _).bind fun _ _ _ => ?_
        exact .coroutineOf ((harguments _).nth 0)
      refine Eval.Twins.world.bind fun w w' hw => ?_
      rw [hw.running, hw.running']
      cases place with
      | some p => exact .refuse _ nofun
      | none => exact runOnNewLoop_twins (fun place c c' hc => h.runCoroutine hc) fuel hc
    | _ => exact .ofOp (.callBuiltin _ (harguments _))
  | method hv m =>
    exact (Eval.Twins.ofOp (.callMethod hv m hargs hnamed)).bind fun o o' ho => .ofEnding ho
  | exceptionType k => exact .ofOp (.makeException k hargs hnamed)
  | function hr =>
    refine (Eval.Twins.ofOp (.functionAt hr)).bind fun g g' hg => ?_
    refine (Eval.Twins.ofOp (.ofExcept (bindArguments_twins hg hargs hnamed))).bind fun b b' hb => ?_
    rw [hg.definition]
    split
    · exact .ofOp (.newCoroutine _ (.call hg hb))
    · exact h.runFunction hg hb
  | _ => exact .refuse _ nofun

theorem resultOf_twins {r r' : Except Signal Unit} (hr : Except.Both (Signal.Twins L) (fun _ _ => True) r r') :
    (resultOf r).Twins L place (Value.Twins L) (resultOf r') := by
  cases hr with
  | ok _ => exact .pure .none
  | error hs =>
    cases hs with
    | raised he => exact .throw he
    | exit hv => exact .pure hv
    | leave => exact .pure .none
    | next => exact .pure .none

theorem runFunction_twins (h : Twinned L fuel) {g g' : Function} (hg : g.Twins L g') {b b' : Bindings Value}
    (hb : L.Bound b b') :
    (Lang.runFunction plainly (fuel + 1) g b).Twins L place (Value.Twins L)
      (Lang.runFunction plainly (fuel + 1) g' b') := by
  unfold Lang.runFunction
  refine Eval.Twins.bind (.ofRun ?_) fun r r' hr => resultOf_twins hr
  rw [hg.definition]
  rcases hg.globals with hbody | hglobals
  · -- A body without statements asks for no namespace.
    rw [hbody]
    cases fuel with
    | zero => exact .halt _
    | succ fuel => exact .pure (.ok trivial)
  · exact (h.execBlock _).run' ⟨hglobals, .some hb, rfl, rfl, .none, rfl⟩

/-- Runs statements as those of a module. -/
def runStatements (fuel : Nat) (f : Frame) (body : List Stmt) : Eval Value := do
  match ← Eval.ofRun ((Lang.execBlock plainly fuel body).run' f) with
  | .error (.raised e) => throw e
  | _ => return .none

theorem runModule_twins (h : Twinned L fuel) (code : Code) {r r' : Ref} (hr : L.Pairs .space r r') :
    (Lang.runModule plainly (fuel + 1) code r).Twins L place (Value.Twins L)
      (Lang.runModule plainly (fuel + 1) code r') := by
  have hframe : (Frame.ofModule r (code.mode == .single) code.isCoroutine).Twins L
      (Frame.ofModule r' (code.mode == .single) code.isCoroutine) :=
    ⟨hr, .none, rfl, rfl, .none, rfl⟩
  have hblock (body : List Stmt) : Eval.Twins L place (Value.Twins L)
      (runStatements fuel (Frame.ofModule r (code.mode == .single) code.isCoroutine) body)
      (runStatements fuel (Frame.ofModule r' (code.mode == .single) code.isCoroutine) body) := by
    refine Eval.Twins.bind (.ofRun ((h.execBlock body).run' hframe)) fun r r' hr => ?_
    cases hr with
    | ok _ => exact .pure .none
    | error hs =>
      cases hs with
      | raised he => exact .throw he
      | _ => exact .pure .none
  unfold Lang.runModule
  dsimp only
  split
  · exact h.eval hframe _
  · exact hblock _

/-! ## Coroutines -/

theorem awaitValue_twins (h : Twinned L fuel) {v v' : Value} (hv : v.Twins L v') :
    (Lang.awaitValue plainly (fuel + 1) v).Twins L place (Value.Twins L)
      (Lang.awaitValue plainly (fuel + 1) v') := by
  cases hv with
  | coroutine hr => exact h.runCoroutine hr
  | task hr => exact awaitTask_twins hr
  | _ => exact .refuse _ nofun

theorem runCoroutine_twins (h : Twinned L fuel) {r r' : Ref} (hr : L.Pairs .coroutine r r') :
    (Lang.runCoroutine plainly (fuel + 1) r).Twins L place (Value.Twins L)
      (Lang.runCoroutine plainly (fuel + 1) r') := by
  refine (Eval.Twins.ofOp (.takePending hr)).bind fun p p' hp => ?_
  cases hp with
  | call hg hb => exact h.runFunction hg hb
  | sleep delay hv => exact sleep_twins delay hv
  | @gather vs vs' hs =>
    have hmembers : List.Forall₂ (Member.Twins L place)
        (vs.map fun v => Member.waiting (.ofRun (Lang.awaitValue plainly fuel v)))
        (vs'.map fun v => Member.waiting (.ofRun (Lang.awaitValue plainly fuel v))) :=
      List.rel_map (fun v v' hv => .waiting (.ofRun (h.awaitValue hv))) hs
    refine (Eval.Twins.ofRun (together_twins fuel hmembers)).bind fun os os' hos => ?_
    have houtcomes : Except.Both (Raised.Twins L) L.Values (os.mapM id) (os'.mapM id) := by
      have hsequential : SequentialBoth (Except Raised) fun _ _ R x y => Except.Both (Raised.Twins L) R x y :=
        ⟨.ok, .bind⟩
      exact hsequential.mapM hos fun o o' ho => ho
    exact (Eval.Twins.ofEnding houtcomes).bind fun vs vs' hvs => .ofOp (.newList hvs)
  | source code hr => exact h.runModule code hr

/-! ## Targets -/

/-- An expression in a statement. -/
theorem ofEval (h : Twinned L fuel) (e : Expr) :
    (Exec.ofEval (Lang.eval plainly fuel · e)).Twins L place (Value.Twins L)
      (Exec.ofEval (Lang.eval plainly fuel · e)) :=
  .ofEval fun _ _ hf => h.eval hf e

theorem assign_twins (h : Twinned L fuel) (target : Target) {v v' : Value} (hv : v.Twins L v') :
    (Lang.assign plainly (fuel + 1) target v).Twins L place (fun _ _ => True)
      (Lang.assign plainly (fuel + 1) target v') := by
  cases target with
  | name n => exact .bindName n hv
  | subscript e index =>
    refine (h.ofEval e).bind fun u u' hu => (h.ofEval index).bind fun k k' hk => ?_
    exact .ofOp (.setItem hu hk hv)
  | tuple targets =>
    refine (Exec.Twins.ofOp (.unpacked hv _)).bind fun vs vs' hs => ?_
    refine Exec.Twins.sequential.forM (both_zip (both_eq targets) hs) fun p p' hp => ?_
    obtain ⟨t, v⟩ := p
    obtain ⟨t', v'⟩ := p'
    obtain ⟨ht, hv⟩ := hp
    change t = t' at ht
    subst ht
    exact h.assign t hv

theorem augment_twins (h : Twinned L fuel) (target : Target) (op : BinaryOp) (value : Expr) :
    (Lang.augment plainly (fuel + 1) target op value).Twins L place (fun _ _ => True)
      (Lang.augment plainly (fuel + 1) target op value) := by
  cases target with
  | name n =>
    refine (Exec.Twins.ofEval fun f f' hf => .ofOp (.lookup hf n)).bind fun u u' hu => ?_
    refine (h.ofEval value).bind fun v v' hv => ?_
    exact (Exec.Twins.ofOp (.augmented op hu hv)).bind fun x x' hx => .bindName n hx
  | subscript e index =>
    refine (h.ofEval e).bind fun c c' hc => (h.ofEval index).bind fun k k' hk => ?_
    refine (Exec.Twins.ofOp (.itemAt hc hk)).bind fun u u' hu => (h.ofEval value).bind fun v v' hv => ?_
    exact (Exec.Twins.ofOp (.augmented op hu hv)).bind fun x x' hx => .ofOp (.setItem hc hk hx)
  | tuple items => exact .refuse _ nofun

theorem delete_twins (h : Twinned L fuel) (target : Target) :
    (Lang.delete plainly (fuel + 1) target).Twins L place (fun _ _ => True)
      (Lang.delete plainly (fuel + 1) target) := by
  cases target with
  | name n => exact .unbindName n
  | subscript e index =>
    refine (h.ofEval e).bind fun c c' hc => (h.ofEval index).bind fun k k' hk => ?_
    exact .ofOp (.deleteItem hc hk)
  | tuple targets => exact Exec.Twins.sequential.forM (both_eq targets) fun t _ ht => ht ▸ h.delete t

/-! ## Loops and handlers -/

/-- Bodies of loops end alike: the next round begins, the loop is left, or what is around it is. -/
theorem afterBody_twins {next next' : Exec Unit} (hnext : next.Twins L place (fun _ _ => True) next')
    {r r' : Except Signal Unit} (hr : Except.Both (Signal.Twins L) (fun _ _ => True) r r') :
    Exec.Twins L place (fun _ _ => True)
      (match r with
        | .ok () | .error .next => next
        | .error .leave => pure ()
        | ending => Exec.conclude ending)
      (match r' with
        | .ok () | .error .next => next'
        | .error .leave => pure ()
        | ending => Exec.conclude ending) := by
  cases hr with
  | ok _ => exact hnext
  | error hs =>
    cases hs with
    | raised he => exact .throw (.raised he)
    | exit hv => exact .throw (.exit hv)
    | leave => exact .pure trivial
    | next => exact hnext

theorem execLoop_twins (h : Twinned L fuel) (test : Expr) (body : List Stmt) :
    (Lang.execLoop plainly (fuel + 1) test body).Twins L place (fun _ _ => True)
      (Lang.execLoop plainly (fuel + 1) test body) := by
  refine (h.ofEval test).bind fun v v' hv => Exec.Twins.world.bind fun w w' hw => ?_
  rw [hw.truthy hv]
  split
  · exact (h.execBlock body).attempt.bind fun r r' hr => afterBody_twins (h.execLoop test body) hr
  · exact .pure trivial

theorem execEach_twins (h : Twinned L fuel) (target : Target) (body : List Stmt) {vs vs' : List Value}
    (hs : L.Values vs vs') :
    (Lang.execEach plainly (fuel + 1) target body vs).Twins L place (fun _ _ => True)
      (Lang.execEach plainly (fuel + 1) target body vs') := by
  cases hs with
  | nil => exact .pure trivial
  | cons hv hs =>
    refine (h.assign target hv).bind fun _ _ _ => ?_
    exact (h.execBlock body).attempt.bind fun r r' hr => afterBody_twins (h.execEach target body hs) hr

theorem handle_twins (h : Twinned L fuel) {e e' : Raised} (he : e.Twins L e') (handlers : List Handler) :
    (Lang.handle plainly (fuel + 1) e handlers).Twins L place (fun _ _ => True)
      (Lang.handle plainly (fuel + 1) e' handlers) := by
  match handlers with
  | [] => exact .raise he
  | .mk kind name body :: rest =>
    have hruns (isMatch isMatch' : Bool) (hmatch : isMatch = isMatch') : Exec.Twins L place (fun _ _ => True)
        (do
          if isMatch then
            name.forM fun n => do bindName n (← Exec.ofOp (Op.newException e))
            let previous := (← getThe Frame).handling
            modifyThe Frame fun f => { f with handling := some e }
            let ending ← Exec.attempt (Lang.execBlock plainly fuel body)
            modifyThe Frame fun f => { f with handling := previous }
            name.forM fun n => discard (Exec.attempt (unbindName n))
            Exec.conclude ending
          else Lang.handle plainly fuel e rest)
        (do
          if isMatch' then
            name.forM fun n => do bindName n (← Exec.ofOp (Op.newException e'))
            let previous := (← getThe Frame).handling
            modifyThe Frame fun f => { f with handling := some e' }
            let ending ← Exec.attempt (Lang.execBlock plainly fuel body)
            modifyThe Frame fun f => { f with handling := previous }
            name.forM fun n => discard (Exec.attempt (unbindName n))
            Exec.conclude ending
          else Lang.handle plainly fuel e' rest) := by
      subst hmatch
      split
      · refine (Exec.Twins.sequential.forM_option (both_eq_option name) fun n _ hn => ?_).bind fun _ _ _ => ?_
        · subst hn
          exact (Exec.Twins.ofOp (.newException he)).bind fun v v' hv => .bindName n hv
        refine Exec.Twins.frame.bind fun f f' hf => ?_
        refine Exec.Twins.bind (R := fun _ _ => True) (.modifyFrame fun q q' hq => ?_) fun _ _ _ => ?_
        · exact { hq with handling := .some he }
        refine (h.execBlock body).attempt.bind fun r r' hr => ?_
        refine Exec.Twins.bind (R := fun _ _ => True) (.modifyFrame fun q q' hq => ?_) fun _ _ _ => ?_
        · exact { hq with handling := hf.handling }
        refine (Exec.Twins.sequential.forM_option (both_eq_option name) fun n _ hn => ?_).bind fun _ _ _ =>
          .conclude hr
        subst hn
        exact (Exec.Twins.unbindName n).attempt.bind fun _ _ _ => .pure trivial
      · exact h.handle he rest
    unfold Lang.handle
    dsimp only
    cases kind with
    | none => exact hruns true true rfl
    | some k =>
      refine (h.ofEval k).bind fun v v' hv => ?_
      exact (Exec.Twins.ofOp (.isCaughtBy he v v' hv)).bind fun b b' hb => hruns b b' hb

/-! ## Statements -/

theorem execBlock_twins (h : Twinned L fuel) (body : List Stmt) :
    (Lang.execBlock plainly (fuel + 1) body).Twins L place (fun _ _ => True)
      (Lang.execBlock plainly (fuel + 1) body) := by
  match body with
  | [] => exact .pure trivial
  | s :: ss => exact (h.exec s).bind fun _ _ _ => h.execBlock ss

/-- **Statements** do the same to twins. -/
theorem exec_twins (h : Twinned L fuel) (s : Stmt) :
    (Lang.exec plainly (fuel + 1) s).Twins L place (fun _ _ => True) (Lang.exec plainly (fuel + 1) s) := by
  have hoption (o : Option Expr) : Exec.Twins L place (Option.Rel (Value.Twins L))
      (o.mapM fun e => Exec.ofEval (Lang.eval plainly fuel · e))
      (o.mapM fun e => Exec.ofEval (Lang.eval plainly fuel · e)) :=
    Exec.Twins.sequential.mapM_option (both_eq_option o) fun e _ he => he ▸ h.ofEval e
  obtain ⟨line, action⟩ := s
  cases action with
  | eval e =>
    refine (h.ofEval e).bind fun v v' hv => Exec.Twins.frame.bind fun f f' hf => ?_
    rw [hf.echo, hv.isNone]
    split
    · exact .ofOp ((Op.Twins.showValue hv).bind fun s s' hs => hs ▸ .write _)
    · exact .pure trivial
  | assign targets value =>
    refine (h.ofEval value).bind fun v v' hv => ?_
    exact Exec.Twins.sequential.forM (both_eq targets) fun t _ ht => ht ▸ h.assign t hv
  | augment target op value => exact h.augment target op value
  | load module newName =>
    exact (Exec.Twins.ofOp (.loadModule module)).bind fun v v' hv => .bindName _ hv
  | raise e =>
    cases e with
    | none =>
      refine Exec.Twins.frame.bind fun f f' hf => ?_
      have hhandling := hf.handling
      generalize f.handling = o at hhandling ⊢
      generalize f'.handling = o' at hhandling ⊢
      cases hhandling with
      | some he => exact .raise he
      | none => exact .refuse _ nofun
    | some e =>
      refine (h.ofEval e).bind fun v v' hv => ?_
      exact (Exec.Twins.ofOp (.exceptionOf hv)).bind fun e e' he => .raise he
  | pass => exact .pure trivial
  | delete targets => exact Exec.Twins.sequential.forM (both_eq targets) fun t _ ht => ht ▸ h.delete t
  | assert test message =>
    refine (h.ofEval test).bind fun v v' hv => Exec.Twins.world.bind fun w w' hw => ?_
    rw [hw.truthy hv]
    split
    · exact .pure trivial
    · refine (hoption message).bind fun o o' ho => .raise ⟨rfl, ?_⟩
      cases ho with
      | none => exact .nil
      | some hu => exact .cons hu .nil
  | globals names =>
    refine .bind (.ofEval fun _ _ _ => .pure (R := fun _ _ => True) trivial) fun _ _ _ => ?_
    exact .modifyFrame fun f f' hf => { hf with declared := congrArg (· ++ names) hf.declared }
  | exit value => exact (hoption value).bind fun o o' ho => .throw (.exit (both_getD ho .none))
  | branch test yes no =>
    refine (h.ofEval test).bind fun v v' hv => Exec.Twins.world.bind fun w w' hw => ?_
    rw [hw.truthy hv]
    split
    · exact h.execBlock yes
    · exact h.execBlock no
  | loop test body => exact h.execLoop test body
  | each target items body =>
    refine (h.ofEval items).bind fun v v' hv => ?_
    exact (Exec.Twins.ofOp (.iterate hv)).bind fun vs vs' hs => h.execEach target body hs
  | guard body handlers final =>
    have hconclude (r r' : Except Signal Unit) (hr : Except.Both (Signal.Twins L) (fun _ _ => True) r r') :
        Exec.Twins L place (fun _ _ => True)
          (do
            Lang.execBlock plainly fuel final
            Exec.conclude r)
          (do
            Lang.execBlock plainly fuel final
            Exec.conclude r') :=
      (h.execBlock final).bind fun _ _ _ => .conclude hr
    refine (h.execBlock body).attempt.bind fun r r' hr => ?_
    cases hr with
    | ok ht => exact hconclude _ _ (.ok ht)
    | error hs =>
      cases hs with
      | raised he => exact (h.handle he handlers).attempt.bind hconclude
      | exit hv => exact hconclude _ _ (.error (.exit hv))
      | leave => exact hconclude _ _ (.error .leave)
      | next => exact hconclude _ _ (.error .next)
  | leave => exact .throw .leave
  | next => exact .throw .next
  | define d =>
    refine Exec.Twins.bind (R := List.Forall₂ (Option.Rel (Value.Twins L)))
      (Exec.Twins.sequential.mapM (both_eq d.params) fun p _ hp => hp ▸ hoption p.default) fun ds ds' hds => ?_
    refine Exec.Twins.frame.bind fun f f' hf => ?_
    have hg : Function.Twins L ⟨d, f.globals, ds⟩ ⟨d, f'.globals, ds'⟩ := ⟨rfl, .inr hf.globals, hds⟩
    exact (Exec.Twins.ofOp (.newFunction hg)).bind fun v v' hv => .bindName _ hv

end Twinned

/-- **The evaluator treats twins alike,** however many steps may nest. -/
theorem twinned (L : Link) (fuel : Nat) : Twinned L fuel := by
  induction fuel with
  | zero =>
    exact {
      eval := fun _ _ => .endless
      evalChain := fun _ _ _ _ _ => .endless
      call := fun _ _ _ _ _ _ _ => .endless
      runFunction := fun _ _ _ _ => .endless
      runModule := fun _ _ _ _ => .endless
      awaitValue := fun _ => .endless
      runCoroutine := fun _ => .endless
      execBlock := fun _ => .endless
      exec := fun _ => .endless
      execLoop := fun _ _ => .endless
      execEach := fun _ _ _ _ _ => .endless
      handle := fun _ _ => .endless
      assign := fun _ _ _ _ => .endless
      augment := fun _ _ _ => .endless
      delete := fun _ => .endless }
  | succ fuel ih =>
    exact {
      eval := ih.eval_twins
      evalChain := ih.evalChain_twins
      call := ih.call_twins
      runFunction := ih.runFunction_twins
      runModule := ih.runModule_twins
      awaitValue := ih.awaitValue_twins
      runCoroutine := ih.runCoroutine_twins
      execBlock := ih.execBlock_twins
      exec := ih.exec_twins
      execLoop := ih.execLoop_twins
      execEach := ih.execEach_twins
      handle := ih.handle_twins
      assign := ih.assign_twins
      augment := ih.augment_twins
      delete := ih.delete_twins }

end Transcript.Lang
