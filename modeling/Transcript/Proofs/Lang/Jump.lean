import Transcript.Proofs.Lang.Await
import Transcript.Proofs.Except
import Transcript.Lang.Eval

/-!
# Jumps

A jump ends blocks until it comes to the loop or the function that it belongs to. The check of a source
says where a jump may stand: `return` in function bodies, `break` and `continue` in loops. If it finds
nothing, no jump leaves a block that must not: not from the last handler that runs, not from a final block
that overrides how the others have ended, and not from a loop that takes it for its own. It does not matter
what the world is like, what the frame is, which hook watches and how many steps may nest.

Results:
* `Scope.Allows`: the signals that may end a block.
* `loop_stays`, `guard_stays`, `handle_stays`: loops, guards and handlers end by no others.
* `ends_of_module`, `ends_of_function`: bodies of sources end normally or by an exception, bodies of
  functions also by their own `return`.
-/

namespace Transcript.Lang

/-! ## Ends of runs -/

/-- **Every end of a run has a property,** whatever the world is like when the run goes on after it has
waited. -/
inductive Step.Ends {α : Type} (P : α → Prop) : Step α → Prop
  | done {a : α} {w : World} (h : P a) : Ends P (.done a w)
  | wait {what : Wait} {w : World} {resume : World → Step α} (h : ∀ w', Ends P (resume w')) :
      Ends P (.wait what w resume)
  | halt {why : Halt} : Ends P (.halt why)

namespace Step.Ends

variable {α β : Type} {P : α → Prop} {s : Step α}

theorem bind {Q : β → Prop} {f : α → World → Step β} (h : Ends P s)
    (hf : ∀ a, P a → ∀ w, Ends Q (f a w)) : Ends Q (s.bind f) := by
  induction h with
  | done h => exact hf _ h _
  | wait _ ih => exact .wait ih
  | halt => exact .halt

theorem mono {Q : α → Prop} (h : Ends P s) (hPQ : ∀ a, P a → Q a) : Ends Q s := by
  induction h with
  | done h => exact .done (hPQ _ h)
  | wait _ ih => exact .wait ih
  | halt => exact .halt

theorem of_forall (h : ∀ a, P a) (s : Step α) : Ends P s := by
  induction s with
  | done a w => exact .done (h a)
  | wait what w resume ih => exact .wait ih
  | halt why => exact .halt

end Step.Ends

/-- Every end of a computation has a property, whatever the world is like. -/
def Run.Ends {α : Type} (P : α → Prop) (x : Run α) : Prop := ∀ w, (x w).Ends P

theorem Run.Ends.mono {α : Type} {P Q : α → Prop} {x : Run α} (h : x.Ends P) (hPQ : ∀ a, P a → Q a) :
    x.Ends Q :=
  fun w => (h w).mono hPQ

theorem Run.Ends.map {α β : Type} {P : α → Prop} {Q : β → Prop} {x : Run α} {f : α → β} (h : x.Ends P)
    (hf : ∀ a, P a → Q (f a)) : Run.Ends Q (f <$> x) :=
  fun w => (h w).bind fun a ha _ => .done (hf a ha)

/-! ## Signals that may end a block -/

/-- **A signal that may end a block:** an exception always, a jump where it may stand. -/
def Scope.Allows (scope : Scope) : Signal → Prop
  | .raised _ => True
  | .exit _ => scope.function.isSome = true
  | .leave | .next => scope.inLoop = true

/-- **An execution that stays within a scope:** it has a result, or it ends by a signal that may end a
block there. -/
def Exec.Stays {α : Type} (scope : Scope) (x : Exec α) : Prop :=
  ∀ f : Frame, Run.Ends (fun r => ∀ s, r.1 = .error s → scope.Allows s) (x.run.run f)

namespace Exec.Stays

variable {α β : Type} {scope : Scope} {x : Exec α}

theorem pure (a : α) : Stays scope (Pure.pure a : Exec α) :=
  fun _ _ => .done fun _ h => by cases h

theorem throw {s : Signal} (hs : scope.Allows s) : Stays scope (throw s : Exec α) := by
  refine fun _ _ => .done fun _ h => ?_
  cases h
  exact hs

theorem bind {f : α → Exec β} (hx : Stays scope x) (hf : ∀ a, Stays scope (f a)) :
    Stays scope (x >>= f) := by
  refine fun frame w => (hx frame w).bind fun r hr w' => ?_
  obtain ⟨r, frame'⟩ := r
  cases r with
  | ok a => exact hf a frame' w'
  | error s => exact .done fun _ h => by cases h; exact hr s rfl

theorem sequential : Sequential Exec fun _ x => Stays scope x := ⟨pure, bind⟩

/-- Evaluations only raise. -/
theorem ofEval (x : Frame → Eval α) : Stays scope (Exec.ofEval x) := by
  refine fun f w => (Step.Ends.of_forall (fun _ => trivial) (x f w)).bind fun r _ _ => .done fun s h => ?_
  cases r with
  | ok a => cases h
  | error e =>
    cases h
    trivial

theorem ofOp (x : Op α) : Stays scope (Exec.ofOp x) := ofEval _

theorem raise (e : Raised) : Stays scope (Exec.raise e : Exec α) := throw trivial

theorem frame : Stays scope (getThe Frame : Exec Frame) := fun _ _ => .done fun _ h => by cases h

theorem modifyFrame (g : Frame → Frame) : Stays scope (modifyThe Frame g : Exec PUnit) :=
  fun _ _ => .done fun _ h => by cases h

theorem setFrame (f : Frame) : Stays scope (set f : Exec PUnit) := modifyFrame fun _ => f

/-- Observing how an execution ends, and going on from there. -/
theorem attempt_bind_run (x : Exec α) (f : Except Signal α → Exec β) (frame : Frame) (w : World) :
    (Exec.attempt x >>= f).run.run frame w =
      (x.run.run frame w).bind fun p w' => (f p.1).run.run p.2 w' :=
  Step.bind_assoc _ _ _

/-- **What is observed of an execution** is an end that its own scope allows. -/
theorem attempt {inner : Scope} {f : Except Signal α → Exec β} (hx : Stays inner x)
    (hf : ∀ r, (∀ s, r = .error s → inner.Allows s) → Stays scope (f r)) :
    Stays scope (Exec.attempt x >>= f) := by
  intro frame w
  rw [attempt_bind_run]
  exact (hx frame w).bind fun p hp w' => hf p.1 hp p.2 w'

theorem conclude {r : Except Signal Unit} (hr : ∀ s, r = .error s → scope.Allows s) :
    Stays scope (Exec.conclude r) := by
  cases r with
  | ok u => exact pure u
  | error s => exact throw (hr s rfl)

theorem mapM {f : α → Exec β} (h : ∀ a, Stays scope (f a)) (l : List α) : Stays scope (l.mapM f) :=
  sequential.mapM h l

theorem mapM_option {f : α → Exec β} (h : ∀ a, Stays scope (f a)) (o : Option α) :
    Stays scope (o.mapM f) :=
  sequential.mapM_option h o

theorem forM {f : α → Exec Unit} (h : ∀ a, Stays scope (f a)) (l : List α) : Stays scope (l.forM f) :=
  sequential.forM h l

theorem forM_option {f : α → Exec Unit} (h : ∀ a, Stays scope (f a)) (o : Option α) :
    Stays scope (o.forM f) :=
  sequential.forM_option h o

theorem bindName (name : String) (v : Value) : Stays scope (Lang.bindName name v) := by
  refine bind frame fun f => ?_
  split
  · exact setFrame _
  · exact ofOp _

theorem unbindName (name : String) : Stays scope (Lang.unbindName name) := by
  refine bind frame fun f => ?_
  split
  · split
    · exact setFrame _
    · exact ofOp _
  · exact ofOp _

/-- How the body of a source or of a function ends, whatever becomes of its frame. -/
theorem run' (h : Stays scope x) (f : Frame) :
    Run.Ends (fun r => ∀ s, r = .error s → scope.Allows s) (StateT.run' x f) :=
  Run.Ends.map (h f) fun _ hr => hr

end Exec.Stays

/-! ## Targets -/

section

variable {scope : Scope} (onAwait : Frame → Eval Unit)

theorem assign_stays (fuel : Nat) (target : Target) (v : Value) :
    (assign onAwait fuel target v).Stays scope := by
  induction fuel generalizing target v with
  | zero => exact .ofEval _
  | succ fuel ih =>
    cases target with
    | name n => exact .bindName n v
    | subscript e index => exact .bind (.ofEval _) fun _ => .bind (.ofEval _) fun _ => .ofOp _
    | tuple targets =>
      refine .bind (.ofOp _) fun items => .forM (fun pair => ?_) _
      exact ih pair.1 pair.2

theorem augment_stays (fuel : Nat) (target : Target) (op : BinaryOp) (value : Expr) :
    (augment onAwait fuel target op value).Stays scope := by
  cases fuel with
  | zero => exact .ofEval _
  | succ fuel =>
    cases target with
    | name n =>
      refine .bind (.ofEval _) fun _ => .bind (.ofEval _) fun _ => ?_
      exact .bind (.ofOp _) fun _ => .bindName n _
    | subscript e index =>
      refine .bind (.ofEval _) fun _ => .bind (.ofEval _) fun _ => .bind (.ofOp _) fun _ => ?_
      exact .bind (.ofEval _) fun _ => .bind (.ofOp _) fun _ => .ofOp _
    | tuple targets => exact .ofOp _

theorem delete_stays (fuel : Nat) (target : Target) : (delete onAwait fuel target).Stays scope := by
  induction fuel generalizing target with
  | zero => exact .ofEval _
  | succ fuel ih =>
    cases target with
    | name n => exact .unbindName n
    | subscript e index => exact .bind (.ofEval _) fun _ => .bind (.ofEval _) fun _ => .ofOp _
    | tuple targets => exact .forM ih targets

/-! ## Statements -/

/-- **Statements stay within their scope,** with so many steps to nest. -/
structure Contained (fuel : Nat) : Prop where
  execBlock : ∀ (scope : Scope) (body : List Stmt), blockProblem? scope body = none →
    (execBlock onAwait fuel body).Stays scope
  exec : ∀ (scope : Scope) (s : Stmt), s.scopeProblem? scope = none →
    (exec onAwait fuel s).Stays scope
  execLoop : ∀ (scope : Scope) (test : Expr) (body : List Stmt),
    blockProblem? { scope with inLoop := true } body = none →
      (execLoop onAwait fuel test body).Stays scope
  execEach : ∀ (scope : Scope) (target : Target) (body : List Stmt) (vs : List Value),
    blockProblem? { scope with inLoop := true } body = none →
      (execEach onAwait fuel target body vs).Stays scope
  handle : ∀ (scope : Scope) (e : Raised) (handlers : List Handler),
    handlersProblem? scope handlers = none → (handle onAwait fuel e handlers).Stays scope

end

namespace Contained

variable {onAwait : Frame → Eval Unit} {fuel : Nat} {scope : Scope}

/-- A loop takes the jumps for its own that belong to it, and passes on what else ends its body. -/
theorem loop_stays {x again : Exec Unit} (hx : x.Stays { scope with inLoop := true })
    (hagain : again.Stays scope) :
    Exec.Stays scope (do
      match ← Exec.attempt x with
      | .ok () | .error .next => again
      | .error .leave => return
      | ending => Exec.conclude ending) := by
  refine .attempt hx fun ending hending => ?_
  split
  · exact hagain
  · exact hagain
  · exact .pure ()
  · rename_i hok hnext hleave
    refine .conclude fun s hs => ?_
    have hallows := hending s hs
    cases s with
    | raised e => trivial
    | exit v => exact hallows
    | leave => exact absurd hs hleave
    | next => exact absurd hs hnext

theorem execLoop_stays (h : Contained onAwait fuel) (test : Expr) {body : List Stmt}
    (hbody : blockProblem? { scope with inLoop := true } body = none) :
    (Lang.execLoop onAwait (fuel + 1) test body).Stays scope := by
  refine .bind (.ofEval _) fun v => .bind (.ofOp _) fun w => ?_
  split
  · exact loop_stays (h.execBlock _ body hbody) (h.execLoop _ test body hbody)
  · exact .pure ()

theorem execEach_stays (h : Contained onAwait fuel) (target : Target) {body : List Stmt}
    (vs : List Value) (hbody : blockProblem? { scope with inLoop := true } body = none) :
    (Lang.execEach onAwait (fuel + 1) target body vs).Stays scope := by
  cases vs with
  | nil => exact .pure ()
  | cons v vs =>
    refine .bind (assign_stays onAwait fuel target v) fun _ => ?_
    exact loop_stays (h.execBlock _ body hbody) (h.execEach _ target body vs hbody)

/-- **Handlers:** the one that runs ends like its body, once its name is taken away. -/
theorem handle_stays (h : Contained onAwait fuel) (e : Raised) (handlers : List Handler)
    (hscope : handlersProblem? scope handlers = none) :
    (Lang.handle onAwait (fuel + 1) e handlers).Stays scope := by
  match handlers with
  | [] => exact .raise e
  | .mk kind name body :: rest =>
    rw [handlersProblem?, Option.or_eq_none_iff] at hscope
    obtain ⟨hbody, hrest⟩ := hscope
    have hruns (isMatch : Bool) : Exec.Stays scope (do
        if isMatch then
          name.forM fun n => do bindName n (← Exec.ofOp (Op.newException e))
          let previous := (← getThe Frame).handling
          modifyThe Frame fun f => { f with handling := some e }
          let ending ← Exec.attempt (Lang.execBlock onAwait fuel body)
          modifyThe Frame fun f => { f with handling := previous }
          name.forM fun n => discard (Exec.attempt (unbindName n))
          Exec.conclude ending
        else Lang.handle onAwait fuel e rest) := by
      split
      · refine .bind (.forM_option (fun n => ?_) _) fun _ => ?_
        · exact .bind (.ofOp _) fun v => .bindName n v
        refine .bind .frame fun f => .bind (.modifyFrame _) fun _ => ?_
        refine .attempt (h.execBlock scope body hbody) fun ending hending => ?_
        refine .bind (.modifyFrame _) fun _ => .bind (.forM_option (fun n => ?_) _) fun _ => ?_
        · have hunbind : (unbindName n).Stays scope := .unbindName n
          exact .attempt hunbind fun _ _ => .pure ()
        · exact .conclude hending
      · exact h.handle scope e rest hrest
    unfold Lang.handle
    dsimp only
    cases kind with
    | none => exact hruns true
    | some k => exact .bind (.ofEval _) fun v => .bind (.ofOp _) hruns

theorem execBlock_stays (h : Contained onAwait fuel) (body : List Stmt)
    (hscope : blockProblem? scope body = none) :
    (Lang.execBlock onAwait (fuel + 1) body).Stays scope := by
  match body with
  | [] => exact .pure ()
  | s :: ss =>
    rw [blockProblem?, Option.or_eq_none_iff] at hscope
    exact .bind (h.exec scope s hscope.1) fun _ => h.execBlock scope ss hscope.2

/-- **Guards:** the final block overrides how the others have ended, if it does not end by itself. -/
theorem guard_stays (h : Contained onAwait fuel) (line : Nat) (body : List Stmt)
    (handlers : List Handler) (final : List Stmt)
    (hscope : (Action.guard body handlers final).scopeProblem? scope line = none) :
    (Lang.exec onAwait (fuel + 1) (.mk line (.guard body handlers final))).Stays scope := by
  rw [Action.scopeProblem?, Option.or_eq_none_iff, Option.or_eq_none_iff] at hscope
  obtain ⟨hbody, hhandlers, hfinal⟩ := hscope
  have hconclude (ending : Except Signal Unit) (hending : ∀ s, ending = .error s → scope.Allows s) :
      Exec.Stays scope (do
        Lang.execBlock onAwait fuel final
        Exec.conclude ending) :=
    .bind (h.execBlock scope final hfinal) fun _ => .conclude hending
  refine .attempt (h.execBlock scope body hbody) fun ending hending => ?_
  split
  · exact .attempt (h.handle scope _ handlers hhandlers) hconclude
  · exact hconclude _ hending

theorem inLoop_of_eq_none {p : Nat × ScopeProblem}
    (h : (if scope.inLoop = true then none else some p) = none) : scope.inLoop = true := by
  split at h
  · assumption
  · cases h

/-- **Statements** end by signals that may end a block where they stand. -/
theorem exec_stays (h : Contained onAwait fuel) (s : Stmt) (hs : s.scopeProblem? scope = none) :
    (Lang.exec onAwait (fuel + 1) s).Stays scope := by
  obtain ⟨line, action⟩ := s
  have hscope := scopeProblem_action hs
  cases action with
  | eval e =>
    refine .bind (.ofEval _) fun v => .bind .frame fun f => ?_
    split
    · exact .ofOp _
    · exact .pure ()
  | assign targets value =>
    exact .bind (.ofEval _) fun v => .forM (fun target => assign_stays onAwait fuel target v) targets
  | augment target op value => exact augment_stays onAwait fuel target op value
  | load module newName => exact .bind (.ofOp _) fun v => .bindName _ v
  | raise e =>
    cases e with
    | none =>
      refine .bind .frame fun f => ?_
      split
      · exact .raise _
      · exact .ofOp _
    | some e => exact .bind (.ofEval _) fun v => .bind (.ofOp _) fun e => .raise e
  | pass => exact .pure ()
  | delete targets => exact .forM (delete_stays onAwait fuel) targets
  | assert test message =>
    refine .bind (.ofEval _) fun v => .bind (.ofOp _) fun w => ?_
    split
    · exact .pure ()
    · exact .bind (.mapM_option (fun _ => .ofEval _) message) fun message => .raise _
  | globals names => exact .bind (.ofEval _) fun _ => .modifyFrame _
  | exit value =>
    refine .bind (.mapM_option (fun _ => .ofEval _) value) fun v => .throw ?_
    rw [Action.scopeProblem?] at hscope
    cases hfunction : scope.function with
    | none => simp [hfunction] at hscope
    | some isAsync => exact congrArg Option.isSome hfunction
  | branch test yes no =>
    rw [Action.scopeProblem?, Option.or_eq_none_iff] at hscope
    refine .bind (.ofEval _) fun v => .bind (.ofOp _) fun w => ?_
    split
    · exact h.execBlock scope yes hscope.1
    · exact h.execBlock scope no hscope.2
  | loop test body =>
    rw [Action.scopeProblem?] at hscope
    exact h.execLoop scope test body hscope
  | each target items body =>
    rw [Action.scopeProblem?] at hscope
    exact .bind (.ofEval _) fun v => .bind (.ofOp _) fun vs => h.execEach scope target body vs hscope
  | guard body handlers final => exact h.guard_stays line body handlers final hscope
  | leave =>
    rw [Action.scopeProblem?] at hscope
    exact .throw (inLoop_of_eq_none hscope)
  | next =>
    rw [Action.scopeProblem?] at hscope
    exact .throw (inLoop_of_eq_none hscope)
  | define d =>
    refine .bind (.mapM (fun p => .mapM_option (fun _ => .ofEval _) _) _) fun defaults => ?_
    exact .bind .frame fun f => .bind (.ofOp _) fun v => .bindName _ v

end Contained

/-- **Statements stay within their scope,** however many steps may nest. -/
theorem contained (onAwait : Frame → Eval Unit) (fuel : Nat) : Contained onAwait fuel := by
  induction fuel with
  | zero =>
    exact ⟨fun _ _ _ => .ofEval _, fun _ _ _ => .ofEval _, fun _ _ _ _ => .ofEval _,
      fun _ _ _ _ _ => .ofEval _, fun _ _ _ _ => .ofEval _⟩
  | succ fuel ih =>
    exact {
      execBlock := fun _ => ih.execBlock_stays
      exec := fun _ => ih.exec_stays
      execLoop := fun _ test _ => ih.execLoop_stays test
      execEach := fun _ target _ vs => ih.execEach_stays target vs
      handle := fun _ => ih.handle_stays }

/-! ## Bodies -/

/-- **The body of a source** ends normally or by an exception. -/
theorem ends_of_module {body : List Stmt} (hbody : blockProblem? .module body = none)
    (onAwait : Frame → Eval Unit) (fuel : Nat) (f : Frame) :
    Run.Ends (fun r => r = .ok () ∨ ∃ e, r = .error (.raised e))
      (StateT.run' (execBlock onAwait fuel body) f) := by
  refine (((contained onAwait fuel).execBlock .module body hbody).run' f).mono fun r hr => ?_
  cases r with
  | ok u => exact .inl rfl
  | error s =>
    have hallows := hr s rfl
    cases s with
    | raised e => exact .inr ⟨e, rfl⟩
    | exit v => cases hallows
    | leave => cases hallows
    | next => cases hallows

/-- **The body of a function** ends normally, by an exception or by a `return`. -/
theorem ends_of_function {d : FunctionDef} (hd : d.scopeProblem? = none) (onAwait : Frame → Eval Unit)
    (fuel : Nat) (f : Frame) :
    Run.Ends (fun r => r = .ok () ∨ (∃ e, r = .error (.raised e)) ∨ ∃ v, r = .error (.exit v))
      (StateT.run' (execBlock onAwait fuel d.body) f) := by
  obtain ⟨name, params, body, isAsync⟩ := d
  rw [FunctionDef.scopeProblem?] at hd
  refine (((contained onAwait fuel).execBlock _ body hd).run' f).mono fun r hr => ?_
  cases r with
  | ok u => exact .inl rfl
  | error s =>
    have hallows := hr s rfl
    cases s with
    | raised e => exact .inr (.inl ⟨e, rfl⟩)
    | exit v => exact .inr (.inr ⟨v, rfl⟩)
    | leave => cases hallows
    | next => cases hallows

end Transcript.Lang
