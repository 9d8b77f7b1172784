import Mathlib.Data.List.Forall2
import Transcript.Lang.Interpreter
import Transcript.Proofs.Lang.Jump
import Transcript.Proofs.Lang.Keep

/-!
# Worlds as checked sources make them

A world is tidy if no statement is misplaced in a function or in a coroutine that has not begun, if every
function has a default for every parameter with one, and if the sources that wait to be begun are of a given
kind. A definition in a checked source makes such a function, a call of it such a coroutine, and nothing else
makes programs. So whatever part of a checked source runs in a tidy world, the world is tidy whenever the run
waits and when it ends. The proof is by induction on the steps that may nest. Such are the worlds that come
about when a host compiles and evaluates sources.

Results:
* `define_made`: the defaults that a definition computes fit its parameters.
* `functionAt_tidy`, `takePending_tidy`: what is found in a tidy world is tidy.
* `tidying`: the evaluator keeps worlds tidy, if the sources of the kind have been checked.
* `evaluate_comesAbout`: evaluating a compiled source leads to worlds that come about.
* `ComesAbout.tidy`, `World.ComesAbout.made`: they are tidy, and their functions are as definitions make them.
-/

namespace Transcript.Lang

/-! ## Definitions -/

/-- **A function as definitions make it:** it has a default for every parameter with one. -/
def Function.Made (f : Function) : Prop :=
  List.Forall₂ (fun p dflt => dflt.isSome = p.default.isSome) f.definition.params f.defaults

/-- **Every result of an execution** has a property. -/
def Exec.Yields {α : Type} (P : α → Prop) (x : Exec α) : Prop :=
  ∀ f : Frame, Run.Ends (fun r => ∀ a, r.1 = .ok a → P a) (x.run.run f)

namespace Exec.Yields

variable {α β : Type} {P : α → Prop} {Q : β → Prop} {x : Exec α}

theorem of_forall (h : ∀ a, P a) (x : Exec α) : Yields P x :=
  fun _ _ => .of_forall (fun _ a _ => h a) _

theorem pure {a : α} (h : P a) : Yields P (Pure.pure a : Exec α) := by
  refine fun _ _ => .done fun a' ha => ?_
  cases ha
  exact h

theorem bind {f : α → Exec β} (hx : Yields P x) (hf : ∀ a, P a → Yields Q (f a)) : Yields Q (x >>= f) := by
  refine fun frame w => (hx frame w).bind fun r hr w' => ?_
  obtain ⟨r, frame'⟩ := r
  cases r with
  | ok a => exact hf a (hr a rfl) frame' w'
  | error s => exact .done fun _ h => by cases h

theorem mono {R : α → Prop} (hx : Yields P x) (hPR : ∀ a, P a → R a) : Yields R x :=
  fun f => (hx f).mono fun _ hr a ha => hPR a (hr a ha)

theorem mapM {R : α → β → Prop} {f : α → Exec β} (h : ∀ a, Yields (R a) (f a)) (l : List α) :
    Yields (List.Forall₂ R l) (l.mapM f) := by
  induction l with
  | nil => exact pure .nil
  | cons a l ih =>
    rw [List.mapM_cons]
    exact bind (h a) fun b hb => bind ih fun bs hbs => pure (.cons hb hbs)

theorem mapM_option (f : α → Exec β) (o : Option α) :
    Yields (fun r => r.isSome = o.isSome) (o.mapM f) := by
  cases o with
  | none => exact pure rfl
  | some a =>
    rw [Option.mapM_some, map_eq_pure_bind]
    exact bind (of_forall (fun _ => trivial) (f a)) fun b _ => pure rfl

end Exec.Yields

/-- **Definitions make functions** with a default for every parameter that has one. -/
theorem define_made (watch : Watch) (fuel : Nat) (d : FunctionDef) :
    Exec.Yields (fun dflts => ∀ globals, (Function.mk d globals dflts).Made)
      (d.params.mapM fun (p : Param) => p.default.mapM fun e => Exec.ofEval (eval watch fuel · e)) :=
  .mono (.mapM (fun p : Param => .mapM_option _ p.default) d.params) fun _ hdflts _ => hdflts

/-- What is known of the end of a computation may be used when another goes on there. -/
theorem Step.Keeps.bind_ends {I : OfPrograms} {α β : Type} {P : α → Prop} {s : Step α} {f : α → World → Step β}
    (h : s.Keeps I) (hP : s.Ends P) (hf : ∀ a w, P a → I.Holds w → (f a w).Keeps I) : (s.bind f).Keeps I := by
  induction h with
  | done hw =>
    cases hP with
    | done ha => exact hf _ _ ha hw
  | wait hw _ ih =>
    cases hP with
    | wait hresume => exact .wait hw fun w' hw' => ih w' hw' (hresume w')
  | halt => exact .halt

/-- What is known of the results of an execution may be used in what comes after it. -/
theorem Exec.Keeps.bind_yields {I : OfPrograms} {α β : Type} {P : α → Prop} {x : Exec α} {f : α → Exec β}
    (h : Keeps I x) (hP : x.Yields P) (hf : ∀ a, P a → Keeps I (f a)) : Keeps I (x >>= f) := by
  refine fun frame w hw => (h frame w hw).bind_ends (hP frame w) fun r w' hr hw' => ?_
  obtain ⟨r, frame'⟩ := r
  cases r with
  | ok a => exact hf a (hr a rfl) frame' w' hw'
  | error s => exact .done hw'

/-! ## Tidy worlds -/

/-- **A function of a checked source:** no statement is misplaced, and its defaults fit its parameters. -/
structure Function.Tidy (g : Function) : Prop where
  /-- No statement is misplaced. -/
  scope : g.definition.scopeProblem? = none
  /-- The defaults fit the parameters. -/
  made : g.Made

/-- A computation that is tidy once it is started. Sources are of a given kind. -/
def Pending.Tidy (S : Code → Ref → Prop) : Pending → Prop
  | .call g _ => g.Tidy
  | .source code globals => S code globals
  | .sleep .. | .gather _ => True

/-- **A world as checked sources make it.** -/
structure World.Tidy (S : Code → Ref → Prop) (w : World) : Prop where
  /-- Its functions are tidy. -/
  functions : ∀ g ∈ w.functions, g.Tidy
  /-- Its coroutines are tidy. -/
  coroutines : ∀ c ∈ w.coroutines, ∀ p ∈ c.pending, p.Tidy S

variable {S : Code → Ref → Prop}

theorem World.tidy_empty : World.empty.Tidy S :=
  ⟨fun _ h => absurd h (Array.not_mem_empty _), fun _ h => absurd h (Array.not_mem_empty _)⟩

theorem World.Tidy.of_eq {w w' : World} (h : w.Tidy S) (hw : w'.programs = w.programs) : w'.Tidy S := by
  obtain ⟨hf, hc⟩ := Prod.mk.injEq .. ▸ hw
  exact ⟨hf ▸ h.functions, hc ▸ h.coroutines⟩

/-- **Whether a world is tidy:** this only programs decide. -/
def tidiness (S : Code → Ref → Prop) : OfPrograms := ⟨World.Tidy S, World.Tidy.of_eq⟩

/-! ## Operations -/

/-- **A function that is found** has no misplaced statement. -/
theorem World.Tidy.function {w : World} (h : w.Tidy S) (r : Ref) :
    ((w.functions[r]?).getD default).Tidy := by
  cases hr : w.functions[r]? with
  | none => exact ⟨rfl, .nil⟩
  | some g => exact h.functions g (Array.mem_of_getElem? hr)

/-- A computation in a coroutine has no misplaced statement. -/
theorem World.Tidy.pending {w : World} (h : w.Tidy S) {r : Ref} {c : Coroutine} {p : Pending}
    (hc : w.coroutines[r]? = some c) (hp : c.pending = some p) : p.Tidy S :=
  h.coroutines c (Array.mem_of_getElem? hc) p hp

theorem newFunction_tidy {g : Function} (hg : g.Tidy) : (newFunction g).Keeps (tidiness S) := by
  intro w a w' hw h
  cases h
  refine ⟨fun f hf => ?_, hw.coroutines⟩
  rcases Array.mem_push.mp hf with hf | rfl
  · exact hw.functions f hf
  · exact hg

theorem newCoroutine_tidy (name : String) {p : Pending} (hp : p.Tidy S) :
    (Op.newCoroutine name p).Keeps (tidiness S) := by
  intro w a w' hw h
  cases h
  refine ⟨hw.functions, fun c hc q hq => ?_⟩
  rcases Array.mem_push.mp hc with hc | rfl
  · exact hw.coroutines c hc q hq
  · cases hq
    exact hp

theorem functionAt_tidy {α : Type} (r : Ref) {f : Function → Eval α}
    (hf : ∀ g : Function, g.Tidy → (f g).Keeps (tidiness S)) :
    (Eval.ofOp (functionAt r) >>= f).Keeps (tidiness S) := by
  refine .bindOp fun w g w' hw h => ?_
  cases h
  exact ⟨hw, hf _ (World.Tidy.function hw r)⟩

theorem takePending_tidy {α : Type} (r : Ref) {f : Pending → Eval α}
    (hf : ∀ p : Pending, p.Tidy S → (f p).Keeps (tidiness S)) :
    (Eval.ofOp (takePending r) >>= f).Keeps (tidiness S) := by
  refine .bindOp fun w p w' hw h => ?_
  obtain ⟨c, hc, hp, rfl⟩ := takePending_eq_ok h
  refine ⟨⟨hw.functions, fun c' hc' q hq => ?_⟩, hf p (World.Tidy.pending hw hc hp)⟩
  rcases Array.mem_or_eq_of_mem_setIfInBounds hc' with hc' | rfl
  · exact hw.coroutines c' hc' q hq
  · cases hq

/-- **What comes with the language** makes no programs but those of pauses and gatherings. -/
theorem callBuiltin_tidy (b : Builtin) (a : Arguments) : (callBuiltin b a).Keeps (tidiness S) := by
  cases b
  case sleep =>
    refine .after (.of_onData (.ofExcept _)) fun _ => ?_
    split
    · exact newCoroutine_tidy _ trivial
    · exact .spares (.of_onData (.fail _))
  case gather => exact .after (.of_onData (.ofExcept _)) fun _ => newCoroutine_tidy _ trivial
  case createTask => exact .spares (.createTask a)
  all_goals exact .spares (.of_onData (callBuiltin_onData a (by rintro ⟨⟩) (by rintro ⟨⟩) (by rintro ⟨⟩)))

/-! ## Programs -/

/-- **The evaluator keeps worlds tidy,** with so many steps to nest. -/
structure Tidying (S : Code → Ref → Prop) (fuel : Nat) : Prop where
  eval : ∀ (f : Frame) (e : Expr), (eval plainly fuel f e).Keeps (tidiness S)
  evalChain : ∀ (f : Frame) (left : Value) (rest : List (CompareOp × Expr)),
    (evalChain plainly fuel f left rest).Keeps (tidiness S)
  call : ∀ (g : Value) (args : List Value) (named : List (String × Value)),
    (call plainly fuel g args named).Keeps (tidiness S)
  runFunction : ∀ (g : Function) (locals : Bindings Value), g.Tidy →
    (runFunction plainly fuel g locals).Keeps (tidiness S)
  runModule : ∀ (code : Code) (globals : Ref), blockProblem? .module code.body = none →
    (runModule plainly fuel code globals).Keeps (tidiness S)
  awaitValue : ∀ v : Value, (awaitValue plainly fuel v).Keeps (tidiness S)
  runCoroutine : ∀ r : Ref, (runCoroutine plainly fuel r).Keeps (tidiness S)
  execBlock : ∀ (scope : Scope) (body : List Stmt), blockProblem? scope body = none →
    (execBlock plainly fuel body).Keeps (tidiness S)
  exec : ∀ (scope : Scope) (s : Stmt), s.scopeProblem? scope = none →
    (exec plainly fuel s).Keeps (tidiness S)
  execLoop : ∀ (scope : Scope) (test : Expr) (body : List Stmt), blockProblem? scope body = none →
    (execLoop plainly fuel test body).Keeps (tidiness S)
  execEach : ∀ (scope : Scope) (target : Target) (body : List Stmt) (vs : List Value),
    blockProblem? scope body = none → (execEach plainly fuel target body vs).Keeps (tidiness S)
  handle : ∀ (scope : Scope) (e : Raised) (handlers : List Handler),
    handlersProblem? scope handlers = none → (handle plainly fuel e handlers).Keeps (tidiness S)
  assign : ∀ (target : Target) (v : Value), (assign plainly fuel target v).Keeps (tidiness S)
  augment : ∀ (target : Target) (op : BinaryOp) (value : Expr),
    (augment plainly fuel target op value).Keeps (tidiness S)
  delete : ∀ target : Target, (delete plainly fuel target).Keeps (tidiness S)

namespace Tidying

variable {fuel : Nat}

/-! ### Expressions -/

theorem eval_tidy (h : Tidying S fuel) (f : Frame) (e : Expr) :
    (Lang.eval plainly (fuel + 1) f e).Keeps (tidiness S) := by
  cases e with
  | constant c => exact .onData (constantValue_onData c)
  | name n => exact .onData (lookup_onData f n)
  | list items => exact .bind (.mapM (h.eval f) items) fun _ => .onData (.newList _)
  | tuple items => exact .bind (.mapM (h.eval f) items) fun _ => .onData (.newTuple _)
  | dict items =>
    refine .bind (.foldlM (fun entries item => ?_) [] items) fun _ => .onData (.newDict _)
    refine .bind (h.eval f item.1) fun k => .bind (h.eval f item.2) fun v => ?_
    exact .onData (putEntry_onData k v entries)
  | binary op l r =>
    refine .bind (h.eval f l) fun l => .bind (h.eval f r) fun r => ?_
    exact .onData (binary_onData op l r)
  | unary op e => exact .bind (h.eval f e) fun v => .onData (unary_onData op v)
  | logic op l r =>
    refine .bind (h.eval f l) fun v => .bind .world fun w => ?_
    split
    · exact .pure _
    · exact h.eval f r
  | compare e rest => exact .bind (h.eval f e) fun v => h.evalChain f v rest
  | call g args named =>
    refine .bind (h.eval f g) fun g => .bind (.mapM (h.eval f) args) fun args => ?_
    refine .bind (.mapM (fun arg => ?_) named) fun named => h.call g args named
    exact .bind (h.eval f arg.2) fun _ => .pure _
  | «attribute» e name => exact .bind (h.eval f e) fun v => .onData (attributeOf_onData v name)
  | subscript e index =>
    cases index with
    | slice lower upper =>
      refine .bind (h.eval f e) fun v => .bind (.mapM_option (h.eval f) lower) fun lower => ?_
      exact .bind (.mapM_option (h.eval f) upper) fun upper => .onData (slice_onData v _ _)
    | _ =>
      refine .bind (h.eval f e) fun v => .bind (h.eval f _) fun index => ?_
      exact .onData (itemAt_onData v index)
  | slice lower upper => exact .fail _
  | conditional test yes no =>
    refine .bind (h.eval f test) fun v => .bind .world fun w => ?_
    split
    · exact h.eval f yes
    · exact h.eval f no
  | await e => exact .bind (.pure ()) fun _ => .bind (h.eval f e) fun v => h.awaitValue v

theorem evalChain_tidy (h : Tidying S fuel) (f : Frame) (left : Value)
    (rest : List (CompareOp × Expr)) :
    (Lang.evalChain plainly (fuel + 1) f left rest).Keeps (tidiness S) := by
  cases rest with
  | nil => exact .pure _
  | cons operand rest =>
    obtain ⟨op, e⟩ := operand
    refine .bind (h.eval f e) fun right => ?_
    refine .bind (.onData (compareWith_onData op left right)) fun holds => ?_
    split
    · exact h.evalChain f right rest
    · exact .pure _

/-! ### Calls -/

/-- **Calls:** the function that is called is one of the world. -/
theorem call_tidy (h : Tidying S fuel) (g : Value) (args : List Value)
    (named : List (String × Value)) :
    (Lang.call plainly (fuel + 1) g args named).Keeps (tidiness S) := by
  cases g with
  | builtin b =>
    cases b with
    | run =>
      refine .bind (.onData ?_) fun coroutine => .bind .world fun w => ?_
      · exact .bind (Arguments.check_onData _ _ _ _) fun _ => coroutineOf_onData _
      · split
        · exact .fail _
        · exact runOnNewLoop_keeps h.runCoroutine fuel coroutine
    | _ => exact .ofOp (callBuiltin_tidy _ _)
  | method receiver m => exact .bind (.spares (.callMethod receiver m args named)) fun r => .ofEnding r
  | exceptionType k => exact .onData (makeException_onData k args named)
  | function r =>
    refine functionAt_tidy r fun g hg => .bind (.onData (.ofExcept _)) fun locals => ?_
    split
    · exact .ofOp (newCoroutine_tidy _ hg)
    · exact h.runFunction g locals hg
  | _ => exact .fail _

theorem resultOf_tidy (r : Except Signal Unit) : (resultOf r).Keeps (tidiness S) := by
  unfold resultOf
  split
  · exact .throw _
  · exact .pure _
  · exact .pure _

theorem runFunction_tidy (h : Tidying S fuel) (g : Function) (locals : Bindings Value)
    (hg : g.Tidy) : (Lang.runFunction plainly (fuel + 1) g locals).Keeps (tidiness S) := by
  obtain ⟨⟨name, params, body, isAsync⟩, globals, defaults⟩ := g
  have hbody := hg.scope
  rw [FunctionDef.scopeProblem?] at hbody
  exact .bind (.ofRun ((h.execBlock _ body hbody).run' _)) fun r => resultOf_tidy r

theorem runModule_tidy (h : Tidying S fuel) (code : Code) (globals : Ref)
    (hcode : blockProblem? .module code.body = none) :
    (Lang.runModule plainly (fuel + 1) code globals).Keeps (tidiness S) := by
  unfold Lang.runModule
  dsimp only
  split
  · exact h.eval _ _
  · refine .bind (.ofRun ((h.execBlock _ _ hcode).run' _)) fun r => ?_
    split
    · exact .throw _
    · exact .pure _

/-! ### Coroutines -/

theorem awaitValue_tidy (h : Tidying S fuel) (v : Value) :
    (Lang.awaitValue plainly (fuel + 1) v).Keeps (tidiness S) := by
  cases v with
  | coroutine r => exact h.runCoroutine r
  | task r => exact .awaitTask r
  | _ => exact .fail _

/-- **Coroutines:** what begins is a computation that was in one. -/
theorem runCoroutine_tidy (hS : ∀ code globals, S code globals → blockProblem? .module code.body = none)
    (h : Tidying S fuel) (r : Ref) :
    (Lang.runCoroutine plainly (fuel + 1) r).Keeps (tidiness S) := by
  refine takePending_tidy r fun p hp => ?_
  cases p with
  | call g locals => exact h.runFunction g locals hp
  | sleep delay result => exact .sleep delay result
  | gather items =>
    refine .bind (.ofRun (together_keeps fuel (List.forall_mem_map.mpr fun v _ => ?_))) fun outcomes => ?_
    · exact h.awaitValue v
    · exact .bind (.ofEnding _) fun _ => .onData (.newList _)
  | source code globals => exact h.runModule code globals (hS code globals hp)

/-! ### Targets -/

/-- An expression in a statement. -/
theorem ofEval (h : Tidying S fuel) (e : Expr) :
    (Exec.ofEval (Lang.eval plainly fuel · e)).Keeps (tidiness S) :=
  .ofEval fun f => h.eval f e

theorem assign_tidy (h : Tidying S fuel) (target : Target) (v : Value) :
    (Lang.assign plainly (fuel + 1) target v).Keeps (tidiness S) := by
  cases target with
  | name n => exact .bindName n v
  | subscript e index =>
    refine .bind (h.ofEval e) fun container => .bind (h.ofEval index) fun index => ?_
    exact .onData (setItem_onData container index v)
  | tuple targets =>
    refine .bind (.onData (unpacked_onData v _)) fun items => .forM (fun pair => ?_) _
    exact h.assign pair.1 pair.2

theorem augment_tidy (h : Tidying S fuel) (target : Target) (op : BinaryOp) (value : Expr) :
    (Lang.augment plainly (fuel + 1) target op value).Keeps (tidiness S) := by
  cases target with
  | name n =>
    refine .bind (.ofEval fun f => .onData (lookup_onData f n)) fun current => ?_
    refine .bind (h.ofEval value) fun operand => ?_
    exact .bind (.onData (augmented_onData op current operand)) fun v => .bindName n v
  | subscript e index =>
    refine .bind (h.ofEval e) fun container => .bind (h.ofEval index) fun index => ?_
    refine .bind (.onData (itemAt_onData container index)) fun current => ?_
    refine .bind (h.ofEval value) fun operand => ?_
    refine .bind (.onData (augmented_onData op current operand)) fun updated => ?_
    exact .onData (setItem_onData container index updated)
  | tuple items => exact .fail _

theorem delete_tidy (h : Tidying S fuel) (target : Target) :
    (Lang.delete plainly (fuel + 1) target).Keeps (tidiness S) := by
  cases target with
  | name n => exact .unbindName n
  | subscript e index =>
    refine .bind (h.ofEval e) fun container => .bind (h.ofEval index) fun index => ?_
    exact .onData (deleteItem_onData container index)
  | tuple targets => exact .forM h.delete targets

/-! ### Loops and handlers -/

theorem execLoop_tidy (h : Tidying S fuel) (scope : Scope) (test : Expr) (body : List Stmt)
    (hbody : blockProblem? scope body = none) :
    (Lang.execLoop plainly (fuel + 1) test body).Keeps (tidiness S) := by
  refine .bind (h.ofEval test) fun v => .bind .reading fun w => ?_
  split
  · refine .bind (.attempt (h.execBlock scope body hbody)) fun ending => ?_
    split
    · exact h.execLoop scope test body hbody
    · exact h.execLoop scope test body hbody
    · exact .pure ()
    · exact .conclude ending
  · exact .pure ()

theorem execEach_tidy (h : Tidying S fuel) (scope : Scope) (target : Target) (body : List Stmt)
    (vs : List Value) (hbody : blockProblem? scope body = none) :
    (Lang.execEach plainly (fuel + 1) target body vs).Keeps (tidiness S) := by
  cases vs with
  | nil => exact .pure ()
  | cons v vs =>
    refine .bind (h.assign target v) fun _ => ?_
    refine .bind (.attempt (h.execBlock scope body hbody)) fun ending => ?_
    split
    · exact h.execEach scope target body vs hbody
    · exact h.execEach scope target body vs hbody
    · exact .pure ()
    · exact .conclude ending

theorem handle_tidy (h : Tidying S fuel) (scope : Scope) (e : Raised) (handlers : List Handler)
    (hscope : handlersProblem? scope handlers = none) :
    (Lang.handle plainly (fuel + 1) e handlers).Keeps (tidiness S) := by
  match handlers with
  | [] => exact .raise e
  | .mk kind name body :: rest =>
    rw [handlersProblem?, Option.or_eq_none_iff] at hscope
    obtain ⟨hbody, hrest⟩ := hscope
    have hruns (isMatch : Bool) : Exec.Keeps (tidiness S) (do
        if isMatch then
          name.forM fun n => do bindName n (← Exec.ofOp (Op.newException e))
          let previous := (← getThe Frame).handling
          modifyThe Frame fun f => { f with handling := some e }
          let ending ← Exec.attempt (Lang.execBlock plainly fuel body)
          modifyThe Frame fun f => { f with handling := previous }
          name.forM fun n => discard (Exec.attempt (unbindName n))
          Exec.conclude ending
        else Lang.handle plainly fuel e rest) := by
      split
      · refine .bind (.forM_option (fun n => ?_) _) fun _ => ?_
        · exact .bind (.onData (.newException e)) fun v => .bindName n v
        refine .bind .frame fun f => .bind (.modifyFrame _) fun _ => ?_
        refine .bind (.attempt (h.execBlock scope body hbody)) fun ending => ?_
        refine .bind (.modifyFrame _) fun _ => .bind (.forM_option (fun n => ?_) _) fun _ => ?_
        · exact .bind (.attempt (.unbindName n)) fun _ => .pure ()
        · exact .conclude ending
      · exact h.handle scope e rest hrest
    unfold Lang.handle
    dsimp only
    cases kind with
    | none => exact hruns true
    | some k =>
      refine .bind (h.ofEval k) fun v => .bind (.onData (isCaughtBy_onData e v)) fun isMatch => ?_
      exact hruns isMatch

/-! ### Statements -/

theorem execBlock_tidy (h : Tidying S fuel) (scope : Scope) (body : List Stmt)
    (hscope : blockProblem? scope body = none) :
    (Lang.execBlock plainly (fuel + 1) body).Keeps (tidiness S) := by
  match body with
  | [] => exact .pure ()
  | s :: ss =>
    rw [blockProblem?, Option.or_eq_none_iff] at hscope
    exact .bind (h.exec scope s hscope.1) fun _ => h.execBlock scope ss hscope.2

/-- **Statements:** a definition makes a function whose body has been checked. -/
theorem exec_tidy (h : Tidying S fuel) (scope : Scope) (s : Stmt)
    (hs : s.scopeProblem? scope = none) : (Lang.exec plainly (fuel + 1) s).Keeps (tidiness S) := by
  obtain ⟨line, action⟩ := s
  have hscope := scopeProblem_action hs
  cases action with
  | eval e =>
    refine .bind (h.ofEval e) fun v => .bind .frame fun f => ?_
    split
    · exact .onData (.bind (showValue_onData v) fun _ => .modifying fun _ => rfl)
    · exact .pure ()
  | assign targets value =>
    exact .bind (h.ofEval value) fun v => .forM (fun target => h.assign target v) targets
  | augment target op value => exact h.augment target op value
  | load module newName => exact .bind (.onData (loadModule_onData module)) fun v => .bindName _ v
  | raise e =>
    cases e with
    | none =>
      refine .bind .frame fun f => ?_
      split
      · exact .raise _
      · exact .fail _
    | some e =>
      exact .bind (h.ofEval e) fun v => .bind (.onData (exceptionOf_onData v)) fun e => .raise e
  | pass => exact .pure ()
  | delete targets => exact .forM h.delete targets
  | assert test message =>
    refine .bind (h.ofEval test) fun v => .bind .reading fun w => ?_
    split
    · exact .pure ()
    · exact .bind (.mapM_option h.ofEval message) fun message => .raise _
  | globals names => exact .bind (.ofEval fun _ => .pure ()) fun _ => .modifyFrame _
  | exit value => exact .bind (.mapM_option h.ofEval value) fun v => .throw _
  | branch test yes no =>
    rw [Action.scopeProblem?, Option.or_eq_none_iff] at hscope
    refine .bind (h.ofEval test) fun v => .bind .reading fun w => ?_
    split
    · exact h.execBlock scope yes hscope.1
    · exact h.execBlock scope no hscope.2
  | loop test body =>
    rw [Action.scopeProblem?] at hscope
    exact h.execLoop _ test body hscope
  | each target items body =>
    rw [Action.scopeProblem?] at hscope
    refine .bind (h.ofEval items) fun v => ?_
    exact .bind (.onData (iterate_onData v)) fun vs => h.execEach _ target body vs hscope
  | guard body handlers final =>
    rw [Action.scopeProblem?, Option.or_eq_none_iff, Option.or_eq_none_iff] at hscope
    obtain ⟨hbody, hhandlers, hfinal⟩ := hscope
    have hconclude (ending : Except Signal Unit) : Exec.Keeps (tidiness S) (do
        Lang.execBlock plainly fuel final
        Exec.conclude ending) :=
      .bind (h.execBlock scope final hfinal) fun _ => .conclude ending
    refine .bind (.attempt (h.execBlock scope body hbody)) fun ending => ?_
    split
    · exact .bind (.attempt (h.handle scope _ handlers hhandlers)) hconclude
    · exact hconclude _
  | leave => exact .throw _
  | next => exact .throw _
  | define d =>
    rw [Action.scopeProblem?] at hscope
    have hdefaults : Exec.Keeps (tidiness S)
        (d.params.mapM fun (p : Param) => p.default.mapM fun e => Exec.ofEval (Lang.eval plainly fuel · e)) :=
      .mapM (fun p => .mapM_option h.ofEval _) _
    refine hdefaults.bind_yields (define_made plainly fuel d) fun defaults hmade => .bind .frame fun f => ?_
    exact .bind (.ofOp (newFunction_tidy ⟨hscope, hmade _⟩)) fun v => .bindName _ v

end Tidying

/-- **The evaluator keeps worlds tidy,** however many steps may nest. -/
theorem tidying (hS : ∀ code globals, S code globals → blockProblem? .module code.body = none) (fuel : Nat) :
    Tidying S fuel := by
  induction fuel with
  | zero =>
    exact ⟨fun _ _ => .endless, fun _ _ _ => .endless, fun _ _ _ => .endless, fun _ _ _ => .endless,
      fun _ _ _ => .endless, fun _ => .endless, fun _ => .endless, fun _ _ _ => .endless,
      fun _ _ _ => .endless, fun _ _ _ _ => .endless, fun _ _ _ _ _ => .endless,
      fun _ _ _ _ => .endless, fun _ _ => .endless, fun _ _ _ => .endless, fun _ => .endless⟩
  | succ fuel ih =>
    exact {
      eval := ih.eval_tidy
      evalChain := ih.evalChain_tidy
      call := ih.call_tidy
      runFunction := ih.runFunction_tidy
      runModule := ih.runModule_tidy
      awaitValue := ih.awaitValue_tidy
      runCoroutine := ih.runCoroutine_tidy hS
      execBlock := ih.execBlock_tidy
      exec := ih.exec_tidy
      execLoop := ih.execLoop_tidy
      execEach := ih.execEach_tidy
      handle := ih.handle_tidy
      assign := ih.assign_tidy
      augment := ih.augment_tidy
      delete := ih.delete_tidy }

/-! ## Worlds that come about

The worlds in which a compiled source runs, between any two of its steps, with whatever other sources a host has
run.
-/

/-- **What comes about** when a host compiles and evaluates sources: runs of them and of their parts,
begun when another such run has ended or waits, and going on then. The state between two runs is that of
a run that has ended. -/
inductive ComesAbout : ∀ {α : Type}, Step α → Prop
  /-- Nothing has happened. -/
  | empty : ComesAbout (.done () World.empty)
  /-- Something has changed, but no programs. -/
  | other {w w' : World} (h : ComesAbout (.done () w)) (hw : w'.programs = w.programs) :
      ComesAbout (.done () w')
  /-- A run has ended. -/
  | ended {α : Type} {a : α} {w : World} (h : ComesAbout (.done a w)) : ComesAbout (.done () w)
  /-- A run waits. -/
  | waiting {α : Type} {what : Wait} {w : World} {resume : World → Step α}
      (h : ComesAbout (.wait what w resume)) : ComesAbout (.done () w)
  /-- A run goes on. -/
  | resumed {α : Type} {what : Wait} {w w' : World} {resume : World → Step α}
      (h : ComesAbout (.wait what w resume)) (h' : ComesAbout (.done () w')) : ComesAbout (resume w')
  /-- A compiled source becomes a coroutine. -/
  | suspended {w : World} {source : List Char} {filename : String} {mode : Mode} {topLevelAwait : Bool}
      {code : Code} (h : ComesAbout (.done () w))
      (hcode : compile source filename mode topLevelAwait = .ok code) (name : String) (globals : Ref) :
      ComesAbout (Eval.ofOp (Op.newCoroutine name (.source code globals)) w)
  /-- A compiled source begins. -/
  | source {w : World} {source : List Char} {filename : String} {mode : Mode} {topLevelAwait : Bool}
      {code : Code} (h : ComesAbout (.done () w))
      (hcode : compile source filename mode topLevelAwait = .ok code) (fuel : Nat) (globals : Ref) :
      ComesAbout (runModule plainly fuel code globals w)
  /-- A block begins in which no statement is misplaced. -/
  | block {w : World} {scope : Scope} {body : List Stmt} (h : ComesAbout (.done () w))
      (hbody : blockProblem? scope body = none) (fuel : Nat) (f : Frame) :
      ComesAbout ((execBlock plainly fuel body).run.run f w)
  /-- An expression begins. -/
  | expression {w : World} (h : ComesAbout (.done () w)) (fuel : Nat) (f : Frame) (e : Expr) :
      ComesAbout (eval plainly fuel f e w)
  /-- A call begins. -/
  | call {w : World} (h : ComesAbout (.done () w)) (fuel : Nat) (g : Value) (args : List Value)
      (named : List (String × Value)) : ComesAbout (call plainly fuel g args named w)
  /-- An await begins. -/
  | await {w : World} (h : ComesAbout (.done () w)) (fuel : Nat) (v : Value) :
      ComesAbout (awaitValue plainly fuel v w)
  /-- A coroutine begins. -/
  | coroutine {w : World} (h : ComesAbout (.done () w)) (fuel : Nat) (r : Ref) :
      ComesAbout (runCoroutine plainly fuel r w)

/-- **A world that comes about.** -/
abbrev World.ComesAbout (w : World) : Prop := Lang.ComesAbout (.done () w)

/-! ### What a host does -/

/-- Coming about is a matter of programs. -/
def comingAbout : OfPrograms := ⟨World.ComesAbout, .other⟩

theorem ComesAbout.keeps {α : Type} {s : Step α} (h : ComesAbout s) : s.Keeps comingAbout := by
  induction s with
  | done a w => exact .done h.ended
  | wait what w resume ih => exact .wait h.waiting fun w' hw' => ih w' (h.resumed hw')
  | halt why => exact .halt

theorem Host.keeps_of_ofEval {I : OfPrograms} {α : Type} {x : Eval α} {w w' : World} {o : Except Exc α}
    (h : Step.Keeps I (x w)) (ho : Host.ofEval x w = some (o, w')) : I.Holds w' := by
  unfold Host.ofEval at ho
  generalize x w = s at h ho
  cases h with
  | done hw' =>
    cases ho
    exact hw'
  | wait hw' _ =>
    cases ho
    exact I.of_eq hw' rfl
  | halt => cases ho

/-- **Evaluating a compiled source** leads to a world that comes about. -/
theorem evaluate_comesAbout {source : List Char} {filename : String} {mode : Mode} {topLevelAwait : Bool}
    {code : Code} (hcode : compile source filename mode topLevelAwait = .ok code) {globals : Ref}
    {w w' : World} {o : Outcome} (hw : w.ComesAbout) (ho : evaluate code globals w = some (o, w')) :
    w'.ComesAbout := by
  unfold evaluate at ho
  split at ho
  · exact Host.keeps_of_ofEval (hw.suspended hcode _ globals).keeps ho
  · exact Host.keeps_of_ofEval (hw.source hcode horizon globals).keeps ho

/-! ### Programs that come about -/

/-- Compiled sources have no misplaced statement. -/
theorem compile_scope {source : List Char} {filename : String} {mode : Mode} {topLevelAwait : Bool}
    {code : Code} (h : compile source filename mode topLevelAwait = .ok code) :
    blockProblem? .module code.body = none := by
  unfold compile at h
  obtain ⟨body, -, h⟩ := Except.bind_eq_ok.mp h
  obtain ⟨⟨⟩, -, h⟩ := Except.bind_eq_ok.mp h
  split at h
  · cases h
  · rename_i hscope
    dsimp only at h
    split at h
    · cases h
    · cases h
      exact hscope

/-- A source that has been checked. -/
def Checked (code : Code) (_ : Ref) : Prop := blockProblem? .module code.body = none

/-- What comes about begins in a tidy world and keeps worlds tidy. -/
theorem ComesAbout.tidy {α : Type} {s : Step α} (h : ComesAbout s) : s.Keeps (tidiness Checked) := by
  have tidying (fuel : Nat) : Tidying Checked fuel := tidying (fun _ _ => id) fuel
  induction h with
  | empty => exact .done World.tidy_empty
  | other _ hw ih => exact .done ((tidiness Checked).of_eq ih.holds hw)
  | ended _ ih => exact .done ih.holds
  | waiting _ ih => exact .done ih.holds_of_wait
  | resumed _ _ ih ih' => exact ih.resume _ ih'.holds
  | suspended _ hcode name globals ih =>
    have hp : (Pending.source _ globals).Tidy Checked := compile_scope hcode
    exact Eval.Keeps.ofOp (newCoroutine_tidy name hp) _ ih.holds
  | source _ hcode fuel globals ih =>
    exact (tidying fuel).runModule _ globals (compile_scope hcode) _ ih.holds
  | block _ hbody fuel f ih => exact (tidying fuel).execBlock _ _ hbody f _ ih.holds
  | expression _ fuel f e ih => exact (tidying fuel).eval f e _ ih.holds
  | call _ fuel g args named ih => exact (tidying fuel).call g args named _ ih.holds
  | await _ fuel v ih => exact (tidying fuel).awaitValue v _ ih.holds
  | coroutine _ fuel r ih => exact (tidying fuel).runCoroutine r _ ih.holds

/-- **Functions that come about** have a default for every parameter with one. -/
theorem World.ComesAbout.made {w : World} (h : w.ComesAbout) {r : Ref} {f : Function}
    (hr : w.functions[r]? = some f) : f.Made :=
  (h.tidy.holds.functions f (Array.mem_of_getElem? hr)).made

end Transcript.Lang
