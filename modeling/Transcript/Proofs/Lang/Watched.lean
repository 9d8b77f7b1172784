import Transcript.Proofs.Lang.Keep

/-!
# Computations under a watch for declared names

A name of a namespace is bound to something else only by a statement at the top level of the module, or by
one in a function body that has declared the name to mean the one of the module. So a computation in
a frame that leaves the name alone is compared with itself under a watch that stops it at the first such
declaration: it is stopped, or it does the same and keeps the binding from one wait to the next. Sources
that await at their top level are begun as coroutines; where none over the namespace waits to be begun,
coroutines leave the name alone, too.

Results:
* `Step.Heeds.bind`: computations that heed the watch can be put together.
* `Exec.Heeds.bindName`, `Exec.Heeds.unbindName`: in such a frame other names are bound and unbound.
* `Op.KeepsBinding.callBuiltin`, `Op.KeepsBinding.callMethod`: what comes with the language binds no names.
* `drive_heeds`, `closeLoop_heeds`: event loops.
* `runOnNewLoop_heeds`: a loop of its own heeds the watch if its coroutines do.
-/

namespace Transcript.Lang

/-! ## Bindings -/

/-- **What a name is bound to** in a namespace. -/
def World.binding (w : World) (ns : Ref) (n : String) : Option Value := (w.space ns).get? n

/-- Whether a computation that has not begun is a source over a namespace. -/
def Pending.isSourceOver (ns : Ref) : Pending → Bool
  | .source _ globals => globals == ns
  | _ => false

/-- **No source over a namespace waits to be begun.** A source that awaits at its top level is a coroutine
until then. -/
def World.Sourceless (ns : Ref) (w : World) : Prop :=
  ∀ c ∈ w.coroutines, ∀ p ∈ c.pending, p.isSourceOver ns = false

/-- **A watch for declarations** of a name as one of a module: it stops the program there. -/
def stopsAtGlobal (ns : Ref) (n : String) : Watch where
  onAwait _ := pure ()
  onGlobals f names := if f.globals = ns ∧ n ∈ names then Eval.stop else pure ()

/-- A name is bound so, and no source over its namespace waits to be begun. -/
structure World.Binds (ns : Ref) (n : String) (b : Option Value) (w : World) : Prop where
  /-- The name is bound so. -/
  binding : w.binding ns n = b
  /-- No source waits to be begun. -/
  sourceless : w.Sourceless ns

/-- **A frame that leaves a name alone:** one over another namespace, or one of a function body in which the
name is not declared to mean the one of the module. -/
def Frame.Spares (ns : Ref) (n : String) (f : Frame) : Prop :=
  f.globals = ns → f.locals.isSome = true ∧ n ∉ f.declared

variable {ns : Ref} {n : String}

namespace World.Binds

variable {b : Option Value} {w w' : World}

/-- Only namespaces and coroutines count. -/
theorem of_eq (h : w.Binds ns n b) (hs : w'.spaces = w.spaces) (hc : w'.coroutines = w.coroutines) :
    w'.Binds ns n b := by
  refine ⟨?_, fun c hmem => h.sourceless c (hc ▸ hmem)⟩
  rw [← h.binding]
  unfold World.binding World.space
  rw [hs]

theorem of_dataDiffers (h : w.Binds ns n b) (hd : w.DataDiffers w') : w'.Binds ns n b := by
  rw [hd]
  exact h.of_eq rfl rfl

/-- Event loops bind no names. -/
theorem of_withoutLoops (h : w.Binds ns n b) (hw : w'.withoutLoops = w.withoutLoops) :
    w'.Binds ns n b :=
  h.of_eq (congrArg World.spaces hw :) (congrArg World.coroutines hw :)

/-- Another name is bound or unbound, or a name of another namespace. -/
theorem setSpace (h : w.Binds ns n b) {r : Ref} {c : Bindings Value}
    (hc : r = ns → c.get? n = (w.space r).get? n) : (w.setSpace r c).Binds ns n b := by
  refine ⟨?_, h.sourceless⟩
  rw [← h.binding]
  unfold World.binding
  by_cases hr : r = ns
  · subst hr
    by_cases hlt : r < w.spaces.size
    · rw [w.space_setSpace_self r c hlt, hc rfl]
    · unfold World.setSpace
      rw [Array.setIfInBounds_eq_of_size_le (Nat.le_of_not_lt hlt)]
  · rw [w.space_setSpace_of_ne c hr]

end World.Binds

/-! ## Operations that bind no names -/

/-- An operation that keeps the binding in a world. -/
def Op.KeepsBindingAt (ns : Ref) (n : String) {α : Type} (w : World) (x : Op α) : Prop :=
  ∀ b a w', w.Binds ns n b → x w = .ok (a, w') → w'.Binds ns n b

/-- **An operation that keeps the binding.** -/
def Op.KeepsBinding (ns : Ref) (n : String) {α : Type} (x : Op α) : Prop :=
  ∀ w, x.KeepsBindingAt ns n w

namespace Op.KeepsBinding

variable {α β : Type}

theorem of_onData {x : Op α} (h : x.OnData) : KeepsBinding ns n x :=
  fun _ _ _ _ hw hx => hw.of_dataDiffers (h.dataDiffers hx)

theorem bind {x : Op α} {f : α → Op β} (hx : KeepsBinding ns n x) (hf : ∀ a, KeepsBinding ns n (f a)) :
    KeepsBinding ns n (x >>= f) := by
  intro w b c w'' hw h
  obtain ⟨⟨a, w'⟩, hxa, hfa⟩ := Except.bind_eq_ok.mp h
  exact hf a w' b c w'' (hx w b a w' hw hxa) hfa

theorem pure (a : α) : KeepsBinding ns n (Pure.pure a : Op α) := of_onData (.pure a)

theorem fail (p : Problem) : KeepsBinding ns n (Op.fail p : Op α) := of_onData (.fail p)

theorem reading {f : World → Op α} (hf : ∀ w, (f w).KeepsBindingAt ns n w) :
    KeepsBinding ns n (get >>= f) :=
  hf

theorem modifying {f : World → World} (hf : ∀ w, (f w).withoutLoops = w.withoutLoops) :
    KeepsBinding ns n (modify f : Op Unit) := by
  intro w b a w' hw h
  cases h
  exact hw.of_withoutLoops (hf w)

theorem newFunction (g : Function) : KeepsBinding ns n (Lang.newFunction g) := by
  intro w b a w' hw h
  cases h
  exact hw.of_eq rfl rfl

/-- A new coroutine that is no source over the namespace. -/
theorem newCoroutine (name : String) {p : Pending} (hp : p.isSourceOver ns = false) :
    KeepsBinding ns n (Op.newCoroutine name p) := by
  intro w b a w' hw h
  cases h
  refine ⟨hw.binding, fun c hc q hq => ?_⟩
  rcases Array.mem_push.mp hc with hc | rfl
  · exact hw.sourceless c hc q hq
  · cases hq
    exact hp

theorem functionAt (r : Ref) : KeepsBinding ns n (Lang.functionAt r) :=
  reading fun w => pure _ w

theorem createTask (a : Arguments) : KeepsBinding ns n (Lang.createTask a) := by
  refine bind (of_onData (a.check_onData _ _ _)) fun _ => bind (of_onData (coroutineOf_onData _)) fun _ => ?_
  refine bind (of_onData (.mapM_option readText_onData _)) fun _ => reading fun w => ?_
  dsimp only
  split
  · exact fail _ w
  · intro b a w' hw h
    cases h
    exact hw.of_withoutLoops (World.withoutLoops_spawn _ _ _ _)

theorem callTask (r : Ref) (m : Method) (a : Arguments) : KeepsBinding ns n (Lang.callTask r m a) := by
  by_cases hm : m = .cancel
  · subst hm
    refine bind (of_onData (.ofExcept _)) fun _ => reading fun w => ?_
    dsimp only
    split
    · exact bind (modifying fun w => w.withoutLoops_cancelTask r) (fun _ => pure _) w
    · exact pure _ w
  · exact of_onData (callTask_onData r a hm)

/-- **Functions** that come with the language bind no names. -/
theorem callBuiltin (b : Builtin) (a : Arguments) : KeepsBinding ns n (Lang.callBuiltin b a) := by
  cases b
  case sleep =>
    refine bind (of_onData (.ofExcept _)) fun _ => ?_
    split
    · exact newCoroutine _ rfl
    · exact fail _
  case gather => exact bind (of_onData (.ofExcept _)) fun _ => newCoroutine _ rfl
  case createTask => exact createTask a
  all_goals exact of_onData (callBuiltin_onData a (by rintro ⟨⟩) (by rintro ⟨⟩) (by rintro ⟨⟩))

/-- **Methods** bind no names. -/
theorem callMethod (receiver : Value) (m : Method) (args : List Value)
    (named : List (String × Value)) : KeepsBinding ns n (Lang.callMethod receiver m args named) := by
  cases receiver
  case task r => exact bind (of_onData (.ofExcept _)) fun _ => callTask r m _
  all_goals exact of_onData (callMethod_onData (by rintro _ ⟨⟩) m args named)

end Op.KeepsBinding

/-- What a coroutine does when it is begun is no source over the namespace. -/
theorem takePending_binds {r : Ref} {b : Option Value} {w w' : World} {p : Pending} (hw : w.Binds ns n b)
    (h : takePending r w = .ok (p, w')) : w'.Binds ns n b ∧ p.isSourceOver ns = false := by
  obtain ⟨c, hc, hp, rfl⟩ := takePending_eq_ok h
  refine ⟨⟨hw.binding, fun c' hc' q hq => ?_⟩, hw.sourceless c (Array.mem_of_getElem? hc) p hp⟩
  rcases Array.mem_or_eq_of_mem_setIfInBounds hc' with hc' | rfl
  · exact hw.sourceless c' hc' q hq
  · cases hq

/-! ## Steps -/

/-- **A step and the same under the watch:** it is stopped there, or it does the same and the binding is
kept until it has a result or waits. Then it goes on with whatever the name is bound to. -/
inductive Step.Heeds (ns : Ref) (n : String) {α : Type} (post : α → Prop) :
    Option Value → Step α → Step α → Prop
  | done {b : Option Value} {a : α} {w : World} (hw : w.Binds ns n b) (ha : post a) :
      Heeds ns n post b (.done a w) (.done a w)
  | wait {b : Option Value} {what : Wait} {w : World} {resume resume' : World → Step α}
      (hw : w.Binds ns n b)
      (h : ∀ b' w', w'.Binds ns n b' → Heeds ns n post b' (resume w') (resume' w')) :
      Heeds ns n post b (.wait what w resume) (.wait what w resume')
  | halt {b : Option Value} {why : Halt} : Heeds ns n post b (.halt why) (.halt why)
  | stopped {b : Option Value} {s : Step α} : Heeds ns n post b s (.halt .stopped)

variable {α β : Type} {post : α → Prop}

theorem Step.Heeds.bind {b : Option Value} {s s' : Step α} {f f' : α → World → Step β}
    {post' : β → Prop} (h : Heeds ns n post b s s')
    (hf : ∀ a, post a → ∀ b w, w.Binds ns n b → Heeds ns n post' b (f a w) (f' a w)) :
    Heeds ns n post' b (s.bind f) (s'.bind f') := by
  induction h with
  | done hw ha => exact hf _ ha _ _ hw
  | wait hw _ ih => exact .wait hw ih
  | halt => exact .halt
  | stopped => exact .stopped

/-- Computations that heed the watch, whatever the name is bound to when they begin. -/
def Run.Heeds (ns : Ref) (n : String) (post : α → Prop) (x y : Run α) : Prop :=
  ∀ b w, w.Binds ns n b → (x w).Heeds ns n post b (y w)

namespace Run.Heeds

variable {x y : Run α}

theorem pure {a : α} (h : post a) : Heeds ns n post (Pure.pure a) (Pure.pure a) := fun _ _ hw => .done hw h

theorem bind {f g : α → Run β} {post' : β → Prop} (h : Heeds ns n post x y)
    (hf : ∀ a, post a → Heeds ns n post' (f a) (g a)) : Heeds ns n post' (x >>= f) (y >>= g) :=
  fun b w hw => (h b w hw).bind hf

theorem map {f : α → β} {post' : β → Prop} (h : Heeds ns n post x y) (hf : ∀ a, post a → post' (f a)) :
    Heeds ns n post' (f <$> x) (f <$> y) :=
  h.bind fun a ha => pure (hf a ha)

theorem halt (why : Halt) : Heeds ns n post (Run.halt why) (Run.halt why) := fun _ _ _ => .halt

theorem world : Heeds ns n (fun _ => True) Run.world Run.world := fun _ _ hw => .done hw trivial

theorem modify {f : World → World} (hf : ∀ w, (f w).withoutLoops = w.withoutLoops) :
    Heeds ns n (fun _ => True) (Run.modify f) (Run.modify f) :=
  fun _ w hw => .done (hw.of_withoutLoops (hf w)) trivial

theorem wait (what : Wait) : Heeds ns n (fun _ => True) (Run.wait what) (Run.wait what) :=
  fun _ _ hw => .wait hw fun _ _ hw' => .done hw' trivial

end Run.Heeds

/-! ## Evaluations -/

/-- Evaluations that heed the watch. -/
def Eval.Heeds (ns : Ref) (n : String) (x y : Eval α) : Prop :=
  Run.Heeds ns n (fun _ => True) x.run y.run

namespace Eval.Heeds

variable {x y : Eval α}

theorem pure (a : α) : Heeds ns n (Pure.pure a) (Pure.pure a) := Run.Heeds.pure trivial

theorem throw (e : Raised) : Heeds ns n (throw e : Eval α) (throw e) := Run.Heeds.pure trivial

theorem bind {f g : α → Eval β} (h : Heeds ns n x y) (hf : ∀ a, Heeds ns n (f a) (g a)) :
    Heeds ns n (x >>= f) (y >>= g) := by
  refine Run.Heeds.bind h fun r _ => ?_
  cases r with
  | ok a => exact hf a
  | error e => exact Run.Heeds.pure trivial

theorem endless : Heeds ns n (Eval.endless : Eval α) Eval.endless := Run.Heeds.halt _

theorem ofRun {x y : Run α} (h : Run.Heeds ns n (fun _ => True) x y) :
    Heeds ns n (Eval.ofRun x) (Eval.ofRun y) :=
  h.map fun _ _ => trivial

/-- An operation that keeps the binding, with what is known of its result. -/
theorem bindOp {x : Op α} {f g : α → Eval β}
    (h : ∀ b w a w', w.Binds ns n b → x w = .ok (a, w') → w'.Binds ns n b ∧ Heeds ns n (f a) (g a)) :
    Heeds ns n (Eval.ofOp x >>= f) (Eval.ofOp x >>= g) := by
  intro b w hw
  change Step.Heeds ns n _ b (Step.bind (Eval.ofOp x w) _) (Step.bind (Eval.ofOp x w) _)
  unfold Eval.ofOp
  dsimp only [ExceptT.mk]
  split
  · rename_i a w' hx
    obtain ⟨hw', hf⟩ := h b w a w' hw hx
    exact hf b w' hw'
  · exact .halt
  · exact .done (hw.of_eq rfl rfl) trivial

theorem ofOp {x : Op α} (h : x.KeepsBinding ns n) : Heeds ns n (Eval.ofOp x) (Eval.ofOp x) := by
  have hx : Heeds ns n (Eval.ofOp x >>= Pure.pure) (Eval.ofOp x >>= Pure.pure) :=
    bindOp fun b w a w' hw ha => ⟨h w b a w' hw ha, pure a⟩
  rwa [bind_pure] at hx

theorem onData {x : Op α} (h : x.OnData) : Heeds ns n (Eval.ofOp x) (Eval.ofOp x) := ofOp (.of_onData h)

theorem fail (p : Problem) : Heeds ns n (Eval.fail p : Eval α) (Eval.fail p) := ofOp (.fail p)

theorem world : Heeds ns n Eval.world Eval.world := ofRun .world

theorem modify {f : World → World} (hf : ∀ w, (f w).withoutLoops = w.withoutLoops) :
    Heeds ns n (Eval.modify f) (Eval.modify f) :=
  ofRun (.modify hf)

theorem wait (what : Wait) : Heeds ns n (Eval.ofRun (Run.wait what)) (Eval.ofRun (Run.wait what)) :=
  ofRun (.wait what)

theorem ofEnding (e : Except Raised α) : Heeds ns n (Eval.ofEnding e) (Eval.ofEnding e) :=
  Run.Heeds.pure trivial

theorem mapM {f g : α → Eval β} (h : ∀ a, Heeds ns n (f a) (g a)) (l : List α) :
    Heeds ns n (l.mapM f) (l.mapM g) := by
  induction l with
  | nil => exact pure _
  | cons a as ih =>
    rw [List.mapM_cons, List.mapM_cons]
    exact bind (h a) fun _ => bind ih fun _ => pure _

theorem mapM_option {f g : α → Eval β} (h : ∀ a, Heeds ns n (f a) (g a)) (o : Option α) :
    Heeds ns n (o.mapM f) (o.mapM g) := by
  cases o with
  | none => exact pure _
  | some a => exact bind (h a) fun _ => pure _

theorem foldlM {f g : β → α → Eval β} (h : ∀ b a, Heeds ns n (f b a) (g b a)) (b : β) (l : List α) :
    Heeds ns n (l.foldlM f b) (l.foldlM g b) := by
  induction l generalizing b with
  | nil => exact pure _
  | cons a as ih =>
    rw [List.foldlM_cons, List.foldlM_cons]
    exact bind (h b a) ih

/-- Awaiting a task changes tasks only. -/
theorem awaitTask (r : Ref) : Heeds ns n (Lang.awaitTask r) (Lang.awaitTask r) := by
  refine bind world fun w => ?_
  dsimp only
  split
  · exact ofEnding _
  · split
    · exact fail _
    · refine bind (modify fun w => w.withoutLoops_setTask r _) fun _ => ?_
      split
      · refine bind (modify fun w => w.withoutLoops_awaitedBy r) fun _ => bind (wait _) fun _ => ?_
        exact bind world fun _ => bind (modify fun w => w.withoutLoops_setTask r _) fun _ => ofEnding _
      · exact bind world fun _ => bind (modify fun w => w.withoutLoops_setTask r _) fun _ => ofEnding _

/-- Sleeping changes event loops only. -/
theorem sleep (delay : Float) (result : Value) :
    Heeds ns n (Lang.sleep delay result) (Lang.sleep delay result) := by
  refine bind world fun w => ?_
  dsimp only
  split
  · exact fail _
  · split
    · exact fail _
    · split
      · exact bind (modify fun w => w.withoutLoops_sleeps _) fun _ => bind (wait _) fun _ => pure _
      · exact bind (modify fun w => w.withoutLoops_yields) fun _ => bind (wait _) fun _ => pure _

end Eval.Heeds

/-! ## Executions -/

/-- **Executions that heed the watch** in every frame that leaves the name alone. The frame stays of this
sort. -/
def Exec.Heeds (ns : Ref) (n : String) (x y : Exec α) : Prop :=
  ∀ f : Frame, f.Spares ns n → Run.Heeds ns n (fun r => r.2.Spares ns n) (x.run.run f) (y.run.run f)

namespace Frame.Spares

/-- A function body starts in such a frame. -/
theorem ofFunction (globals : Ref) (locals : Bindings Value) (mayAwait : Bool) :
    (Frame.ofFunction globals locals mayAwait).Spares ns n :=
  fun _ => ⟨rfl, List.not_mem_nil⟩

/-- A source over another namespace starts in such a frame. -/
theorem ofModule {globals : Ref} (h : globals ≠ ns) (echo mayAwait : Bool) :
    (Frame.ofModule globals echo mayAwait).Spares ns n :=
  fun hglobals => absurd hglobals h

/-- What means no name of the function body is not the name of the namespace. -/
theorem ne {f : Frame} (h : f.Spares ns n) {name : String}
    (hglobal : ∀ locals, f.locals = some locals → f.isLocal name = true → False) (hns : f.globals = ns) :
    name ≠ n := by
  rintro rfl
  obtain ⟨hlocals, hundeclared⟩ := h hns
  obtain ⟨locals, hsome⟩ := Option.isSome_iff_exists.mp hlocals
  refine hglobal locals hsome ?_
  unfold Frame.isLocal
  rw [hlocals, Bool.true_and, Bool.not_eq_true', ← Bool.not_eq_true, List.contains_iff_mem]
  exact hundeclared

end Frame.Spares

namespace Exec.Heeds

variable {x y : Exec α}

theorem pure (a : α) : Heeds ns n (Pure.pure a) (Pure.pure a) := fun _ hf => Run.Heeds.pure hf

theorem throw (s : Signal) : Heeds ns n (throw s : Exec α) (throw s) := fun _ hf => Run.Heeds.pure hf

theorem bind {g h : α → Exec β} (hx : Heeds ns n x y) (hg : ∀ a, Heeds ns n (g a) (h a)) :
    Heeds ns n (x >>= g) (y >>= h) := by
  refine fun f hf => Run.Heeds.bind (hx f hf) fun r hr => ?_
  obtain ⟨r, f'⟩ := r
  cases r with
  | ok a => exact hg a f' hr
  | error s => exact Run.Heeds.pure hr

theorem ofEval {x y : Frame → Eval α} (h : ∀ f, f.Spares ns n → Eval.Heeds ns n (x f) (y f)) :
    Heeds ns n (Exec.ofEval x) (Exec.ofEval y) :=
  fun f hf => Run.Heeds.map (h f hf) fun _ _ => hf

/-- How executions in a frame end, whatever becomes of the frame. -/
theorem run' {f : Frame} (h : Heeds ns n x y) (hf : f.Spares ns n) :
    Run.Heeds ns n (fun _ => True) (StateT.run' x f) (StateT.run' y f) :=
  Run.Heeds.map (h f hf) fun _ _ => trivial

theorem ofOp {x : Op α} (h : x.KeepsBinding ns n) : Heeds ns n (Exec.ofOp x) (Exec.ofOp x) :=
  ofEval fun _ _ => .ofOp h

theorem onData {x : Op α} (h : x.OnData) : Heeds ns n (Exec.ofOp x) (Exec.ofOp x) := ofOp (.of_onData h)

theorem raise (e : Raised) : Heeds ns n (Exec.raise e : Exec α) (Exec.raise e) := throw _

theorem fail (p : Problem) : Heeds ns n (Exec.fail p : Exec α) (Exec.fail p) := onData (.fail p)

theorem endless : Heeds ns n (Exec.endless : Exec α) Exec.endless := ofEval fun _ _ => .endless

theorem attempt (h : Heeds ns n x y) : Heeds ns n (Exec.attempt x) (Exec.attempt y) :=
  fun f hf => Run.Heeds.map (h f hf) fun _ hr => hr

theorem conclude (r : Except Signal Unit) : Heeds ns n (Exec.conclude r) (Exec.conclude r) := by
  cases r with
  | ok u => exact pure u
  | error s => exact throw s

theorem frame {g h : Frame → Exec α} (hg : ∀ f, Heeds ns n (g f) (h f)) :
    Heeds ns n (getThe Frame >>= g) (getThe Frame >>= h) :=
  fun f => hg f f

/-- The frame is read, with what is known of it. -/
theorem framed {g h : Frame → Exec α} (hg : ∀ f : Frame, f.Spares ns n →
    Run.Heeds ns n (fun r => r.2.Spares ns n) ((g f).run.run f) ((h f).run.run f)) :
    Heeds ns n (getThe Frame >>= g) (getThe Frame >>= h) :=
  hg

theorem modifyFrame {g : Frame → Frame} (h : ∀ f, f.Spares ns n → (g f).Spares ns n) :
    Heeds ns n (modifyThe Frame g) (modifyThe Frame g) :=
  fun f hf _ _ hw => .done hw (h f hf)

theorem reading : Heeds ns n (Exec.ofOp (get : Op World)) (Exec.ofOp get) :=
  ofOp fun _ _ _ _ hw h => by cases h; exact hw

theorem forM {g h : α → Exec Unit} (hg : ∀ a, Heeds ns n (g a) (h a)) (l : List α) :
    Heeds ns n (l.forM g) (l.forM h) := by
  induction l with
  | nil => exact pure _
  | cons a as ih => exact bind (hg a) fun _ => ih

theorem forM_option {g h : α → Exec Unit} (hg : ∀ a, Heeds ns n (g a) (h a)) (o : Option α) :
    Heeds ns n (o.forM g) (o.forM h) := by
  cases o with
  | none => exact pure _
  | some a => exact hg a

theorem mapM {g h : α → Exec β} (hg : ∀ a, Heeds ns n (g a) (h a)) (l : List α) :
    Heeds ns n (l.mapM g) (l.mapM h) := by
  induction l with
  | nil => exact pure _
  | cons a as ih =>
    rw [List.mapM_cons, List.mapM_cons]
    exact bind (hg a) fun _ => bind ih fun _ => pure _

theorem mapM_option {g h : α → Exec β} (hg : ∀ a, Heeds ns n (g a) (h a)) (o : Option α) :
    Heeds ns n (o.mapM g) (o.mapM h) := by
  cases o with
  | none => exact pure _
  | some a => exact bind (hg a) fun _ => pure _

/-- **In a frame that leaves the name alone** other names are bound. -/
theorem bindName (name : String) (v : Value) : Heeds ns n (Lang.bindName name v) (Lang.bindName name v) := by
  refine framed fun f hf => ?_
  split
  · exact fun _ _ hw => .done hw fun hns => ⟨rfl, (hf hns).2⟩
  · rename_i hglobal
    refine ofOp (fun w b a w' hw h => ?_) f hf
    cases h
    exact hw.setSpace fun hns => Bindings.get?_insert_of_ne _ v (hf.ne hglobal hns)

/-- **In a frame that leaves the name alone** other names are taken away. -/
theorem unbindName (name : String) : Heeds ns n (Lang.unbindName name) (Lang.unbindName name) := by
  refine framed fun f hf => ?_
  split
  · split
    · exact fun _ _ hw => .done hw fun hns => ⟨rfl, (hf hns).2⟩
    · exact fail _ f hf
  · rename_i hglobal
    refine ofOp (.reading fun w => ?_) f hf
    dsimp only
    split
    · intro b a w' hw h
      cases h
      exact hw.setSpace fun hns => Bindings.get?_erase_of_ne _ (hf.ne hglobal hns)
    · exact Op.KeepsBinding.fail _ w

end Exec.Heeds

/-! ## Side by side -/

/-- Computations that have not begun and heed the watch. -/
abbrev Run.Heed (ns : Ref) (n : String) (x y : Run α) : Prop := Run.Heeds ns n (fun _ => True) x y

/-- Computations that wait for the same, and heed the watch when they go on. -/
structure Suspended.Heed (ns : Ref) (n : String) (s s' : Suspended α) : Prop where
  /-- They wait for the same. -/
  what : s'.what = s.what
  /-- They heed the watch when they go on. -/
  resume : Run.Heed ns n s.resume s'.resume

theorem Suspended.Heed.of_resume {what : Wait} {x y : Run α} (h : Run.Heed ns n x y) :
    Suspended.Heed ns n ⟨what, x⟩ ⟨what, y⟩ :=
  ⟨rfl, h⟩

theorem Suspended.Heed.poll {s s' : Suspended α} (h : s.Heed ns n s') {b : Option Value} {w : World}
    (hw : w.Binds ns n b) : (s.poll w).Heeds ns n (fun _ => True) b (s'.poll w) := by
  unfold Suspended.poll
  rw [h.what]
  split
  · exact h.resume b w hw
  · exact .wait hw h.resume

/-- **Results that are related,** or the same lack of one, unless the second is that of a stopped
computation. -/
inductive StoppedOr (R : α → β → Prop) : Except Halt α → Except Halt β → Prop
  | ok {x : α} {y : β} (h : R x y) : StoppedOr R (.ok x) (.ok y)
  | halt {why : Halt} : StoppedOr R (.error why) (.error why)
  | stopped {x : Except Halt α} : StoppedOr R x (.error .stopped)

theorem StoppedOr.bind {γ δ : Type} {R : α → β → Prop} {S : γ → δ → Prop} {x : Except Halt α}
    {y : Except Halt β} {f : α → Except Halt γ} {g : β → Except Halt δ} (h : StoppedOr R x y)
    (hf : ∀ a b, R a b → StoppedOr S (f a) (g b)) : StoppedOr S (x >>= f) (y >>= g) := by
  cases h with
  | ok h => exact hf _ _ h
  | halt => exact .halt
  | stopped => exact .stopped

/-- Results with the same world, where the name is bound so. -/
def Same (ns : Ref) (n : String) (b : Option Value) (R : α → β → Prop) (x : α × World) (y : β × World) :
    Prop :=
  R x.1 y.1 ∧ y.2 = x.2 ∧ x.2.Binds ns n b

/-- Members that heed the watch. -/
inductive Member.Heed (ns : Ref) (n : String) : Member → Member → Prop
  | finished (o : Ending) : Heed ns n (.finished o) (.finished o)
  | waiting {s s' : Suspended Ending} (h : s.Heed ns n s') : Heed ns n (.waiting s) (.waiting s')

theorem Member.Heed.outcome? {m m' : Member} (h : m.Heed ns n m') : m'.outcome? = m.outcome? := by
  cases h with
  | finished o => rfl
  | waiting h => rfl

variable {b : Option Value}

theorem pollAll_heeds {ms ms' : List Member} (h : List.Forall₂ (Member.Heed ns n) ms ms') {w : World}
    (hw : w.Binds ns n b) : StoppedOr (Same ns n b (List.Forall₂ (Member.Heed ns n)))
      (Member.pollAll ms w) (Member.pollAll ms' w) := by
  induction h generalizing w with
  | nil => exact .ok ⟨.nil, rfl, hw⟩
  | @cons m m' ms ms' hm _ ih =>
    have hrest {m m' : Member} (hm : m.Heed ns n m') {w : World} (hw : w.Binds ns n b) :
        StoppedOr (Same ns n b (List.Forall₂ (Member.Heed ns n)))
          (do let r ← Member.pollAll ms w; return (m :: r.1, r.2))
          (do let r ← Member.pollAll ms' w; return (m' :: r.1, r.2)) :=
      .bind (ih hw) fun _ _ hr => .ok ⟨.cons hm hr.1, hr.2⟩
    cases hm with
    | finished o =>
      unfold Member.pollAll
      exact hrest (.finished o) hw
    | @waiting s s' hs =>
      have hpoll := hs.poll hw
      unfold Member.pollAll
      dsimp only
      generalize s.poll w = t at hpoll ⊢
      generalize s'.poll w = t' at hpoll ⊢
      cases hpoll with
      | done hw' _ => exact hrest (.finished _) hw'
      | wait hw' h => exact hrest (.waiting (.of_resume h)) hw'
      | halt => exact .halt
      | stopped => exact .stopped

/-- **Computations side by side** heed the watch if each does. -/
theorem together_heeds (turns : Nat) {ms ms' : List Member} (h : List.Forall₂ (Member.Heed ns n) ms ms') :
    Run.Heed ns n (Member.together turns ms) (Member.together turns ms') := by
  induction turns generalizing ms ms' with
  | zero => exact .halt _
  | succ turns ih =>
    intro b w hw
    have hpoll := pollAll_heeds h hw
    unfold Member.together
    generalize Member.pollAll ms w = r at hpoll ⊢
    generalize Member.pollAll ms' w = r' at hpoll ⊢
    cases hpoll with
    | halt => exact .halt
    | stopped => exact .stopped
    | ok hr =>
      rename_i r r'
      obtain ⟨ms, w₁⟩ := r
      obtain ⟨ms', w₁'⟩ := r'
      obtain ⟨hms, rfl, hw'⟩ := hr
      dsimp only at hms ⊢
      rw [mapM_outcome?_congr (fun _ _ hm => hm.outcome?) hms]
      split
      · exact .done hw' trivial
      · exact .wait hw' (ih hms)

/-! ## Event loops -/

/-- Tasks that wait for the same, and heed the watch when they go on. -/
abbrev Threads.Heed (ns : Ref) (n : String) : Threads → Threads → Prop :=
  Threads.Rel fun _ => Suspended.Heed ns n

/-- The world in which a loop has rested is the same, if there is one. -/
theorem rest_heeds (l : Ref) {w : World} (hw : w.Binds ns n b) :
    StoppedOr (fun w w' => w' = w ∧ w.Binds ns n b) (rest l w) (rest l w) := by
  cases h : rest l w with
  | error why => exact .halt
  | ok w' => exact .ok ⟨rfl, hw.of_withoutLoops (World.withoutLoops_rest h)⟩

theorem StoppedOr.ofEnd {x y : Except Halt (α × World)} (h : StoppedOr (Same ns n b (· = ·)) x y) :
    Step.Heeds ns n (fun _ => True) b (Step.ofEnd x) (Step.ofEnd y) := by
  cases h with
  | @ok x y h =>
    obtain ⟨ha, hw, hbinds⟩ := h
    unfold Step.ofEnd
    dsimp only
    rw [← ha, hw]
    exact .done hbinds trivial
  | halt => exact .halt
  | stopped => exact .stopped

section

variable {start start' : Ref → Run Ending} (hstart : ∀ r, Run.Heed ns n (start r) (start' r)) (l : Ref)

include hstart

theorem runTask_heeds (r : Ref) {threads threads' : Threads} (ht : Threads.Heed ns n threads threads')
    {w : World} (hw : w.Binds ns n b) : StoppedOr (Same ns n b (Threads.Heed ns n))
      (runTask start r threads w) (runTask start' r threads' w) := by
  have hcurrent : World.Binds ns n b { w with current := .task r } := hw.of_eq rfl rfl
  have hfinish {w : World} (hw : w.Binds ns n b) (o : Ending) : (w.finishTask r o).Binds ns n b :=
    hw.of_withoutLoops (w.withoutLoops_finishTask r o)
  rw [runTask_eq, runTask_eq]
  split
  · exact .ok ⟨ht.filter r, rfl, hfinish hcurrent _⟩
  · have hturn : Step.Heeds ns n (fun _ => True) b (turn start r threads { w with current := .task r })
        (turn start' r threads' { w with current := .task r }) := by
      have hlookup := ht.lookup r
      unfold turn
      generalize threads.lookup r = o at hlookup ⊢
      generalize threads'.lookup r = o' at hlookup ⊢
      cases hlookup with
      | some hs => exact hs.poll hcurrent
      | none => exact hstart _ b _ hcurrent
    generalize turn start r threads _ = t at hturn ⊢
    generalize turn start' r threads' _ = t' at hturn ⊢
    cases hturn with
    | done hw' _ => exact .ok ⟨ht.filter r, rfl, hfinish hw' _⟩
    | wait hw' h =>
      dsimp only [afterTurn]
      split
      · exact .ok ⟨ht.filter r, rfl, hfinish hw' _⟩
      · exact .ok ⟨.cons ⟨rfl, .of_resume h⟩ (ht.filter r), rfl, hw'⟩
    | halt => exact .halt
    | stopped => exact .stopped

theorem runQueue_heeds (k : Nat) {threads threads' : Threads} (ht : Threads.Heed ns n threads threads')
    {w : World} (hw : w.Binds ns n b) : StoppedOr (Same ns n b (Threads.Heed ns n))
      (runQueue start l k threads w) (runQueue start' l k threads' w) := by
  induction k generalizing threads threads' w with
  | zero => exact .ok ⟨ht, rfl, hw⟩
  | succ k ih =>
    unfold runQueue
    split
    · exact .ok ⟨ht, rfl, hw⟩
    · refine .bind (runTask_heeds hstart _ ht (hw.of_eq rfl rfl)) fun x x' hx => ?_
      obtain ⟨threads, w⟩ := x
      obtain ⟨threads', w'⟩ := x'
      obtain ⟨ht', rfl, hw'⟩ := hx
      exact ih ht' hw'

/-- Results of driving a loop that are the same, with tasks that heed the watch. -/
abbrev DrivenSame (ns : Ref) (n : String) (b : Option Value) :
    α × Threads × World → α × Threads × World → Prop :=
  fun x y => y.1 = x.1 ∧ Same ns n b (Threads.Heed ns n) x.2 y.2

/-- **Driving a loop** heeds the watch if its root and its tasks do. -/
theorem drive_heeds (rounds : Nat) {root root' : Suspended α} (hroot : root.Heed ns n root')
    {threads threads' : Threads} (ht : Threads.Heed ns n threads threads') {w : World}
    (hw : w.Binds ns n b) : StoppedOr (DrivenSame ns n b) (drive start l rounds root threads w)
      (drive start' l rounds root' threads' w) := by
  induction rounds generalizing root root' threads threads' w with
  | zero => exact .halt
  | succ rounds ih =>
    have hgoOn {root root' : Suspended α} (hroot : root.Heed ns n root') {threads threads' : Threads}
        (ht : Threads.Heed ns n threads threads') {w : World} (hw : w.Binds ns n b) :
        StoppedOr (DrivenSame ns n b) (do drive start l rounds root threads (← rest l w))
          (do drive start' l rounds root' threads' (← rest l w)) := by
      refine .bind (rest_heeds l hw) fun w w' h => ?_
      obtain ⟨rfl, hw'⟩ := h
      exact ih hroot ht hw'
    unfold drive
    split
    · have hcurrent : World.Binds ns n b
          { w.setLoop l { w.loop l with rootWoken := false } with current := .root } :=
        hw.of_eq rfl rfl
      have hpoll := hroot.poll hcurrent
      dsimp only
      generalize root.poll _ = t at hpoll ⊢
      generalize root'.poll _ = t' at hpoll ⊢
      cases hpoll with
      | done hw' _ => exact .ok ⟨rfl, ht, rfl, hw'⟩
      | wait hw' h =>
        refine .bind (runQueue_heeds hstart l _ ht hw') fun x x' hx => ?_
        obtain ⟨threads, w⟩ := x
        obtain ⟨threads', w'⟩ := x'
        obtain ⟨ht', rfl, hw'⟩ := hx
        dsimp only
        split
        · exact hgoOn (.of_resume h) ht' hw'
        · exact hgoOn (.of_resume h) ht' (hw'.of_eq rfl rfl)
      | halt => exact .halt
      | stopped => exact .stopped
    · exact hgoOn hroot ht hw

theorem driveOn_heeds (rounds : Nat) {root root' : Run α} (hroot : Run.Heed ns n root root')
    {threads threads' : Threads} (ht : Threads.Heed ns n threads threads') {w : World}
    (hw : w.Binds ns n b) : StoppedOr (DrivenSame ns n b) (driveOn start l rounds root threads w)
      (driveOn start' l rounds root' threads' w) := by
  have hrunning : World.Binds ns n b ({ w with running := some l }.wakeRoot l) := hw.of_eq rfl rfl
  refine .bind (drive_heeds hstart l rounds (.of_resume hroot) ht hrunning) fun x x' hx => ?_
  obtain ⟨a, threads, w⟩ := x
  obtain ⟨a', threads', w'⟩ := x'
  obtain ⟨rfl, ht', rfl, hw'⟩ := hx
  exact .ok ⟨rfl, ht', rfl, hw'.of_eq rfl rfl⟩

omit hstart in
theorem settle_heeds (rs : List Ref) : Run.Heed ns n (settle rs) (settle rs) := by
  induction rs with
  | nil => exact .pure trivial
  | cons r rs ih =>
    refine .bind .world fun w _ => ?_
    dsimp only
    split
    · refine .bind (.modify fun w => w.withoutLoops_awaitedBy r) fun _ _ => ?_
      exact .bind (.wait _) fun _ _ => ih
    · exact ih

/-- **Closing a loop** heeds the watch. -/
theorem closeLoop_heeds (rounds : Nat) {threads threads' : Threads}
    (ht : Threads.Heed ns n threads threads') {w : World} (hw : w.Binds ns n b) :
    StoppedOr (fun w w' => w' = w ∧ w.Binds ns n b) (closeLoop start l rounds threads w)
      (closeLoop start' l rounds threads' w) := by
  have hheld (held : List Ref) : World.Binds ns n b
      (held.foldl (fun w r => w.setTask r { w.task r with hasHandle := false }) w) :=
    hw.of_withoutLoops (World.withoutLoops_foldl (fun w r => w.withoutLoops_setTask r _) held)
  unfold closeLoop
  dsimp only
  split
  · exact .ok ⟨rfl, hheld _⟩
  · refine .bind (driveOn_heeds (b := b) hstart l rounds (settle_heeds _) ht ?_) fun x x' hx => ?_
    · exact (hheld _).of_withoutLoops (World.withoutLoops_foldl (fun w r => w.withoutLoops_cancelTask r) _)
    obtain ⟨a, threads, w⟩ := x
    obtain ⟨a', threads', w'⟩ := x'
    obtain ⟨-, -, rfl, hw'⟩ := hx
    exact .ok ⟨rfl, hw'⟩

/-- **A loop of its own** heeds the watch if the coroutines do that it starts. -/
theorem runOnNewLoop_heeds (rounds : Nat) (coroutine : Ref) :
    Run.Heed ns n (runOnNewLoop start rounds coroutine) (runOnNewLoop start' rounds coroutine) := by
  intro b w hw
  have hnew : w.newLoop.2.Binds ns n b := hw.of_eq rfl rfl
  rw [runOnNewLoop_eq, runOnNewLoop_eq]
  refine StoppedOr.ofEnd (.bind (driveOn_heeds hstart _ rounds (hstart coroutine) .nil hnew)
    fun x x' hx => ?_)
  obtain ⟨a, threads, w⟩ := x
  obtain ⟨a', threads', w'⟩ := x'
  obtain ⟨rfl, ht, rfl, hw'⟩ := hx
  refine .bind (closeLoop_heeds hstart _ rounds ht hw') fun w w' h => ?_
  obtain ⟨rfl, hw'⟩ := h
  exact .ok ⟨rfl, rfl, hw'⟩

end

end Transcript.Lang
