import Transcript.Proofs.Lang.Await
import Transcript.Proofs.Lang.Data

/-!
# Computations that agree

Two computations agree if they do the same in every world whose functions and coroutines await only
where they may. They keep such worlds, and if they must not wait, they do not.

Results:
* `Step.Agree.bind`: computations that agree, one after the other, agree.
* `Step.Agree.of_false`: without leave to wait, they have the same end or none.
* `Eval.Agree.ofOp`, `Exec.Agree.ofEval`: operations and evaluations inside of larger computations.
-/

namespace Transcript.Lang

/-! ## Worlds -/

/-- A function that awaits only where it may. -/
def Function.Guarded (g : Function) : Prop :=
  blockStrays g.definition.isAsync g.definition.body = false

/-- A computation that awaits only where it may, once it is started. -/
def Pending.Guarded : Pending → Prop
  | .call g _ => g.Guarded
  | .source code _ => blockStrays code.isCoroutine code.body = false
  | .sleep .. | .gather _ => True

/-- **A world whose programs await only where they may.** -/
structure World.Guarded (w : World) : Prop where
  /-- Functions do. -/
  functions : ∀ g ∈ w.functions, g.Guarded
  /-- Coroutines do. -/
  coroutines : ∀ c ∈ w.coroutines, ∀ p ∈ c.pending, p.Guarded

theorem World.guarded_empty : World.empty.Guarded :=
  ⟨fun _ h => absurd h (Array.not_mem_empty _), fun _ h => absurd h (Array.not_mem_empty _)⟩

/-- Only functions and coroutines count. -/
theorem World.Guarded.of_eq {w w' : World} (h : w.Guarded) (hf : w'.functions = w.functions)
    (hc : w'.coroutines = w.coroutines) : w'.Guarded :=
  ⟨hf ▸ h.functions, hc ▸ h.coroutines⟩

theorem World.Guarded.of_dataDiffers {w w' : World} (h : w.Guarded) (hd : w.DataDiffers w') :
    w'.Guarded := by
  rw [hd]
  exact h.of_eq rfl rfl

/-- **An operation that keeps such worlds,** and whose result has a property. -/
def Op.Guards {α : Type} (x : Op α) (post : α → Prop) : Prop :=
  ∀ w a w', w.Guarded → x w = .ok (a, w') → w'.Guarded ∧ post a

namespace Op.Guards

variable {α β : Type}

theorem pure {post : α → Prop} {a : α} (h : post a) : Guards (Pure.pure a : Op α) post := by
  intro w a' w' hw hx
  cases hx
  exact ⟨hw, h⟩

theorem fail {post : α → Prop} (p : Problem) : Guards (Op.fail p : Op α) post := by
  intro w a w' _ hx
  cases hx

theorem bind {x : Op α} {f : α → Op β} {mid : α → Prop} {post : β → Prop} (hx : Guards x mid)
    (hf : ∀ a, mid a → Guards (f a) post) : Guards (x >>= f) post := by
  intro w b w'' hw h
  obtain ⟨⟨a, w'⟩, hxa, hfa⟩ := Except.bind_eq_ok.mp h
  obtain ⟨hw', ha⟩ := hx w a w' hw hxa
  exact hf a ha w' b w'' hw' hfa

theorem seq {x : Op α} {f : α → Op β} {post : β → Prop} (hx : Guards x fun _ => True)
    (hf : ∀ a, Guards (f a) post) : Guards (x >>= f) post :=
  hx.bind fun a _ => hf a

theorem of_onData {x : Op α} (h : x.OnData) : Guards x fun _ => True :=
  fun _ _ _ hw hx => ⟨hw.of_dataDiffers (h.dataDiffers hx), trivial⟩

theorem reading : Guards (get : Op World) World.Guarded := by
  intro w a w' hw hx
  cases hx
  exact ⟨hw, hw⟩

end Op.Guards

/-! ## Steps -/

/-- **Steps that agree:** they have the same result in the same world, or wait for the same and agree
when they go on, or both have no end. They are not stopped. The flag tells whether they may wait. -/
inductive Step.Agree {α : Type} (mayWait : Bool) (post : α → Prop) : Step α → Step α → Prop
  | done {a : α} {w : World} (hw : w.Guarded) (ha : post a) : Agree mayWait post (.done a w) (.done a w)
  | wait {what : Wait} {w : World} {resume resume' : World → Step α} (hm : mayWait = true)
      (hw : w.Guarded) (h : ∀ w', w'.Guarded → Agree mayWait post (resume w') (resume' w')) :
      Agree mayWait post (.wait what w resume) (.wait what w resume')
  | endless : Agree mayWait post (.halt .endless) (.halt .endless)

namespace Step.Agree

variable {α β : Type} {m : Bool} {post : α → Prop} {s s' : Step α}

theorem bind {f f' : α → World → Step β} {post' : β → Prop} (h : Agree m post s s')
    (hf : ∀ a, post a → ∀ w, w.Guarded → Agree m post' (f a w) (f' a w)) :
    Agree m post' (s.bind f) (s'.bind f') := by
  induction h with
  | done hw ha => exact hf _ ha _ hw
  | wait hm hw _ ih => exact .wait hm hw ih
  | endless => exact .endless

/-- What must not wait may be used where waiting is allowed. -/
theorem mono {m' : Bool} {post' : α → Prop} (h : Agree m post s s') (hm : m = true → m' = true)
    (hpost : ∀ a, post a → post' a) : Agree m' post' s s' := by
  induction h with
  | done hw ha => exact .done hw (hpost _ ha)
  | wait hw' hw _ ih => exact .wait (hm hw') hw ih
  | endless => exact .endless

/-- **Without leave to wait,** both have the same result, or none has an end. -/
theorem of_false (h : Agree false post s s') :
    (∃ a w, s = .done a w ∧ s' = .done a w ∧ w.Guarded ∧ post a) ∨
      (s = .halt .endless ∧ s' = .halt .endless) := by
  cases h with
  | done hw ha => exact .inl ⟨_, _, rfl, rfl, hw, ha⟩
  | wait hm _ _ => cases hm
  | endless => exact .inr ⟨rfl, rfl⟩

end Step.Agree

/-- Computations that agree in every world whose programs await only where they may. -/
def Run.Agree {α : Type} (mayWait : Bool) (post : α → Prop) (x y : Run α) : Prop :=
  ∀ w, w.Guarded → (x w).Agree mayWait post (y w)

namespace Run.Agree

variable {α β : Type} {m : Bool} {post : α → Prop} {x y : Run α}

theorem pure {a : α} (h : post a) : Agree m post (Pure.pure a) (Pure.pure a) := fun _ hw => .done hw h

theorem bind {f g : α → Run β} {post' : β → Prop} (h : Agree m post x y)
    (hf : ∀ a, post a → Agree m post' (f a) (g a)) : Agree m post' (x >>= f) (y >>= g) :=
  fun w hw => (h w hw).bind fun a ha w' hw' => hf a ha w' hw'

theorem map {f : α → β} {post' : β → Prop} (h : Agree m post x y) (hf : ∀ a, post a → post' (f a)) :
    Agree m post' (f <$> x) (f <$> y) :=
  h.bind fun a ha => pure (hf a ha)

theorem mono {m' : Bool} {post' : α → Prop} (h : Agree m post x y) (hm : m = true → m' = true)
    (hpost : ∀ a, post a → post' a) : Agree m' post' x y :=
  fun w hw => (h w hw).mono hm hpost

theorem endless : Agree m post (Run.halt .endless) (Run.halt .endless) := fun _ _ => .endless

theorem world : Agree m World.Guarded Run.world Run.world := fun _ hw => .done hw hw

theorem modify {f : World → World} (hf : ∀ w, w.Guarded → (f w).Guarded) :
    Agree m (fun _ => True) (Run.modify f) (Run.modify f) :=
  fun w hw => .done (hf w hw) trivial

theorem wait (what : Wait) : Agree true (fun _ => True) (Run.wait what) (Run.wait what) :=
  fun _ hw => .wait rfl hw fun _ hw' => .done hw' trivial

end Run.Agree

/-! ## Evaluations -/

/-- Evaluations that agree. -/
def Eval.Agree {α : Type} (mayWait : Bool) (post : α → Prop) (x y : Eval α) : Prop :=
  Run.Agree mayWait (fun r => ∀ a, r = .ok a → post a) x.run y.run

namespace Eval.Agree

variable {α β : Type} {m : Bool} {post : α → Prop} {x y : Eval α}

theorem pure {a : α} (h : post a) : Agree m post (Pure.pure a) (Pure.pure a) := by
  refine Run.Agree.pure fun b hb => ?_
  cases hb
  exact h

theorem throw (e : Raised) : Agree m post (throw e) (throw e) :=
  Run.Agree.pure fun _ h => by cases h

theorem bind {f g : α → Eval β} {post' : β → Prop} (h : Agree m post x y)
    (hf : ∀ a, post a → Agree m post' (f a) (g a)) : Agree m post' (x >>= f) (y >>= g) := by
  refine Run.Agree.bind h fun r hr => ?_
  cases r with
  | ok a => exact hf a (hr a rfl)
  | error e => exact Run.Agree.pure fun _ h => by cases h

theorem mono {m' : Bool} {post' : α → Prop} (h : Agree m post x y) (hm : m = true → m' = true)
    (hpost : ∀ a, post a → post' a) : Agree m' post' x y :=
  Run.Agree.mono h hm fun _ hr a ha => hpost a (hr a ha)

/-- What must not wait may be used anywhere. -/
theorem of_false (h : Agree false post x y) : Agree m post x y :=
  h.mono (fun hm => by cases hm) fun _ ha => ha

theorem endless : Agree m post Eval.endless Eval.endless := Run.Agree.endless

theorem ofRun {x y : Run α} (h : Run.Agree m post x y) : Agree m post (Eval.ofRun x) (Eval.ofRun y) := by
  refine Run.Agree.bind h fun a ha => Run.Agree.pure fun b hb => ?_
  cases hb
  exact ha

theorem mk {x y : Run (Except Raised α)} (h : Run.Agree m (fun _ => True) x y) :
    Agree m (fun _ => True) (ExceptT.mk x) (ExceptT.mk y) :=
  Run.Agree.mono h id fun _ _ _ _ => trivial

/-- The results and exceptions of evaluations that agree are the same. -/
theorem run (h : Agree m post x y) : Run.Agree m (fun _ => True) x.run y.run :=
  Run.Agree.mono h id fun _ _ => trivial

theorem ofOp {x : Op α} (h : x.Guards post) : Agree m post (Eval.ofOp x) (Eval.ofOp x) := by
  intro w hw
  unfold Eval.ofOp
  dsimp only [ExceptT.run, ExceptT.mk]
  split
  · rename_i a w' hx
    obtain ⟨hw', ha⟩ := h w a w' hw hx
    refine .done hw' fun b hb => ?_
    cases hb
    exact ha
  · exact .endless
  · exact .done (hw.of_eq rfl rfl) fun _ h => by cases h

theorem onData {x : Op α} (h : x.OnData) :
    Agree m (fun _ => True) (Eval.ofOp x) (Eval.ofOp x) :=
  ofOp (.of_onData h)

theorem fail (p : Problem) : Agree m post (Eval.fail p) (Eval.fail p) := ofOp (.fail p)

theorem world : Agree m World.Guarded Eval.world Eval.world := ofRun .world

theorem modify {f : World → World} (hf : ∀ w, w.Guarded → (f w).Guarded) :
    Agree m (fun _ => True) (Eval.modify f) (Eval.modify f) :=
  ofRun (.modify hf)

theorem ofEnding (e : Except Raised α) :
    Agree m (fun _ => True) (Eval.ofEnding e) (Eval.ofEnding e) :=
  Run.Agree.pure fun _ _ => trivial

theorem mapM {f g : α → Eval β} {l : List α} (h : ∀ a ∈ l, Agree m (fun _ => True) (f a) (g a)) :
    Agree m (fun _ => True) (l.mapM f) (l.mapM g) := by
  induction l with
  | nil => exact pure trivial
  | cons a as ih =>
    rw [List.mapM_cons, List.mapM_cons]
    refine bind (h a List.mem_cons_self) fun _ _ => ?_
    exact bind (ih fun b hb => h b (List.mem_cons_of_mem a hb)) fun _ _ => pure trivial

theorem mapM_option {f g : α → Eval β} {o : Option α}
    (h : ∀ a ∈ o, Agree m (fun _ => True) (f a) (g a)) :
    Agree m (fun _ => True) (o.mapM f) (o.mapM g) := by
  cases o with
  | none => exact pure trivial
  | some a => exact bind (h a rfl) fun _ _ => pure trivial

theorem foldlM {f g : β → α → Eval β} {l : List α}
    (h : ∀ b, ∀ a ∈ l, Agree m (fun _ => True) (f b a) (g b a)) (b : β) :
    Agree m (fun _ => True) (l.foldlM f b) (l.foldlM g b) := by
  induction l generalizing b with
  | nil => exact pure trivial
  | cons a as ih =>
    rw [List.foldlM_cons, List.foldlM_cons]
    exact bind (h b a List.mem_cons_self) fun b' _ =>
      ih (fun b c hc => h b c (List.mem_cons_of_mem a hc)) b'

end Eval.Agree

/-! ## Executions -/

/-- **Executions that agree** in every frame that may await or must not. The frame stays of this
sort. -/
def Exec.Agree {α : Type} (mayAwait : Bool) (post : α → Prop) (x y : Exec α) : Prop :=
  ∀ f : Frame, f.mayAwait = mayAwait →
    Run.Agree mayAwait (fun r => r.2.mayAwait = mayAwait ∧ ∀ a, r.1 = .ok a → post a) (x.run.run f)
      (y.run.run f)

namespace Exec.Agree

variable {α β : Type} {m : Bool} {post : α → Prop} {x y : Exec α}

theorem pure {a : α} (h : post a) : Agree m post (Pure.pure a) (Pure.pure a) := by
  refine fun f hf => Run.Agree.pure ⟨hf, fun b hb => ?_⟩
  cases hb
  exact h

theorem throw (s : Signal) : Agree m post (throw s) (throw s) :=
  fun f hf => Run.Agree.pure ⟨hf, fun _ h => by cases h⟩

theorem bind {g h : α → Exec β} {post' : β → Prop} (hx : Agree m post x y)
    (hg : ∀ a, post a → Agree m post' (g a) (h a)) : Agree m post' (x >>= g) (y >>= h) := by
  refine fun f hf => Run.Agree.bind (hx f hf) fun r hr => ?_
  obtain ⟨r, f'⟩ := r
  cases r with
  | ok a => exact hg a (hr.2 a rfl) f' hr.1
  | error s => exact Run.Agree.pure ⟨hr.1, fun _ h => by cases h⟩

theorem ofEval {x y : Frame → Eval α} (h : ∀ f : Frame, f.mayAwait = m → Eval.Agree m post (x f) (y f)) :
    Agree m post (Exec.ofEval x) (Exec.ofEval y) := by
  refine fun f hf => Run.Agree.map (h f hf) fun r hr => ⟨hf, fun a ha => ?_⟩
  cases r with
  | ok b => exact hr a (by cases ha; rfl)
  | error e => cases ha

/-- How executions in a frame end, whatever becomes of the frame. -/
theorem run' {f : Frame} (h : Agree m post x y) (hf : f.mayAwait = m) :
    Run.Agree m (fun _ => True) (StateT.run' x f) (StateT.run' y f) :=
  Run.Agree.map (h f hf) fun _ _ => trivial

theorem onData {x : Op α} (h : x.OnData) : Agree m (fun _ => True) (Exec.ofOp x) (Exec.ofOp x) :=
  ofEval fun _ _ => .onData h

theorem ofOp {x : Op α} (h : x.Guards post) : Agree m post (Exec.ofOp x) (Exec.ofOp x) :=
  ofEval fun _ _ => .ofOp h

theorem raise (e : Raised) : Agree m post (Exec.raise e) (Exec.raise e) := throw _

theorem fail (p : Problem) : Agree m post (Exec.fail p) (Exec.fail p) := ofOp (.fail p)

theorem endless : Agree m post Exec.endless Exec.endless := ofEval fun _ _ => .endless

theorem attempt (h : Agree m post x y) :
    Agree m (fun _ => True) (Exec.attempt x) (Exec.attempt y) :=
  fun f hf => Run.Agree.map (h f hf) fun _ hr => ⟨hr.1, fun _ _ => trivial⟩

theorem conclude (r : Except Signal Unit) :
    Agree m (fun _ => True) (Exec.conclude r) (Exec.conclude r) := by
  cases r with
  | ok u => exact pure trivial
  | error s => exact throw s

theorem frame : Agree m (fun f => f.mayAwait = m) (getThe Frame) (getThe Frame) := by
  refine fun f hf w hw => .done hw ⟨hf, fun a ha => ?_⟩
  cases ha
  exact hf

theorem setFrame {f : Frame} (h : f.mayAwait = m) : Agree m (fun _ => True) (set f) (set f) :=
  fun _ _ _ hw => .done hw ⟨h, fun _ _ => trivial⟩

theorem modifyFrame {g : Frame → Frame} (h : ∀ f, (g f).mayAwait = f.mayAwait) :
    Agree m (fun _ => True) (modifyThe Frame g) (modifyThe Frame g) :=
  fun f hf _ hw => .done hw ⟨(h f).trans hf, fun _ _ => trivial⟩

theorem forM {g h : α → Exec Unit} {l : List α} (hg : ∀ a ∈ l, Agree m (fun _ => True) (g a) (h a)) :
    Agree m (fun _ => True) (l.forM g) (l.forM h) := by
  induction l with
  | nil => exact pure trivial
  | cons a as ih =>
    exact bind (hg a List.mem_cons_self) fun _ _ => ih fun b hb => hg b (List.mem_cons_of_mem a hb)

theorem forM_option {g h : α → Exec Unit} {o : Option α}
    (hg : ∀ a ∈ o, Agree m (fun _ => True) (g a) (h a)) :
    Agree m (fun _ => True) (o.forM g) (o.forM h) := by
  cases o with
  | none => exact pure trivial
  | some a => exact hg a rfl

theorem mapM {g h : α → Exec β} {l : List α} (hg : ∀ a ∈ l, Agree m (fun _ => True) (g a) (h a)) :
    Agree m (fun _ => True) (l.mapM g) (l.mapM h) := by
  induction l with
  | nil => exact pure trivial
  | cons a as ih =>
    rw [List.mapM_cons, List.mapM_cons]
    refine bind (hg a List.mem_cons_self) fun _ _ => ?_
    exact bind (ih fun b hb => hg b (List.mem_cons_of_mem a hb)) fun _ _ => pure trivial

theorem mapM_option {g h : α → Exec β} {o : Option α}
    (hg : ∀ a ∈ o, Agree m (fun _ => True) (g a) (h a)) :
    Agree m (fun _ => True) (o.mapM g) (o.mapM h) := by
  cases o with
  | none => exact pure trivial
  | some a => exact bind (hg a rfl) fun _ _ => pure trivial

/-! ### Names -/

theorem bindName (name : String) (v : Value) :
    Agree m (fun _ => True) (Lang.bindName name v) (Lang.bindName name v) := by
  refine bind frame fun f hf => ?_
  split
  · exact setFrame hf
  · refine ofOp fun w a w' hw hx => ?_
    cases hx
    exact ⟨hw.of_eq rfl rfl, trivial⟩

theorem unbindName (name : String) :
    Agree m (fun _ => True) (Lang.unbindName name) (Lang.unbindName name) := by
  refine bind frame fun f hf => ?_
  split
  · split
    · exact setFrame hf
    · exact fail _
  · refine ofOp (.bind .reading fun w hw => ?_)
    dsimp only
    split
    · intro w a w' hw hx
      cases hx
      exact ⟨hw.of_eq rfl rfl, trivial⟩
    · exact .fail _

end Exec.Agree

end Transcript.Lang
