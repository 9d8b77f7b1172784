import Transcript.Proofs.Lang.Data
import Transcript.Proofs.Lang.Ledger
import Transcript.Proofs.Lang.Loop

/-!
# Event loops as sequences of acts

A computation that has the turn leads from any moment of a history to its result, or to its next wait,
by acts; and when a wait is over, it goes on so from whatever moment the history has come to meanwhile.
What programs do to tasks are acts, and so is what an event loop does: giving turns, ending tasks,
letting timers go off. A task that waits is resumed in its own turn.

Results:
* `Step.Acts.bind`: computations that are sequences of acts, one after the other, are one.
* `Eval.Acts.ofOp`: operations inside of larger computations.
* `createTask_acts`, `callTask_acts`, `awaitTask_acts`: what programs do to tasks.
* `runTask_acts`, `drive_acts`: what a loop does that is driven.
* `driveOn_acts`, `closeLoop_acts`: driving and closing a loop, seen from outside of it.
* `runOnNewLoop_acts`: a program that drives a coroutine on a loop of its own.
-/

namespace Transcript.Lang

/-! ## Operations -/

/-- An operation that is a sequence of acts from a moment of a history, if it succeeds. -/
def Op.ActsFrom {α : Type} (t : Turn) (w : World) (g : Ledger) (x : Op α) : Prop :=
  ∀ a w', x w = .ok (a, w') → ∃ g', Leads ⟨t, w, g⟩ ⟨t, w', g'⟩

/-- **An operation that is a sequence of acts,** from any moment of a history. -/
def Op.Acts {α : Type} (t : Turn) (x : Op α) : Prop :=
  ∀ w g, History ⟨t, w, g⟩ → x.ActsFrom t w g

namespace Op.Acts

variable {α β : Type} {t : Turn}

theorem pure (a : α) : Acts t (Pure.pure a : Op α) := by
  intro w g _ a' w' hx
  cases hx
  exact ⟨g, .refl⟩

theorem fail (p : Problem) : Acts t (Op.fail p : Op α) := by
  intro w g _ a w' hx
  cases hx

theorem bind {x : Op α} {f : α → Op β} (hx : Acts t x) (hf : ∀ a, Acts t (f a)) :
    Acts t (x >>= f) := by
  intro w g h b w'' hb
  obtain ⟨⟨a, w'⟩, hxa, hfa⟩ := Except.bind_eq_ok.mp hb
  obtain ⟨g', hg'⟩ := hx w g h a w' hxa
  obtain ⟨g'', hg''⟩ := hf a w' g' (h.trans hg') b w'' hfa
  exact ⟨g'', hg'.trans hg''⟩

/-- What follows when the world is read may depend on it. -/
theorem reading {f : World → Op β} (hf : ∀ w g, History ⟨t, w, g⟩ → (f w).ActsFrom t w g) :
    Acts t (get >>= f) :=
  hf

/-- An operation on memory has nothing to do with tasks and loops. -/
theorem onMemory {x : Op α} (h : x.OnMemory) : Acts t x := by
  intro w g _ a w' hx
  rw [h w] at hx
  cases hr : x w.view with
  | error p =>
    rw [hr] at hx
    cases hx
  | ok r =>
    rw [hr] at hx
    cases hx
    exact ⟨g, .single (.other rfl rfl rfl rfl)⟩

theorem onData {x : Op α} (h : x.OnData) : Acts t x := onMemory (.of_onData h)

end Op.Acts

/-! ## Steps -/

/-- **A step that is a sequence of acts** from a moment of a history. -/
inductive Step.Acts {α : Type} (t : Turn) : Moment → Step α → Prop
  /-- It has its result after these acts. -/
  | done {m : Moment} {a : α} {w : World} {g : Ledger} (h : Leads m ⟨t, w, g⟩) : Acts t m (.done a w)
  /-- It waits after these acts, and goes on by acts when the wait is over. -/
  | wait {m : Moment} {what : Wait} {w : World} {g : Ledger} {resume : World → Step α}
      (h : Leads m ⟨t, w, g⟩)
      (hresume : ∀ w' g', History ⟨t, w', g'⟩ → what.isOver w' = true →
        Acts t ⟨t, w', g'⟩ (resume w')) : Acts t m (.wait what w resume)
  /-- It goes no further. -/
  | halt {m : Moment} {why : Halt} : Acts t m (.halt why)

namespace Step.Acts

variable {α β : Type} {t : Turn} {m m' : Moment} {s : Step α}

theorem of_leads (h : s.Acts t m') (hm : Leads m m') : s.Acts t m := by
  cases h with
  | done h => exact .done (hm.trans h)
  | wait h hresume => exact .wait (hm.trans h) hresume
  | halt => exact .halt

theorem bind {f : α → World → Step β} (h : s.Acts t m) (hm : History m)
    (hf : ∀ a w g, History ⟨t, w, g⟩ → (f a w).Acts t ⟨t, w, g⟩) : (s.bind f).Acts t m := by
  induction h with
  | done h => exact (hf _ _ _ (hm.trans h)).of_leads h
  | wait h _ ih => exact .wait h fun w' g' hw' hover => ih w' g' hw' hover hw'
  | halt => exact .halt

end Step.Acts

/-- **A computation that is a sequence of acts,** begun at any moment of a history. -/
def Run.Acts {α : Type} (t : Turn) (x : Run α) : Prop :=
  ∀ w g, History ⟨t, w, g⟩ → (x w).Acts t ⟨t, w, g⟩

namespace Run.Acts

variable {α β : Type} {t : Turn} {x : Run α}

theorem pure (a : α) : Acts t (Pure.pure a) := fun _ _ _ => .done .refl

theorem halt (why : Halt) : Acts t (Run.halt why : Run α) := fun _ _ _ => .halt

theorem bind {f : α → Run β} (h : Acts t x) (hf : ∀ a, Acts t (f a)) : Acts t (x >>= f) :=
  fun w g hw => (h w g hw).bind hw fun a => hf a

theorem world : Acts t Run.world := fun _ _ _ => .done .refl

theorem modify {f : World → World}
    (hf : ∀ w g, History ⟨t, w, g⟩ → ∃ g', Leads ⟨t, w, g⟩ ⟨t, f w, g'⟩) : Acts t (Run.modify f) := by
  intro w g h
  obtain ⟨g', hg'⟩ := hf w g h
  exact .done hg'

theorem wait (what : Wait) : Acts t (Run.wait what) :=
  fun _ _ _ => .wait .refl fun _ _ _ _ => .done .refl

end Run.Acts

/-! ## Evaluations -/

/-- An evaluation that is a sequence of acts from a moment of a history. -/
def Eval.ActsFrom {α : Type} (t : Turn) (w : World) (g : Ledger) (x : Eval α) : Prop :=
  (x.run w).Acts t ⟨t, w, g⟩

/-- **An evaluation that is a sequence of acts,** from any moment of a history. -/
def Eval.Acts {α : Type} (t : Turn) (x : Eval α) : Prop :=
  ∀ w g, History ⟨t, w, g⟩ → x.ActsFrom t w g

namespace Eval.Acts

variable {α β : Type} {t : Turn} {x : Eval α}

theorem pure (a : α) : Acts t (Pure.pure a : Eval α) := Run.Acts.pure _

theorem bind {f : α → Eval β} (h : Acts t x) (hf : ∀ a, Acts t (f a)) : Acts t (x >>= f) := by
  refine Run.Acts.bind h fun r => ?_
  cases r with
  | ok a => exact hf a
  | error e => exact Run.Acts.pure _

theorem ofRun {x : Run α} (h : Run.Acts t x) : Acts t (Eval.ofRun x) :=
  Run.Acts.bind h fun _ => Run.Acts.pure _

theorem ofOp {x : Op α} (h : x.Acts t) : Acts t (Eval.ofOp x) := by
  intro w g hw
  unfold Eval.ofOp ActsFrom
  dsimp only [ExceptT.run, ExceptT.mk]
  split
  · rename_i a w' hx
    obtain ⟨g', hg'⟩ := h w g hw a w' hx
    exact .done hg'
  · exact .halt
  · exact .done (.single (.other rfl rfl rfl rfl))

theorem fail (p : Problem) : Acts t (Eval.fail p : Eval α) := ofOp (.fail p)

theorem world : Acts t Eval.world := ofRun .world

/-- What follows when the world is read may depend on it. -/
theorem reading {f : World → Eval β} (hf : ∀ w g, History ⟨t, w, g⟩ → (f w).ActsFrom t w g) :
    Acts t (Eval.world >>= f) :=
  hf

theorem modify {f : World → World}
    (hf : ∀ w g, History ⟨t, w, g⟩ → ∃ g', Leads ⟨t, w, g⟩ ⟨t, f w, g'⟩) : Acts t (Eval.modify f) :=
  ofRun (.modify hf)

theorem ofEnding (e : Except Raised α) : Acts t (Eval.ofEnding e) := Run.Acts.pure e

end Eval.Acts

namespace Eval.ActsFrom

variable {β : Type} {t : Turn} {w : World} {g g' : Ledger}

/-- The world is read. -/
theorem reading {f : World → Eval β} (hf : (f w).ActsFrom t w g) :
    (Eval.world >>= f).ActsFrom t w g :=
  hf

/-- The world changes, and what follows goes on from there. -/
theorem modifying {f : World → World} {y : Eval β} (hf : Leads ⟨t, w, g⟩ ⟨t, f w, g'⟩)
    (hy : y.ActsFrom t (f w) g') : (Eval.modify f >>= fun _ => y).ActsFrom t w g :=
  Step.Acts.of_leads hy hf

end Eval.ActsFrom

/-! ## Programs -/

namespace History

variable {place : Option (Ref × Waker)} {w : World} {g : Ledger} {l : Ref}

/-- While a loop is driven, the turn is that of one of its computations. -/
theorem place_of_running (h : History ⟨.program place, w, g⟩) (hl : w.running = some l) :
    ∃ who, place = some (l, who) := by
  match place with
  | none => cases h.tells.turn.symm.trans hl
  | some (k, who) =>
    cases h.tells.turn.1.symm.trans hl
    exact ⟨who, rfl⟩

theorem place_of_not_running (h : History ⟨.program place, w, g⟩) (hl : w.running = none) :
    place = none := by
  match place with
  | none => rfl
  | some (k, who) => cases h.tells.turn.1.symm.trans hl

end History

variable {place : Option (Ref × Waker)}

theorem createTask_acts (a : Arguments) : (createTask a).Acts (.program place) := by
  unfold createTask
  refine .bind (.onData (a.check_onData _ _ _)) fun _ => .bind (.onData (coroutineOf_onData _))
    fun _ => .bind (.onData (.mapM_option readText_onData _)) fun _ => .reading fun w g h => ?_
  split
  · exact Op.Acts.fail _ w g h
  · rename_i l hl
    intro v w' hx
    cases hx
    obtain ⟨who, rfl⟩ := h.place_of_running hl
    exact ⟨_, .single .create⟩

theorem newCoroutine_acts (name : String) (p : Pending) :
    (Op.newCoroutine name p).Acts (.program place) :=
  .onMemory (.newCoroutine name p)

theorem callTask_acts (r : Ref) (a : Arguments) : (callTask r .cancel a).Acts (.program place) := by
  refine .bind (.onData (.ofExcept _)) fun _ => .reading fun w g h => ?_
  dsimp only
  split
  · rename_i hcancel
    intro o w' hx
    cases hx
    exact ⟨g, .single (.cancel (World.lt_size_of_hasHandle (Bool.and_eq_true_iff.mp hcancel).1))⟩
  · exact Op.Acts.pure _ w g h

/-- What is left of an await when the task has ended: its outcome is received. -/
def receiveOutcome (r : Ref) : Eval Value := do
  let t := (← Eval.world).task r
  let o := t.outcome.getD cancelledEnding
  Eval.modify fun w => w.setTask r { t with result := some o }
  Eval.ofEnding o

theorem receiveOutcome_acts {r : Ref} {w : World} {g : Ledger} (h : History ⟨.program place, w, g⟩)
    (ho : (w.task r).outcome.isSome = true) :
    (receiveOutcome r).ActsFrom (.program place) w g := by
  obtain ⟨o, ho⟩ := Option.isSome_iff_exists.mp ho
  have hreceive : Act ⟨.program place, w, g⟩
      ⟨.program place, w.setTask r { w.task r with result := some o }, g.receive r o⟩ :=
    .receive ho
  have hgetD : (w.task r).outcome.getD cancelledEnding = o := by rw [ho, Option.getD_some]
  subst hgetD
  refine .reading ?_
  apply Eval.ActsFrom.modifying
  · exact .single hreceive
  · exact Eval.Acts.ofEnding _ _ _ (h.tail hreceive)

/-- Awaiting a task takes the right to do so, waits if the task has not ended, and receives the
outcome. -/
theorem awaitTask_acts (r : Ref) : (awaitTask r).Acts (.program place) := by
  refine .reading fun w g h => ?_
  dsimp only
  split
  · exact Eval.Acts.ofEnding _ w g h
  · split
    · exact Eval.Acts.fail _ w g h
    · rename_i hhandle
      rw [Bool.not_eq_true, Bool.not_eq_false'] at hhandle
      have hr := World.lt_size_of_hasHandle hhandle
      have hclaim : Act ⟨.program place, w, g⟩
          ⟨.program place, w.setTask r { w.task r with hasHandle := false }, g.claim r⟩ := .claim hr
      have hclaimed := h.tail hclaim
      refine .modifying (.single hclaim) ?_
      split
      · refine .modifying (.single .awaitedBy) ?_
        refine .wait .refl fun w' g' h' hover => ?_
        exact receiveOutcome_acts h' hover
      · rename_i houtcome
        refine receiveOutcome_acts hclaimed ?_
        rw [World.task_setTask_self hr, ← Option.not_isNone, Bool.not_eq_true']
        exact Bool.not_eq_true _ ▸ houtcome

theorem sleep_acts (delay : Float) (result : Value) :
    (sleep delay result).Acts (.program place) := by
  refine .bind .world fun w => ?_
  split
  · exact .fail _
  · split
    · exact .fail _
    · split
      · refine .bind (.modify fun _ g _ => ⟨g, .single .sleeps⟩) fun _ => ?_
        exact .bind (.ofRun (.wait _)) fun _ => .pure _
      · refine .bind (.modify fun _ g _ => ⟨g, .single .yields⟩) fun _ => ?_
        exact .bind (.ofRun (.wait _)) fun _ => .pure _

/-! ## Side by side -/

/-- A computation that waits, and goes on by acts when the wait is over. -/
def Suspended.Acts {α : Type} (t : Turn) (s : Suspended α) : Prop :=
  ∀ w g, History ⟨t, w, g⟩ → s.what.isOver w = true → (s.resume w).Acts t ⟨t, w, g⟩

theorem Suspended.Acts.ofRun {α : Type} {t : Turn} {x : Run α} (h : x.Acts t) :
    (Suspended.ofRun x).Acts t :=
  fun w g hw _ => h w g hw

theorem Suspended.Acts.poll {α : Type} {t : Turn} {s : Suspended α} (h : s.Acts t) {w : World}
    {g : Ledger} (hw : History ⟨t, w, g⟩) : (s.poll w).Acts t ⟨t, w, g⟩ := by
  unfold Suspended.poll
  split
  · rename_i hover
    exact h w g hw hover
  · exact .wait .refl h

/-- A member that goes on by acts. -/
def Member.Acts (t : Turn) : Member → Prop
  | .finished _ => True
  | .waiting s => s.Acts t

theorem Member.Polls.acts {t : Turn} {m m' : Member} {w w' : World} {g : Ledger} (hm : m.Polls w m' w')
    (h : m.Acts t) (hw : History ⟨t, w, g⟩) : m'.Acts t ∧ ∃ g', Leads ⟨t, w, g⟩ ⟨t, w', g'⟩ := by
  cases hm with
  | finished o => exact ⟨h, g, .refl⟩
  | waiting hm =>
    have hs := Suspended.Acts.poll h hw
    rw [hm] at hs
    cases m' with
    | finished o =>
      cases hs with
      | done hl => exact ⟨trivial, _, hl⟩
    | waiting s =>
      cases hs with
      | wait hl h => exact ⟨h, _, hl⟩

theorem pollAll_acts {t : Turn} {ms ms' : List Member} (hms : ∀ m ∈ ms, m.Acts t) {w w' : World}
    {g : Ledger} (h : History ⟨t, w, g⟩) (hpoll : Member.pollAll ms w = .ok (ms', w')) :
    (∀ m ∈ ms', m.Acts t) ∧ ∃ g', Leads ⟨t, w, g⟩ ⟨t, w', g'⟩ := by
  refine pollAll_induct (I := fun u => ∃ g', Leads ⟨t, w, g⟩ ⟨t, u, g'⟩) ?_ hms ⟨g, .refl⟩ hpoll
  rintro m m' u u' hm ⟨g₁, hl⟩ hturn
  obtain ⟨hm', g₂, hl'⟩ := hturn.acts hm (h.trans hl)
  exact ⟨hm', g₂, hl.trans hl'⟩

/-- **Computations side by side** are sequences of acts if each of them is. -/
theorem together_acts {t : Turn} (turns : Nat) {ms : List Member} (hms : ∀ m ∈ ms, m.Acts t) :
    (Member.together turns ms).Acts t := by
  induction turns generalizing ms with
  | zero => exact .halt _
  | succ turns ih =>
    intro w g h
    unfold Member.together
    cases hpoll : Member.pollAll ms w with
    | error why => exact .halt
    | ok r =>
      obtain ⟨ms', w'⟩ := r
      obtain ⟨hms', g', hg'⟩ := pollAll_acts hms h hpoll
      dsimp only
      split
      · exact .done hg'
      · exact .wait hg' fun w g hw _ => ih hms' w g hw

/-! ## What closing a loop begins with -/

namespace World

/-- The tasks of a loop that nobody has taken the right to await. -/
def held (w : World) (l : Ref) : List Ref := (w.loop l).tasks.filter fun r => (w.task r).hasHandle

/-- Those of them that have not ended. -/
def unfinished (w : World) (l : Ref) : List Ref :=
  (w.held l).filter fun r => (w.task r).outcome.isNone

/-- The world in which a loop has taken the right to await its tasks. -/
def released (w : World) (l : Ref) : World :=
  (w.held l).foldl (fun w r => w.setTask r { w.task r with hasHandle := false }) w

/-- The world in which a loop is driven for the last time. -/
def closing (w : World) (l : Ref) : World := (w.unfinished l).foldl cancelTask (w.released l)

theorem size_tasks_released (w : World) (l : Ref) :
    (w.released l).tasks.size = w.tasks.size := by
  unfold released
  induction w.held l generalizing w with
  | nil => rfl
  | cons r rs ih => exact (ih _).trans (size_tasks_setTask _ _ _)

theorem lt_size_of_mem_held {w : World} {l r : Ref} (h : r ∈ w.held l) : r < w.tasks.size :=
  lt_size_of_hasHandle (List.mem_filter.mp h).2

theorem lt_size_of_mem_unfinished {w : World} {l r : Ref} (h : r ∈ w.unfinished l) :
    r < (w.released l).tasks.size :=
  (w.size_tasks_released l).symm ▸ lt_size_of_mem_held (List.mem_of_mem_filter h)

end World

theorem closeLoop_eq (start : Ref → Run Ending) (l : Ref) (rounds : Nat) (threads : Threads)
    (w : World) :
    closeLoop start l rounds threads w =
      if (w.unfinished l).isEmpty then .ok (w.released l)
      else do
        let x ← driveOn start l rounds (settle (w.unfinished l)) threads (w.closing l)
        return x.2.2 :=
  rfl

/-! ## Driving a loop -/

/-- The tasks of a loop that wait go on by acts, each in its own turn. -/
def Threads.Acts (l : Ref) (threads : Threads) : Prop :=
  ∀ p ∈ threads, p.2.Acts (.program (some (l, .task p.1)))

namespace Threads.Acts

variable {l : Ref} {threads : Threads}

theorem nil : Acts l [] := List.forall_mem_nil _

theorem filter (h : Acts l threads) (p : Ref × Suspended Ending → Bool) : Acts l (threads.filter p) :=
  fun _ hp => h _ (List.mem_of_mem_filter hp)

theorem cons (h : Acts l threads) {r : Ref} {s : Suspended Ending}
    (hs : s.Acts (.program (some (l, .task r)))) : Acts l ((r, s) :: threads) :=
  List.forall_mem_cons.mpr ⟨hs, h⟩

theorem of_lookup (h : Acts l threads) {r : Ref} {s : Suspended Ending}
    (hs : threads.lookup r = some s) : s.Acts (.program (some (l, .task r))) := by
  induction threads with
  | nil => cases hs
  | cons p threads ih =>
    obtain ⟨r', s'⟩ := p
    rw [Acts, List.forall_mem_cons] at h
    rw [List.lookup_cons] at hs
    split at hs
    · rename_i hr
      cases hs
      exact eq_of_beq hr ▸ h.1
    · exact ih h.2 hs

end Threads.Acts

/-- What has become of a loop that was driven for a while. -/
def HasDriven (l : Ref) (m : Moment) (threads : Threads) (w : World) : Prop :=
  Threads.Acts l threads ∧ ∃ g, Leads m ⟨.loop l, w, g⟩

section

variable {start : Ref → Run Ending}
  (hstart : ∀ (place : Option (Ref × Waker)) (r : Ref), (start r).Acts (.program place))
  {l : Ref} {threads threads' : Threads} {w w' : World} {g : Ledger}

include hstart

/-- A coroutine that has its turn starts or goes on by acts. -/
theorem turn_acts {r : Ref} (ht : Threads.Acts l threads)
    (h : History ⟨.program (some (l, .task r)), w, g⟩) :
    (turn start r threads w).Acts (.program (some (l, .task r)))
      ⟨.program (some (l, .task r)), w, g⟩ := by
  unfold turn
  split
  · rename_i s hs
    exact (ht.of_lookup hs).poll h
  · exact hstart _ _ _ _ h

/-- **The turn of a task:** its coroutine starts or goes on, and it ends or waits after that. -/
theorem runTask_acts {r : Ref} (ht : Threads.Acts l threads)
    (h : History ⟨.program (some (l, .task r)), { w with current := .task r }, g⟩)
    (hrun : runTask start r threads w = .ok (threads', w')) :
    HasDriven l ⟨.program (some (l, .task r)), { w with current := .task r }, g⟩ threads' w' := by
  have hothers := ht.filter (·.1 != r)
  rw [runTask_eq] at hrun
  split at hrun
  · cases hrun
    exact ⟨hothers, _, .single .finish⟩
  · have hturn := turn_acts hstart ht h
    generalize turn start r threads _ = step at hturn hrun
    cases hturn with
    | done hl =>
      cases hrun
      exact ⟨hothers, _, hl.tail .finish⟩
    | wait hl hresume =>
      unfold afterTurn at hrun
      dsimp only at hrun
      split at hrun
      · cases hrun
        exact ⟨hothers, _, hl.tail .finish⟩
      · cases hrun
        exact ⟨hothers.cons hresume, _, hl.tail .wait⟩
    | halt => cases hrun

/-- The turns of the tasks in the queue. -/
theorem runQueue_acts (n : Nat) (ht : Threads.Acts l threads) (h : History ⟨.loop l, w, g⟩)
    (hrun : runQueue start l n threads w = .ok (threads', w')) :
    HasDriven l ⟨.loop l, w, g⟩ threads' w' := by
  induction n generalizing threads w g with
  | zero =>
    cases hrun
    exact ⟨ht, g, .refl⟩
  | succ n ih =>
    unfold runQueue at hrun
    split at hrun
    · cases hrun
      exact ⟨ht, g, .refl⟩
    · rename_i r queue hqueue
      obtain ⟨⟨threads₁, w₁⟩, htask, hrest⟩ := Except.bind_eq_ok.mp hrun
      have hturn : Leads ⟨.loop l, w, g⟩ _ := .single (.turnOfTask hqueue)
      obtain ⟨ht₁, g₁, hg₁⟩ := runTask_acts hstart ht (h.trans hturn) htask
      have hled := hturn.trans hg₁
      obtain ⟨ht', g', hg'⟩ := ih ht₁ (h.trans hled) hrest
      exact ⟨ht', g', hled.trans hg'⟩

omit hstart in
/-- A loop at rest lets timers go off and wakes who has yielded. -/
theorem rest_acts (hrest : rest l w = .ok w') : Leads ⟨.loop l, w, g⟩ ⟨.loop l, w', g⟩ := by
  unfold rest at hrest
  split at hrest
  · cases hrest
    exact .tail (.single .fireTimers) .wakeYielded
  · split at hrest
    · cases hrest
    · rename_i time _ _ _
      cases hrest
      have hnow : Act ⟨.loop l, w, g⟩ ⟨.loop l, { w with now := max w.now time }, g⟩ :=
        .other rfl rfl rfl rfl
      exact .tail (.single hnow) .fireTimers

/-- **A loop is driven** until its root has a result. -/
theorem drive_acts {α : Type} (rounds : Nat) {root : Suspended α} {a : α}
    (hroot : root.Acts (.program (some (l, .root)))) (ht : Threads.Acts l threads)
    (h : History ⟨.loop l, w, g⟩)
    (hdrive : drive start l rounds root threads w = .ok (a, threads', w')) :
    HasDriven l ⟨.loop l, w, g⟩ threads' w' := by
  induction rounds generalizing root threads w g with
  | zero => cases hdrive
  | succ rounds ih =>
    have hgoOn (root : Suspended α) (hroot : root.Acts (.program (some (l, .root))))
        {threads : Threads} (ht : Threads.Acts l threads) {w₁ : World} {g₁ : Ledger}
        (hl : Leads ⟨.loop l, w, g⟩ ⟨.loop l, w₁, g₁⟩)
        (hdrive : (do drive start l rounds root threads (← rest l w₁)) = .ok (a, threads', w')) :
        HasDriven l ⟨.loop l, w, g⟩ threads' w' := by
      obtain ⟨w₂, hrest, hdrive⟩ := Except.bind_eq_ok.mp hdrive
      have hled := hl.trans (rest_acts hrest)
      obtain ⟨ht', g', hg'⟩ := ih hroot ht (h.trans hled) hdrive
      exact ⟨ht', g', hled.trans hg'⟩
    unfold drive at hdrive
    split at hdrive
    · have hturn : Leads ⟨.loop l, w, g⟩ _ := .single .turnOfRoot
      have hpoll := hroot.poll (h.trans hturn)
      dsimp only at hdrive
      generalize root.poll _ = step at hpoll hdrive
      cases hpoll with
      | done hl =>
        cases hdrive
        exact ⟨ht, _, (hturn.trans hl).tail .wait⟩
      | wait hl hresume =>
        have hwait := (hturn.trans hl).tail .wait
        obtain ⟨⟨threads₁, w₁⟩, hqueue, hdrive⟩ := Except.bind_eq_ok.mp hdrive
        obtain ⟨ht₁, g₁, hg₁⟩ := runQueue_acts hstart _ ht (h.trans hwait) hqueue
        dsimp only at hdrive
        split at hdrive
        · exact hgoOn ⟨_, _⟩ hresume ht₁ (hwait.trans hg₁) hdrive
        · exact hgoOn ⟨_, _⟩ hresume ht₁ ((hwait.trans hg₁).tail .wakeRoot) hdrive
      | halt => cases hdrive
    · exact hgoOn root hroot ht .refl hdrive

/-- **A loop is driven** by a program or the host, outside of any loop. -/
theorem driveOn_acts {α : Type} (rounds : Nat) {root : Run α} {a : α}
    (hroot : root.Acts (.program (some (l, .root)))) (ht : Threads.Acts l threads)
    (h : History ⟨.program none, w, g⟩) (hl : l < w.loops.size)
    (hdrive : driveOn start l rounds root threads w = .ok (a, threads', w')) :
    Threads.Acts l threads' ∧ ∃ g', Leads ⟨.program none, w, g⟩ ⟨.program none, w', g'⟩ := by
  have henter : Leads ⟨.program none, w, g⟩ _ := .tail (.single (.enter hl)) .wakeRoot
  obtain ⟨⟨a₁, threads₁, w₁⟩, hdrive, hend⟩ := Except.bind_eq_ok.mp hdrive
  obtain ⟨ht₁, g₁, hg₁⟩ := drive_acts hstart rounds (.ofRun hroot) ht (h.trans henter) hdrive
  cases hend
  have hrunning : w.running = none := h.tells.turn
  refine ⟨ht₁, g₁, (henter.trans hg₁).tail ?_⟩
  rw [hrunning]
  exact .leave

/-! ## Closing a loop -/

omit hstart in
theorem settle_acts {place : Option (Ref × Waker)} (rs : List Ref) :
    (settle rs).Acts (.program place) := by
  induction rs with
  | nil => exact .pure ()
  | cons r rs ih =>
    refine .bind .world fun w => ?_
    dsimp only
    split
    · refine .bind (.modify fun _ g _ => ⟨g, .single .awaitedBy⟩) fun _ => ?_
      exact .bind (.wait _) fun _ => ih
    · exact ih

omit hstart in
/-- Something is done to several tasks, one after the other. -/
theorem leads_foldl {t : Turn} {f : World → Ref → World}
    (hf : ∀ w g r, r < w.tasks.size → ∃ g', Act ⟨t, w, g⟩ ⟨t, f w r, g'⟩)
    (hsize : ∀ w r, (f w r).tasks.size = w.tasks.size) {rs : List Ref}
    (hrs : ∀ r ∈ rs, r < w.tasks.size) : ∃ g', Leads ⟨t, w, g⟩ ⟨t, rs.foldl f w, g'⟩ := by
  induction rs generalizing w g with
  | nil => exact ⟨g, .refl⟩
  | cons r rs ih =>
    rw [List.forall_mem_cons] at hrs
    obtain ⟨g₁, hg₁⟩ := hf w g r hrs.1
    obtain ⟨g', hg'⟩ := ih (w := f w r) (g := g₁) fun s hs => (hsize w r).symm ▸ hrs.2 s hs
    exact ⟨g', .head hg₁ hg'⟩

omit hstart in
/-- What is done to the tasks of a loop before it is driven for the last time are acts: the right to await
them is taken, and those that have not ended are cancelled. -/
theorem closing_acts (w : World) (g : Ledger) (l : Ref) :
    ∃ g₁ g₂, Leads ⟨.program none, w, g⟩ ⟨.program none, w.released l, g₁⟩ ∧
      Leads ⟨.program none, w.released l, g₁⟩ ⟨.program none, w.closing l, g₂⟩ := by
  obtain ⟨g₁, hg₁⟩ := leads_foldl (fun _ g r hr => ⟨g.claim r, .claim hr⟩)
    (fun _ _ => World.size_tasks_setTask _ _ _) (fun _ => World.lt_size_of_mem_held (l := l))
    (t := .program none) (g := g)
  obtain ⟨g₂, hg₂⟩ := leads_foldl (fun _ g r hr => ⟨g, .cancel hr⟩) World.size_tasks_cancelTask
    (fun _ => World.lt_size_of_mem_unfinished (w := w) (l := l)) (t := .program none) (g := g₁)
  exact ⟨g₁, g₂, hg₁, hg₂⟩

/-- **A loop is closed:** its tasks can be awaited no longer, those that have not ended are cancelled, and
it is driven until they have. -/
theorem closeLoop_acts (rounds : Nat) (ht : Threads.Acts l threads) (h : History ⟨.program none, w, g⟩)
    (hl : l < w.loops.size) (hclose : closeLoop start l rounds threads w = .ok w') :
    ∃ g', Leads ⟨.program none, w, g⟩ ⟨.program none, w', g'⟩ := by
  obtain ⟨g₁, g₂, hreleased, hclosing⟩ := closing_acts w g l
  have hled := hreleased.trans hclosing
  rw [closeLoop_eq] at hclose
  split at hclose
  · cases hclose
    exact ⟨g₁, hreleased⟩
  · obtain ⟨⟨u, threads', w₃⟩, hdrive, hend⟩ := Except.bind_eq_ok.mp hclose
    obtain ⟨-, g₃, hg₃⟩ := driveOn_acts hstart rounds (settle_acts (w.unfinished l)) ht (h.trans hled)
      (Nat.lt_of_lt_of_le hl (Leads.size_le hled)) hdrive
    cases hend
    exact ⟨g₃, hled.trans hg₃⟩

/-- **A program drives a coroutine on a loop of its own.** -/
theorem runOnNewLoop_acts (rounds : Nat) (coroutine : Ref) :
    (runOnNewLoop start rounds coroutine).Acts (.program none) := by
  intro w g h
  have hnew : Leads ⟨.program none, w, g⟩ ⟨.program none, w.newLoop.2, g⟩ := .single .newLoop
  have hl : w.newLoop.1 < w.newLoop.2.loops.size :=
    World.size_loops_newLoop w ▸ Nat.lt_succ_self w.loops.size
  rw [runOnNewLoop_eq]
  generalize hr : (do
    let x ← driveOn start w.newLoop.1 rounds (start coroutine) [] w.newLoop.2
    return (x.1, ← closeLoop start w.newLoop.1 rounds x.2.1 x.2.2)) = r
  cases r with
  | error why => exact .halt
  | ok x =>
    obtain ⟨⟨o, threads₁, w₁⟩, hdrive, hr⟩ := Except.bind_eq_ok.mp hr
    obtain ⟨w₂, hclose, hx⟩ := Except.bind_eq_ok.mp hr
    cases hx
    obtain ⟨ht₁, g₁, hg₁⟩ := driveOn_acts hstart rounds (hstart _ coroutine) .nil (h.trans hnew) hl
      hdrive
    have hled := hnew.trans hg₁
    obtain ⟨g₂, hg₂⟩ := closeLoop_acts hstart rounds ht₁ (h.trans hled)
      (Nat.lt_of_lt_of_le hl (Leads.size_le hg₁)) hclose
    exact .done (hled.trans hg₂)

end

end Transcript.Lang
