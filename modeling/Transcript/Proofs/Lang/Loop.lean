import Transcript.Proofs.Lang.Agree
import Mathlib.Data.List.Forall2
import Mathlib.Data.Option.Basic

/-!
# Event loops that agree

Event loops and their tasks make and change no programs. What makes coroutines makes such that await only
where they may. So an event loop that starts coroutines in two ways that agree does the same both times.
Driving a loop never waits itself: it goes on until its root has a result.

Results:
* `Guarded.finishTask`, `Guarded.fireTimers`: what an event loop does keeps worlds whose programs await only
  where they may.
* `callBuiltin_guards`, `callMethod_guards`: so does what comes with the language.
* `awaitTask_agree`, `sleep_agree`: waiting agrees with itself.
* `pollAll_induct`: what each of several computations side by side keeps, all keep.
* `together_agree`: computations side by side agree if they agree one by one.
* `drive_agree`, `closeLoop_agree`: driving and closing a loop.
* `runOnNewLoop_agree`: a loop of its own does not wait.
-/

namespace Transcript.Lang

/-! ## What an event loop does -/

namespace World.Guarded

variable {w : World}

theorem setLoop (h : w.Guarded) (l : Ref) (e : EventLoop) : (w.setLoop l e).Guarded := h.of_eq rfl rfl

theorem setTask (h : w.Guarded) (r : Ref) (t : Task) : (w.setTask r t).Guarded := h.of_eq rfl rfl

theorem wakeRoot (h : w.Guarded) (l : Ref) : (w.wakeRoot l).Guarded := h.setLoop _ _

theorem wakeTask (h : w.Guarded) (r : Ref) : (w.wakeTask r).Guarded := by
  unfold World.wakeTask
  dsimp only
  split
  · exact h
  · exact h.setLoop _ _

theorem wake (h : w.Guarded) (l : Ref) (who : Waker) : (w.wake l who).Guarded := by
  cases who with
  | root => exact h.wakeRoot l
  | task r => exact h.wakeTask r

theorem spawn (h : w.Guarded) (l coroutine : Ref) (name : String) :
    (w.spawn l coroutine name).2.Guarded := by
  refine wakeTask ?_ _
  exact h.of_eq rfl rfl

theorem cancelTask (h : w.Guarded) (r : Ref) : (w.cancelTask r).Guarded := by
  unfold World.cancelTask
  dsimp only
  split
  · exact h.setTask _ _
  · exact (h.setTask _ _).wakeTask _

theorem finishTask (h : w.Guarded) (r : Ref) (o : Ending) : (w.finishTask r o).Guarded := by
  unfold World.finishTask
  dsimp only
  split
  · exact (h.setTask _ _).wake _ _
  · exact h.setTask _ _

theorem awaitedBy (h : w.Guarded) (r : Ref) : (w.awaitedBy r).Guarded := by
  unfold World.awaitedBy
  split
  · exact h.setTask _ _
  · exact h

theorem yields (h : w.Guarded) : w.yields.Guarded := by
  unfold World.yields
  split
  · exact h.setLoop _ _
  · exact h

theorem sleeps (h : w.Guarded) (t : Nat) : (w.sleeps t).Guarded := by
  unfold World.sleeps
  split
  · exact h.setLoop _ _
  · exact h

theorem foldl {α : Type} {f : World → α → World} (hf : ∀ w a, w.Guarded → (f w a).Guarded)
    (h : w.Guarded) (l : List α) : (l.foldl f w).Guarded := by
  induction l generalizing w with
  | nil => exact h
  | cons a as ih => exact ih (hf w a h)

theorem fireTimers (h : w.Guarded) (l : Ref) : (Lang.fireTimers l w).Guarded :=
  foldl (fun _ _ hw => hw.wake l _) (h.setLoop _ _) _

theorem wakeYielded (h : w.Guarded) (l : Ref) : (Lang.wakeYielded l w).Guarded :=
  foldl (fun _ _ hw => hw.wake l _) (h.setLoop _ _) _

end World.Guarded

/-! ## Operations that make programs -/

theorem newCoroutine_guards (name : String) {p : Pending} (hp : p.Guarded) :
    (Op.newCoroutine name p).Guards fun _ => True := by
  intro w a w' hw h
  cases h
  refine ⟨⟨hw.functions, fun c hc q hq => ?_⟩, trivial⟩
  rcases Array.mem_push.mp hc with hc | rfl
  · exact hw.coroutines c hc q hq
  · cases hq
    exact hp

theorem newFunction_guards {g : Function} (hg : g.Guarded) :
    (newFunction g).Guards fun _ => True := by
  intro w a w' hw h
  cases h
  refine ⟨⟨fun f hf => ?_, hw.coroutines⟩, trivial⟩
  rcases Array.mem_push.mp hf with hf | rfl
  · exact hw.functions f hf
  · exact hg

theorem functionAt_guards (r : Ref) : (functionAt r).Guards Function.Guarded := by
  refine .bind .reading fun w hw => .pure ?_
  cases h : w.functions[r]? with
  | none => rfl
  | some g => exact hw.functions g (Array.mem_of_getElem? h)

/-- Starting a coroutine takes its computation away. -/
theorem takePending_guards (r : Ref) : (takePending r).Guards Pending.Guarded := by
  refine .bind .reading fun w hw => ?_
  dsimp only
  split
  · exact .fail _
  · rename_i p hp
    refine .seq ?_ fun _ => .pure ?_
    · intro w₀ a w' _ h
      cases h
      refine ⟨⟨hw.functions, fun c hc q hq => ?_⟩, trivial⟩
      rcases Array.mem_or_eq_of_mem_setIfInBounds hc with hc | rfl
      · exact hw.coroutines c hc q hq
      · cases hq
    · cases h : w.coroutines[r]? with
      | none =>
        rw [h] at hp
        cases hp
      | some c =>
        rw [h] at hp
        exact hw.coroutines c (Array.mem_of_getElem? h) p hp

theorem createTask_guards (a : Arguments) : (createTask a).Guards fun _ => True := by
  unfold createTask
  refine .bind (.of_onData (a.check_onData _ _ _)) fun _ _ => ?_
  refine .bind (.of_onData (coroutineOf_onData _)) fun _ _ => ?_
  refine .bind (.of_onData (.mapM_option readText_onData _)) fun _ _ => .bind .reading fun w hw => ?_
  split
  · exact .fail _
  · refine .seq ?_ fun _ => .pure trivial
    intro w₀ a w' _ h
    cases h
    exact ⟨hw.spawn _ _ _, trivial⟩

/-- **What comes with the language** makes no programs but those of pauses and gatherings. -/
theorem callBuiltin_guards (b : Builtin) (a : Arguments) :
    (callBuiltin b a).Guards fun _ => True := by
  cases b
  case sleep =>
    refine .bind (.of_onData (.ofExcept _)) fun _ _ => ?_
    split
    · exact newCoroutine_guards _ trivial
    · exact .fail _
  case gather => exact .bind (.of_onData (.ofExcept _)) fun _ _ => newCoroutine_guards _ trivial
  case createTask => exact createTask_guards a
  all_goals exact .of_onData (callBuiltin_onData a (by rintro ⟨⟩) (by rintro ⟨⟩) (by rintro ⟨⟩))

theorem callTask_guards (r : Ref) (m : Method) (a : Arguments) :
    (callTask r m a).Guards fun _ => True := by
  by_cases hm : m = .cancel
  · subst hm
    refine .bind (.of_onData (.ofExcept _)) fun _ _ => .bind .reading fun w hw => ?_
    dsimp only
    split
    · refine .seq ?_ fun _ => .pure trivial
      intro w a w' hw h
      cases h
      exact ⟨hw.cancelTask r, trivial⟩
    · exact .pure trivial
  · exact .of_onData (callTask_onData r a hm)

theorem callMethod_guards (receiver : Value) (m : Method) (args : List Value)
    (named : List (String × Value)) : (callMethod receiver m args named).Guards fun _ => True := by
  cases receiver
  case task r => exact .bind (.of_onData (.ofExcept _)) fun _ _ => callTask_guards r m _
  all_goals exact .of_onData (callMethod_onData (by rintro _ ⟨⟩) m args named)

/-! ## Waiting -/

theorem awaitTask_agree (r : Ref) : Eval.Agree true (fun _ => True) (awaitTask r) (awaitTask r) := by
  refine .bind .world fun w _ => ?_
  dsimp only
  split
  · exact .ofEnding _
  · split
    · exact .fail _
    · refine .bind (.modify fun _ hw => hw.setTask _ _) fun _ _ => ?_
      split
      · refine .bind (.modify fun _ hw => hw.awaitedBy _) fun _ _ => .bind (.ofRun (.wait _)) fun _ _ => ?_
        exact .bind .world fun _ _ => .bind (.modify fun _ hw => hw.setTask _ _) fun _ _ => .ofEnding _
      · exact .bind .world fun _ _ => .bind (.modify fun _ hw => hw.setTask _ _) fun _ _ => .ofEnding _

theorem sleep_agree (delay : Float) (result : Value) :
    Eval.Agree true (fun _ => True) (sleep delay result) (sleep delay result) := by
  refine .bind .world fun w _ => ?_
  dsimp only
  split
  · exact .fail _
  · split
    · exact .fail _
    · split
      · refine .bind (.modify fun _ hw => hw.sleeps _) fun _ _ => ?_
        exact .bind (.ofRun (.wait _)) fun _ _ => .pure trivial
      · refine .bind (.modify fun _ hw => hw.yields) fun _ _ => ?_
        exact .bind (.ofRun (.wait _)) fun _ _ => .pure trivial

/-! ## Computations that wait -/

/-- Computations that have not begun agree with leave to wait. -/
abbrev Run.Awaits {α : Type} (x y : Run α) : Prop := Run.Agree true (fun _ => True) x y

/-- Computations that wait for the same, and agree when they go on. -/
structure Suspended.Agree {α : Type} (s s' : Suspended α) : Prop where
  /-- They wait for the same. -/
  what : s'.what = s.what
  /-- They agree when they go on. -/
  resume : Run.Awaits s.resume s'.resume

theorem Suspended.Agree.of_resume {α : Type} {what : Wait} {x y : Run α} (h : Run.Awaits x y) :
    Suspended.Agree ⟨what, x⟩ ⟨what, y⟩ :=
  ⟨rfl, h⟩

theorem Suspended.Agree.poll {α : Type} {s s' : Suspended α} (h : s.Agree s') {w : World}
    (hw : w.Guarded) : (s.poll w).Agree true (fun _ => True) (s'.poll w) := by
  unfold Suspended.poll
  rw [h.what]
  split
  · exact h.resume w hw
  · exact .wait rfl hw h.resume

/-- Results with the same world, whose programs await only where they may. -/
def Alike {α β : Type} (R : α → β → Prop) (x : α × World) (y : β × World) : Prop :=
  R x.1 y.1 ∧ y.2 = x.2 ∧ x.2.Guarded

/-- Results that are related, or none for want of an end. -/
inductive Ends {α β : Type} (R : α → β → Prop) : Except Halt α → Except Halt β → Prop
  | ok {x : α} {y : β} (h : R x y) : Ends R (.ok x) (.ok y)
  | endless : Ends R (.error .endless) (.error .endless)

theorem Ends.bind {α β γ δ : Type} {R : α → β → Prop} {S : γ → δ → Prop} {x : Except Halt α}
    {y : Except Halt β} {f : α → Except Halt γ} {g : β → Except Halt δ} (h : Ends R x y)
    (hf : ∀ a b, R a b → Ends S (f a) (g b)) : Ends S (x >>= f) (y >>= g) := by
  cases h with
  | ok h => exact hf _ _ h
  | endless => exact .endless

/-! ## Side by side -/

/-- How far a member has come. -/
def Member.step (w : World) : Member → Step Ending
  | .finished o => .done o w
  | .waiting s => .wait s.what w s.resume

theorem Member.step_inj {m m' : Member} {w w' : World} (h : m.step w = m'.step w') : m = m' ∧ w = w' := by
  rcases m with o | ⟨what, resume⟩ <;> rcases m' with o' | ⟨what', resume'⟩ <;> cases h
  all_goals exact ⟨rfl, rfl⟩

/-- **What a turn does** with one member: one that waits is polled. -/
inductive Member.Polls (u : World) : Member → Member → World → Prop
  | finished (o : Ending) : Polls u (.finished o) (.finished o) u
  | waiting {s : Suspended Ending} {m : Member} {u' : World} (h : s.poll u = m.step u') :
      Polls u (.waiting s) m u'

section

variable {m : Member} {ms ms' : List Member} {u u' : World}

/-- The first member has its turn, then the others have. -/
theorem pollAll_cons_eq_ok (h : Member.pollAll (m :: ms) u = .ok (ms', u')) :
    ∃ m' ms'' u₁, ms' = m' :: ms'' ∧ m.Polls u m' u₁ ∧ Member.pollAll ms u₁ = .ok (ms'', u') := by
  have hrest (m' : Member) {u₁ : World} (hm : m.Polls u m' u₁)
      (h : (do let r ← Member.pollAll ms u₁; return (m' :: r.1, r.2)) = .ok (ms', u')) :
      ∃ m' ms'' u₁, ms' = m' :: ms'' ∧ m.Polls u m' u₁ ∧ Member.pollAll ms u₁ = .ok (ms'', u') := by
    obtain ⟨⟨ms'', _⟩, hpoll, hr⟩ := Except.bind_eq_ok.mp h
    cases hr
    exact ⟨m', ms'', u₁, rfl, hm, hpoll⟩
  cases m with
  | finished o => exact hrest _ (.finished o) h
  | waiting s =>
    unfold Member.pollAll at h
    cases hs : s.poll u with
    | done o u₁ =>
      rw [hs] at h
      exact hrest (.finished o) (.waiting hs) h
    | wait what u₁ resume =>
      rw [hs] at h
      exact hrest (.waiting ⟨what, resume⟩) (.waiting hs) h
    | halt why =>
      rw [hs] at h
      cases h

/-- **Induction on the turns** of all members: what each of them keeps of the world, all keep. -/
theorem pollAll_induct {P : Member → Prop} {I : World → Prop}
    (hturn : ∀ m m' u u', P m → I u → m.Polls u m' u' → P m' ∧ I u') (hms : ∀ m ∈ ms, P m) (hu : I u)
    (hpoll : Member.pollAll ms u = .ok (ms', u')) : (∀ m ∈ ms', P m) ∧ I u' := by
  induction ms generalizing ms' u with
  | nil =>
    cases hpoll
    exact ⟨List.forall_mem_nil _, hu⟩
  | cons m ms ih =>
    rw [List.forall_mem_cons] at hms
    obtain ⟨m', ms'', u₁, rfl, hm, hpoll⟩ := pollAll_cons_eq_ok hpoll
    obtain ⟨hm', hu₁⟩ := hturn m m' u u₁ hms.1 hu hm
    obtain ⟨hms', hu'⟩ := ih hms.2 hu₁ hpoll
    exact ⟨List.forall_mem_cons.mpr ⟨hm', hms'⟩, hu'⟩

end

/-- Members that have finished in the same way one by one have all finished in the same way. -/
theorem mapM_outcome?_congr {R : Member → Member → Prop} (hR : ∀ m m', R m m' → m'.outcome? = m.outcome?)
    {ms ms' : List Member} (h : List.Forall₂ R ms ms') :
    ms'.mapM Member.outcome? = ms.mapM Member.outcome? := by
  induction h with
  | nil => rfl
  | cons hm _ ih => rw [List.mapM_cons, List.mapM_cons, hR _ _ hm, ih]

/-- Members that agree. -/
inductive Member.Agree : Member → Member → Prop
  | finished (o : Ending) : Agree (.finished o) (.finished o)
  | waiting {s s' : Suspended Ending} (h : s.Agree s') : Agree (.waiting s) (.waiting s')

theorem Member.Agree.outcome? {m m' : Member} (h : m.Agree m') : m'.outcome? = m.outcome? := by
  cases h with
  | finished o => rfl
  | waiting h => rfl

theorem pollAll_agree {ms ms' : List Member} (h : List.Forall₂ Member.Agree ms ms') {w : World}
    (hw : w.Guarded) : Ends (Alike (List.Forall₂ Member.Agree)) (Member.pollAll ms w)
      (Member.pollAll ms' w) := by
  induction h generalizing w with
  | nil => exact .ok ⟨.nil, rfl, hw⟩
  | @cons m m' ms ms' hm _ ih =>
    have hrest {m m' : Member} (hm : m.Agree m') {w : World} (hw : w.Guarded) :
        Ends (Alike (List.Forall₂ Member.Agree))
          (do let r ← Member.pollAll ms w; return (m :: r.1, r.2))
          (do let r ← Member.pollAll ms' w; return (m' :: r.1, r.2)) :=
      .bind (ih hw) fun _ _ hr => .ok ⟨.cons hm hr.1, hr.2⟩
    cases hm with
    | finished o =>
      unfold Member.pollAll
      exact hrest (.finished o) hw
    | @waiting s s' hs =>
      have hpoll := hs.poll hw
      unfold Member.pollAll
      dsimp only
      generalize s.poll w = t at hpoll ⊢
      generalize s'.poll w = t' at hpoll ⊢
      cases hpoll with
      | done hw' _ => exact hrest (.finished _) hw'
      | wait _ hw' h => exact hrest (.waiting (.of_resume h)) hw'
      | endless => exact .endless

/-- **Computations side by side** agree if they agree one by one. -/
theorem together_agree (turns : Nat) {ms ms' : List Member} (h : List.Forall₂ Member.Agree ms ms') :
    Run.Awaits (Member.together turns ms) (Member.together turns ms') := by
  induction turns generalizing ms ms' with
  | zero => exact .endless
  | succ turns ih =>
    intro w hw
    have hpoll := pollAll_agree h hw
    unfold Member.together
    generalize Member.pollAll ms w = r at hpoll ⊢
    generalize Member.pollAll ms' w = r' at hpoll ⊢
    cases hpoll with
    | endless => exact .endless
    | ok hr =>
      rename_i r r'
      obtain ⟨ms, w₁⟩ := r
      obtain ⟨ms', w₁'⟩ := r'
      obtain ⟨hms, rfl, hw'⟩ := hr
      dsimp only at hms ⊢
      rw [mapM_outcome?_congr (fun _ _ hm => hm.outcome?) hms]
      split
      · exact .done hw' trivial
      · exact .wait rfl hw' (ih hms)

/-! ## Tasks -/

/-- The same tasks wait, with computations that are related. -/
abbrev Threads.Rel (R : Ref → Suspended Ending → Suspended Ending → Prop) (threads threads' : Threads) :
    Prop :=
  List.Forall₂ (fun p p' => p'.1 = p.1 ∧ R p.1 p.2 p'.2) threads threads'

namespace Threads.Rel

variable {R : Ref → Suspended Ending → Suspended Ending → Prop} {threads threads' : Threads}

theorem filter (h : Rel R threads threads') (r : Ref) :
    Rel R (threads.filter (·.1 != r)) (threads'.filter (·.1 != r)) := by
  induction h with
  | nil => exact .nil
  | cons hp _ ih =>
    rw [List.filter_cons, List.filter_cons, hp.1]
    split
    · exact .cons hp ih
    · exact ih

theorem lookup (h : Rel R threads threads') (r : Ref) :
    Option.Rel (R r) (threads.lookup r) (threads'.lookup r) := by
  induction h with
  | nil => exact .none
  | @cons p p' _ _ hp _ ih =>
    obtain ⟨s, x⟩ := p
    obtain ⟨s', x'⟩ := p'
    obtain ⟨hs, hx⟩ := hp
    change s' = s at hs
    subst hs
    rw [List.lookup_cons, List.lookup_cons]
    by_cases hr : r = s'
    · subst hr
      rw [beq_self_eq_true]
      exact .some hx
    · rw [beq_false_of_ne hr]
      exact ih

end Threads.Rel

/-- Tasks that wait for the same, and agree when they go on. -/
abbrev Threads.Agree : Threads → Threads → Prop := Threads.Rel fun _ => Suspended.Agree

/-- A turn of a task: it goes on, or it starts. -/
def turn (start : Ref → Run Ending) (r : Ref) (threads : Threads) (w : World) : Step Ending :=
  match threads.lookup r with
  | some s => s.poll w
  | none => start (w.task r).coroutine w

/-- What becomes of a task and the others after its turn. -/
def afterTurn (r : Ref) (others : Threads) : Step Ending → Except Halt (Threads × World)
  | .done o w => .ok (others, w.finishTask r o)
  | .wait what w resume =>
    if (w.task r).cancelled then .ok (others, w.finishTask r cancelledEnding)
    else .ok ((r, ⟨what, resume⟩) :: others, w)
  | .halt why => .error why

theorem runTask_eq (start : Ref → Run Ending) (r : Ref) (threads : Threads) (w : World) :
    runTask start r threads w =
      if (w.task r).cancelled then
        .ok (threads.filter (·.1 != r), { w with current := .task r }.finishTask r cancelledEnding)
      else
        afterTurn r (threads.filter (·.1 != r)) (turn start r threads { w with current := .task r }) :=
  rfl

/-- The world in which a loop has rested is the same, if there is one. -/
theorem rest_agree (l : Ref) {w : World} (hw : w.Guarded) :
    Ends (fun w w' => w' = w ∧ w.Guarded) (rest l w) (rest l w) := by
  unfold rest
  split
  · exact .ok ⟨rfl, (hw.fireTimers l).wakeYielded l⟩
  · split
    · exact .endless
    · have hnow (t : Nat) : ({ w with now := t } : World).Guarded := hw.of_eq rfl rfl
      exact .ok ⟨rfl, (hnow _).fireTimers l⟩

section

variable {start start' : Ref → Run Ending} (hstart : ∀ r, Run.Awaits (start r) (start' r)) (l : Ref)

include hstart

theorem runTask_agree (r : Ref) {threads threads' : Threads} (ht : Threads.Agree threads threads')
    {w : World} (hw : w.Guarded) : Ends (Alike Threads.Agree) (runTask start r threads w)
      (runTask start' r threads' w) := by
  have hcurrent : ({ w with current := .task r } : World).Guarded := hw.of_eq rfl rfl
  rw [runTask_eq, runTask_eq]
  split
  · exact .ok ⟨ht.filter r, rfl, hcurrent.finishTask r _⟩
  · have hturn : Step.Agree true (fun _ => True) (turn start r threads { w with current := .task r })
        (turn start' r threads' { w with current := .task r }) := by
      have hlookup := ht.lookup r
      unfold turn
      generalize threads.lookup r = o at hlookup ⊢
      generalize threads'.lookup r = o' at hlookup ⊢
      cases hlookup with
      | some hs => exact hs.poll hcurrent
      | none => exact hstart _ _ hcurrent
    generalize turn start r threads _ = t at hturn ⊢
    generalize turn start' r threads' _ = t' at hturn ⊢
    cases hturn with
    | done hw' _ => exact .ok ⟨ht.filter r, rfl, hw'.finishTask r _⟩
    | wait _ hw' h =>
      dsimp only [afterTurn]
      split
      · exact .ok ⟨ht.filter r, rfl, hw'.finishTask r _⟩
      · exact .ok ⟨.cons ⟨rfl, .of_resume h⟩ (ht.filter r), rfl, hw'⟩
    | endless => exact .endless

theorem runQueue_agree (n : Nat) {threads threads' : Threads} (ht : Threads.Agree threads threads')
    {w : World} (hw : w.Guarded) : Ends (Alike Threads.Agree) (runQueue start l n threads w)
      (runQueue start' l n threads' w) := by
  induction n generalizing threads threads' w with
  | zero => exact .ok ⟨ht, rfl, hw⟩
  | succ n ih =>
    unfold runQueue
    split
    · exact .ok ⟨ht, rfl, hw⟩
    · refine .bind (runTask_agree hstart _ ht (hw.setLoop l _)) fun x x' hx => ?_
      obtain ⟨threads, w⟩ := x
      obtain ⟨threads', w'⟩ := x'
      obtain ⟨ht', rfl, hw'⟩ := hx
      exact ih ht' hw'

/-! ## Driving -/

/-- Results of driving a loop that are the same, with tasks that agree. -/
abbrev Driven {α : Type} : α × Threads × World → α × Threads × World → Prop :=
  fun x y => y.1 = x.1 ∧ Alike Threads.Agree x.2 y.2

/-- **Driving a loop:** computations that agree have the same result. -/
theorem drive_agree {α : Type} (rounds : Nat) {root root' : Suspended α} (hroot : root.Agree root')
    {threads threads' : Threads} (ht : Threads.Agree threads threads') {w : World} (hw : w.Guarded) :
    Ends Driven (drive start l rounds root threads w) (drive start' l rounds root' threads' w) := by
  induction rounds generalizing root root' threads threads' w with
  | zero => exact .endless
  | succ rounds ih =>
    have hgoOn {root root' : Suspended α} (hroot : root.Agree root') {threads threads' : Threads}
        (ht : Threads.Agree threads threads') {w : World} (hw : w.Guarded) :
        Ends Driven (do drive start l rounds root threads (← rest l w))
          (do drive start' l rounds root' threads' (← rest l w)) := by
      refine .bind (rest_agree l hw) fun w w' h => ?_
      obtain ⟨rfl, hw'⟩ := h
      exact ih hroot ht hw'
    unfold drive
    split
    · have hcurrent : World.Guarded
          { w.setLoop l { w.loop l with rootWoken := false } with current := .root } :=
        hw.of_eq rfl rfl
      have hpoll := hroot.poll hcurrent
      dsimp only
      generalize root.poll _ = t at hpoll ⊢
      generalize root'.poll _ = t' at hpoll ⊢
      cases hpoll with
      | done hw' _ => exact .ok ⟨rfl, ht, rfl, hw'⟩
      | wait _ hw' h =>
        refine .bind (runQueue_agree hstart l _ ht hw') fun x x' hx => ?_
        obtain ⟨threads, w⟩ := x
        obtain ⟨threads', w'⟩ := x'
        obtain ⟨ht', rfl, hw'⟩ := hx
        dsimp only
        split
        · exact hgoOn (.of_resume h) ht' hw'
        · exact hgoOn (.of_resume h) ht' (hw'.wakeRoot l)
      | endless => exact .endless
    · exact hgoOn hroot ht hw

theorem driveOn_agree {α : Type} (rounds : Nat) {root root' : Run α} (hroot : Run.Awaits root root')
    {threads threads' : Threads} (ht : Threads.Agree threads threads') {w : World} (hw : w.Guarded) :
    Ends Driven (driveOn start l rounds root threads w)
      (driveOn start' l rounds root' threads' w) := by
  have hrunning : ({ w with running := some l } : World).Guarded := hw.of_eq rfl rfl
  refine .bind (drive_agree hstart l rounds (.of_resume hroot) ht (hrunning.wakeRoot l))
    fun x x' hx => ?_
  obtain ⟨a, threads, w⟩ := x
  obtain ⟨a', threads', w'⟩ := x'
  obtain ⟨rfl, ht', rfl, hw'⟩ := hx
  exact .ok ⟨rfl, ht', rfl, hw'.of_eq rfl rfl⟩

/-! ## Closing -/

omit hstart in
theorem settle_agree (rs : List Ref) : Run.Awaits (settle rs) (settle rs) := by
  induction rs with
  | nil => exact .pure trivial
  | cons r rs ih =>
    refine .bind .world fun w _ => ?_
    dsimp only
    split
    · refine .bind (.modify fun _ hw => hw.awaitedBy r) fun _ _ => ?_
      exact .bind (.wait _) fun _ _ => ih
    · exact ih

/-- **Closing a loop** leaves the same world. -/
theorem closeLoop_agree (rounds : Nat) {threads threads' : Threads}
    (ht : Threads.Agree threads threads') {w : World} (hw : w.Guarded) :
    Ends (fun w w' => w' = w ∧ w.Guarded) (closeLoop start l rounds threads w)
      (closeLoop start' l rounds threads' w) := by
  have hheld (held : List Ref) :
      (held.foldl (fun w r => w.setTask r { w.task r with hasHandle := false }) w).Guarded :=
    hw.foldl (fun _ _ hw => hw.setTask _ _) held
  unfold closeLoop
  dsimp only
  split
  · exact .ok ⟨rfl, hheld _⟩
  · refine .bind (driveOn_agree hstart l rounds (settle_agree _) ht ?_) fun x x' hx => ?_
    · exact (hheld _).foldl (fun _ r hw => hw.cancelTask r) _
    obtain ⟨a, threads, w⟩ := x
    obtain ⟨a', threads', w'⟩ := x'
    obtain ⟨-, -, rfl, hw'⟩ := hx
    exact .ok ⟨rfl, hw'⟩

end

/-- A result as the last step of a run. -/
def Step.ofEnd {α : Type} : Except Halt (α × World) → Step α
  | .ok (a, w) => .done a w
  | .error why => .halt why

theorem Ends.ofEnd {α : Type} {x y : Except Halt (α × World)} (h : Ends (Alike (· = ·)) x y) :
    Step.Agree false (fun _ => True) (Step.ofEnd x) (Step.ofEnd y) := by
  cases h with
  | @ok x y h =>
    obtain ⟨ha, hw, hguarded⟩ := h
    unfold Step.ofEnd
    dsimp only
    rw [← ha, hw]
    exact .done hguarded trivial
  | endless => exact .endless

theorem runOnNewLoop_eq (start : Ref → Run Ending) (rounds : Nat) (coroutine : Ref) (w : World) :
    runOnNewLoop start rounds coroutine w =
      Step.ofEnd (do
        let x ← driveOn start w.newLoop.1 rounds (start coroutine) [] w.newLoop.2
        return (x.1, ← closeLoop start w.newLoop.1 rounds x.2.1 x.2.2)) := by
  unfold runOnNewLoop
  dsimp only [World.newLoop]
  generalize driveOn start _ rounds _ _ _ = r
  rcases r with why | ⟨o, threads, w'⟩
  · rfl
  · simp only [Except.ok_bind]
    cases closeLoop start w.loops.size rounds threads w' <;> rfl

/-- **A loop of its own** does not wait: it goes on until its coroutine has a result. -/
theorem runOnNewLoop_agree {start start' : Ref → Run Ending}
    (hstart : ∀ r, Run.Awaits (start r) (start' r)) (rounds : Nat) (coroutine : Ref) :
    Run.Agree false (fun _ => True) (runOnNewLoop start rounds coroutine)
      (runOnNewLoop start' rounds coroutine) := by
  intro w hw
  have hnew : w.newLoop.2.Guarded := hw.of_eq rfl rfl
  rw [runOnNewLoop_eq, runOnNewLoop_eq]
  refine Ends.ofEnd (.bind (driveOn_agree hstart _ rounds (hstart coroutine) .nil hnew)
    fun x x' hx => ?_)
  obtain ⟨a, threads, w⟩ := x
  obtain ⟨a', threads', w'⟩ := x'
  obtain ⟨rfl, ht, rfl, hw'⟩ := hx
  refine .bind (closeLoop_agree hstart _ rounds ht hw') fun w w' h => ?_
  obtain ⟨rfl, hw'⟩ := h
  exact .ok ⟨rfl, rfl, hw'⟩

end Transcript.Lang
