import Transcript.Proofs.Lang.Beside
import Transcript.Proofs.Lang.TwinCall

/-!
# Driving the loops of twins

Two event loops that were made by the runs in worlds that are twins are driven alike, if the coroutines of
their tasks are twins when they start: each round leaves worlds that are twins, so both loops come to results
that are related, or both have no end. The same holds for closing them.

Results:
* `awaitTask_twins`, `sleep_twins`, `together_twins`: those who wait.
* `runTask_twins`, `runQueue_twins`: turns of tasks.
* `drive_twins`, `closeLoop_twins`: driving and closing a loop.
* `runOnNewLoop_twins`: a loop of its own.
-/

namespace Transcript.Lang

variable {L : Link} {place : Option (Ref × Ref)} {α β : Type} {R : α → β → Prop}

/-! ## Those who wait -/

theorem World.Twins.isOver {w w' : World} (h : w.Twins L w') {what what' : Wait} (hwhat : what.Twins L what') :
    what'.isOver w' = what.isOver w := by
  unfold Wait.isOver
  cases hwhat with
  | turn => rfl
  | @time t t' ht =>
    have hnow := h.now
    unfold Link.Times at ht hnow
    dsimp only
    rw [decide_eq_decide]
    omega
  | task hr =>
    dsimp only
    rw [both_isSome (h.task hr).outcome]

theorem cancelledEnding_eq : cancelledEnding = .error ⟨.cancelledError, []⟩ := by
  have hmessage : Problem.cancelled.message.toList = [] := by
    unfold Problem.message
    exact String.toList_empty
  unfold cancelledEnding Problem.raised
  dsimp only
  rw [hmessage]
  rfl

theorem cancelledEnding_twins : L.Endings cancelledEnding cancelledEnding := by
  rw [cancelledEnding_eq]
  exact .error ⟨rfl, .nil⟩

theorem receiveOutcome_twins {r r' : Ref} (hr : L.Pairs .task r r') :
    Eval.Twins L place (Value.Twins L) (receiveOutcome r) (receiveOutcome r') := by
  intro w w' hw
  have ho : L.Endings ((w.task r).outcome.getD cancelledEnding) ((w'.task r').outcome.getD cancelledEnding) :=
    both_getD (hw.task hr).outcome cancelledEnding_twins
  exact .done ho (hw.updateTask hr fun ht => { ht with result := .some ho })

theorem awaitTask_twins {r r' : Ref} (hr : L.Pairs .task r r') :
    Eval.Twins L place (Value.Twins L) (awaitTask r) (awaitTask r') := by
  intro w w' hw
  have ht := hw.task hr
  have hresult := ht.result
  have hnone : (w'.task r').outcome.isNone = (w.task r).outcome.isNone := by
    rw [← Option.not_isSome, ← Option.not_isSome, both_isSome ht.outcome]
  have htaken : World.TwinsAt L place (w.setTask r { w.task r with hasHandle := false })
      (w'.setTask r' { w'.task r' with hasHandle := false }) :=
    hw.updateTask hr fun ht => { ht with hasHandle := rfl }
  rw [awaitTask_run, awaitTask_run, ht.hasHandle, hnone]
  generalize (w.task r).result = o at hresult ⊢
  generalize (w'.task r').result = o' at hresult ⊢
  cases hresult with
  | some ho => exact .done ho hw
  | none =>
    dsimp only
    split
    · split
      · exact .wait (.task hr) (htaken.awaitedBy hr) (receiveOutcome_twins hr)
      · exact receiveOutcome_twins hr _ _ htaken
    · exact Eval.Twins.refuse (R := Value.Twins L) .handleTaken nofun w w' hw

theorem sleep_twins (delay : Float) {v v' : Value} (hv : v.Twins L v') :
    Eval.Twins L place (Value.Twins L) (sleep delay v) (sleep delay v') := by
  intro w w' hw
  have hrunning : w'.running.isNone = w.running.isNone := by
    rw [hw.running, hw.running', Option.isNone_map, Option.isNone_map]
  have htime : L.Times (w.now + nanoseconds delay) (w'.now + nanoseconds delay) := by
    have hnow := hw.now
    unfold Link.Times at hnow ⊢
    omega
  have hdone (u u' : World) (hu : u.TwinsAt L place u') :
      Step.Twins L place L.Endings (.done (.ok v) u) (.done (.ok v') u') :=
    .done (.ok hv) hu
  rw [sleep_run, sleep_run, hrunning]
  split
  · exact Eval.Twins.refuse (R := Value.Twins L) .noRunningLoop nofun w w' hw
  · split
    · exact Eval.Twins.refuse (R := Value.Twins L) .notANumber nofun w w' hw
    · split
      · exact .wait (.time htime) (hw.sleeps htime) hdone
      · exact .wait .turn hw.yields hdone

/-! ## Side by side -/

/-- Computations that wait for the same, and are twins when they go on. -/
structure Suspended.Twins (L : Link) (place : Option (Ref × Ref)) (R : α → β → Prop) (s : Suspended α)
    (s' : Suspended β) : Prop where
  /-- They wait for the same. -/
  what : s.what.Twins L s'.what
  /-- They are twins when they go on. -/
  resume : Run.Twins L place R s.resume s'.resume

theorem Suspended.Twins.of_resume {what what' : Wait} (hwhat : what.Twins L what') {x : Run α} {y : Run β}
    (h : Run.Twins L place R x y) : Suspended.Twins L place R ⟨what, x⟩ ⟨what', y⟩ :=
  ⟨hwhat, h⟩

theorem Suspended.Twins.ofRun {x : Run α} {y : Run β} (h : Run.Twins L place R x y) :
    Suspended.Twins L place R (.ofRun x) (.ofRun y) :=
  ⟨.turn, h⟩

theorem Suspended.Twins.poll {s : Suspended α} {s' : Suspended β} (h : s.Twins L place R s') {w w' : World}
    (hw : w.TwinsAt L place w') : (s.poll w).Twins L place R (s'.poll w') := by
  unfold Suspended.poll
  rw [hw.isOver h.what]
  split
  · exact h.resume w w' hw
  · exact .wait h.what hw h.resume

/-- Members that are twins. -/
inductive Member.Twins (L : Link) (place : Option (Ref × Ref)) : Member → Member → Prop
  | finished {o o' : Ending} (h : L.Endings o o') : Twins L place (.finished o) (.finished o')
  | waiting {s s' : Suspended Ending} (h : s.Twins L place L.Endings s') : Twins L place (.waiting s) (.waiting s')

theorem Member.Twins.outcome? {m m' : Member} (h : m.Twins L place m') :
    Option.Rel L.Endings m.outcome? m'.outcome? := by
  cases h with
  | finished h => exact .some h
  | waiting h => exact .none

theorem mapM_outcome?_twins {ms ms' : List Member} (h : List.Forall₂ (Member.Twins L place) ms ms') :
    Option.Rel (List.Forall₂ L.Endings) (ms.mapM Member.outcome?) (ms'.mapM Member.outcome?) := by
  have hsequential : SequentialBoth Option fun _ _ R o o' => Option.Rel R o o' :=
    ⟨.some, fun h hf => by
      cases h with
      | none => exact .none
      | some h => exact hf _ _ h⟩
  exact hsequential.mapM h fun _ _ hm => hm.outcome?

theorem pollAll_twins {ms ms' : List Member} (h : List.Forall₂ (Member.Twins L place) ms ms') {w w' : World}
    (hw : w.TwinsAt L place w') :
    Except.Both (· = ·) (fun p q => List.Forall₂ (Member.Twins L place) p.1 q.1 ∧ p.2.TwinsAt L place q.2)
      (Member.pollAll ms w) (Member.pollAll ms' w') := by
  induction h generalizing w w' with
  | nil => exact .ok ⟨.nil, hw⟩
  | @cons m m' ms ms' hm _ ih =>
    have hrest {m m' : Member} (hm : m.Twins L place m') {w w' : World} (hw : w.TwinsAt L place w') :
        Except.Both (· = ·) (fun p q => List.Forall₂ (Member.Twins L place) p.1 q.1 ∧ p.2.TwinsAt L place q.2)
          (do let r ← Member.pollAll ms w; return (m :: r.1, r.2))
          (do let r ← Member.pollAll ms' w'; return (m' :: r.1, r.2)) :=
      (ih hw).bind fun _ _ hr => .ok ⟨.cons hm hr.1, hr.2⟩
    cases hm with
    | finished ho =>
      unfold Member.pollAll
      exact hrest (.finished ho) hw
    | @waiting s s' hs =>
      have hpoll := hs.poll hw
      unfold Member.pollAll
      dsimp only
      generalize s.poll w = t at hpoll ⊢
      generalize s'.poll w' = t' at hpoll ⊢
      cases hpoll with
      | done ho hw' => exact hrest (.finished ho) hw'
      | wait hwhat hw' h => exact hrest (.waiting (.of_resume hwhat h)) hw'
      | halt why => exact .error rfl

/-- **Computations side by side** are twins if they are one by one. -/
theorem together_twins (turns : Nat) {ms ms' : List Member} (h : List.Forall₂ (Member.Twins L place) ms ms') :
    Run.Twins L place (List.Forall₂ L.Endings) (Member.together turns ms) (Member.together turns ms') := by
  induction turns generalizing ms ms' with
  | zero => exact .halt _
  | succ turns ih =>
    intro w w' hw
    have hpoll := pollAll_twins h hw
    unfold Member.together
    generalize Member.pollAll ms w = r at hpoll ⊢
    generalize Member.pollAll ms' w' = r' at hpoll ⊢
    cases hpoll with
    | @error why why' hwhy =>
      subst hwhy
      exact .halt _
    | @ok p q hpq =>
      obtain ⟨hms, hw'⟩ := hpq
      have hos := mapM_outcome?_twins hms
      dsimp only
      generalize p.1.mapM Member.outcome? = o at hos ⊢
      generalize q.1.mapM Member.outcome? = o' at hos ⊢
      cases hos with
      | some hos => exact .done hos hw'
      | none => exact .wait .turn hw' (ih hms)

/-! ## Turns of tasks -/

/-- **Worlds that are twins between the turns** of two loops that are driven. -/
structure World.TwinsOn (L : Link) (l l' : Ref) (w w' : World) : Prop extends World.Twins L w w' where
  running : w.running = some l
  running' : w'.running = some l'

theorem World.TwinsAt.on {l l' : Ref} {w w' : World} (h : w.TwinsAt L (some (l, l')) w') : w.TwinsOn L l l' w' :=
  ⟨h.toTwins, h.running, h.running'⟩

/-- Tasks that wait and are twins when they go on. -/
abbrev Threads.Twins (L : Link) (place : Option (Ref × Ref)) : Threads → Threads → Prop :=
  List.Forall₂ fun p p' => L.Pairs .task p.1 p'.1 ∧ p.2.Twins L place L.Endings p'.2

namespace Threads.Twins

variable {threads threads' : Threads} {r r' : Ref}

theorem others (h : Threads.Twins L place threads threads') (hr : L.Pairs .task r r') :
    Threads.Twins L place (threads.filter (·.1 != r)) (threads'.filter (·.1 != r')) :=
  both_filter h fun _ _ hp => congrArg Bool.not (hp.1.beq hr)

theorem lookup (h : Threads.Twins L place threads threads') (hr : L.Pairs .task r r') :
    Option.Rel (Suspended.Twins L place L.Endings) (threads.lookup r) (threads'.lookup r') := by
  induction h with
  | nil => exact .none
  | @cons p p' _ _ hp _ ih =>
    obtain ⟨q, s⟩ := p
    obtain ⟨q', s'⟩ := p'
    obtain ⟨hq, hs⟩ := hp
    change L.Pairs .task q q' at hq
    rw [List.lookup_cons, List.lookup_cons, hr.beq hq]
    cases r == q with
    | true => exact .some hs
    | false => exact ih

end Threads.Twins

/-- Tasks that wait, and worlds, that are twins between two turns. -/
abbrev Link.Between (L : Link) (l l' : Ref) (x y : Threads × World) : Prop :=
  Threads.Twins L (some (l, l')) x.1 y.1 ∧ x.2.TwinsOn L l l' y.2

theorem World.TwinsOn.finishTask {l l' r r' : Ref} {w w' : World} (h : w.TwinsOn L l l' w')
    (hr : L.Pairs .task r r') (hnew : L.New .task r) {o o' : Ending} (ho : L.Endings o o') :
    (w.finishTask r o).TwinsOn L l l' (w'.finishTask r' o') := by
  have hrunning (w : World) (r : Ref) (o : Ending) : (w.finishTask r o).running = w.running := by
    unfold World.finishTask
    dsimp only
    split
    · exact World.running_wake _ _ _
    · rfl
  exact ⟨h.toTwins.finishTask hr hnew ho, (hrunning _ _ _).trans h.running, (hrunning _ _ _).trans h.running'⟩

section

variable {l l' : Ref} {threads threads' : Threads} {w w' : World}

/-- What becomes of tasks after their turns. -/
theorem afterTurn_twins (ht : Threads.Twins L (some (l, l')) threads threads') {r r' : Ref}
    (hr : L.Pairs .task r r') (hnew : L.New .task r) {s s' : Step Ending}
    (hs : s.Twins L (some (l, l')) L.Endings s') :
    Except.Both (· = ·) (L.Between l l') (afterTurn r threads s) (afterTurn r' threads' s') := by
  cases hs with
  | done ho hw => exact .ok ⟨ht, hw.on.finishTask hr hnew ho⟩
  | wait hwhat hw h =>
    unfold afterTurn
    dsimp only
    rw [(hw.task hr).cancelled]
    split
    · exact .ok ⟨ht, hw.on.finishTask hr hnew cancelledEnding_twins⟩
    · exact .ok ⟨.cons ⟨hr, .of_resume hwhat h⟩ ht, hw.on⟩
  | halt why => exact .error rfl

variable {start : Ref → Run Ending}
  (hstart : ∀ place c c', L.Pairs .coroutine c c' → Run.Twins L place L.Endings (start c) (start c'))
  (hl : L.Fresh .loop l l')

include hstart hl

/-- **A turn of a task.** -/
theorem runTask_twins (ht : Threads.Twins L (some (l, l')) threads threads') (hw : w.TwinsOn L l l' w')
    {r r' : Ref} (hr : L.Pairs .task r r') (hlt : r < w.tasks.size) (hnew : L.New .task r) :
    Except.Both (· = ·) (L.Between l l') (runTask start r threads w) (runTask start r' threads' w') := by
  have hturn : World.TwinsAt L (some (l, l')) { w with current := .task r } { w' with current := .task r' } :=
    .of_driven hw.toTwins hl hw.running hw.running' (.task hr hlt)
  rw [runTask_eq, runTask_eq, (hw.task hr).cancelled]
  split
  · exact .ok ⟨ht.others hr, hturn.on.finishTask hr hnew cancelledEnding_twins⟩
  · refine afterTurn_twins (ht.others hr) hr hnew ?_
    have hlookup := ht.lookup hr
    have hcoroutine := (hw.task_of_lt hr hlt).coroutine hnew
    unfold turn
    generalize threads.lookup r = o at hlookup ⊢
    generalize threads'.lookup r' = o' at hlookup ⊢
    cases hlookup with
    | some hs => exact hs.poll hturn
    | none => exact hstart _ _ _ hcoroutine _ _ hturn

/-- **Tasks that are ready** have their turns. -/
theorem runQueue_twins (n : Nat) (ht : Threads.Twins L (some (l, l')) threads threads')
    (hw : w.TwinsOn L l l' w') :
    Except.Both (· = ·) (L.Between l l') (runQueue start l n threads w) (runQueue start l' n threads' w') := by
  induction n generalizing threads threads' w w' with
  | zero => exact .ok ⟨ht, hw⟩
  | succ n ih =>
    have hloop := hw.loop hl
    have hqueue := hloop.queue
    have hready := hloop.ready
    unfold runQueue
    generalize hq : (w.loop l).queue = queue at hqueue hready ⊢
    generalize hq' : (w'.loop l').queue = queue' at hqueue ⊢
    cases hqueue with
    | nil => exact .ok ⟨ht, hw⟩
    | @cons r r' rest rest' hr hrest =>
      obtain ⟨⟨hlt, hnew⟩, hready⟩ := List.forall_mem_cons.mp hready
      have hleft : World.TwinsOn L l l' (w.setLoop l { w.loop l with queue := rest })
          (w'.setLoop l' { w'.loop l' with queue := rest' }) :=
        ⟨hw.toTwins.setLoop hl { hloop with queue := hrest, ready := hready }, hw.running, hw.running'⟩
      exact (runTask_twins hstart hl ht hleft hr hlt hnew).bind fun x y hxy => ih hxy.1 hxy.2

/-! ## Driving -/

/-- **Driving two loops** whose roots are twins. -/
theorem drive_twins (rounds : Nat) {root : Suspended α} {root' : Suspended β}
    (hroot : root.Twins L (some (l, l')) R root') (ht : Threads.Twins L (some (l, l')) threads threads')
    (hw : w.TwinsOn L l l' w') :
    Except.Both (· = ·) (fun x y => R x.1 y.1 ∧ L.Between l l' x.2 y.2) (drive start l rounds root threads w)
      (drive start l' rounds root' threads' w') := by
  induction rounds generalizing root root' threads threads' w w' with
  | zero => exact .error rfl
  | succ rounds ih =>
    have hgoOn {root : Suspended α} {root' : Suspended β} (hroot : root.Twins L (some (l, l')) R root')
        {threads threads' : Threads} (ht : Threads.Twins L (some (l, l')) threads threads') {w w' : World}
        (hw : w.TwinsOn L l l' w') :
        Except.Both (· = ·) (fun x y => R x.1 y.1 ∧ L.Between l l' x.2 y.2)
          (do drive start l rounds root threads (← rest l w))
          (do drive start l' rounds root' threads' (← rest l' w')) := by
      have hrest := hw.toTwins.rest hl
      cases hr : rest l w with
      | error why =>
        cases hr' : rest l' w' with
        | error why' =>
          rw [hr, hr'] at hrest
          cases hrest with
          | error h => exact .error h
        | ok u' =>
          rw [hr, hr'] at hrest
          cases hrest
      | ok u =>
        cases hr' : rest l' w' with
        | error why' =>
          rw [hr, hr'] at hrest
          cases hrest
        | ok u' =>
          rw [hr, hr'] at hrest
          cases hrest with
          | ok h =>
            exact ih hroot ht ⟨h, (rest_running hr).trans hw.running, (rest_running hr').trans hw.running'⟩
    have hloop := hw.loop hl
    unfold drive
    rw [hloop.rootWoken]
    split
    · have hcleared : World.Twins L (w.setLoop l { w.loop l with rootWoken := false })
          (w'.setLoop l' { w'.loop l' with rootWoken := false }) :=
        hw.toTwins.setLoop hl { hloop with rootWoken := rfl }
      have hpoll := hroot.poll (.of_driven hcleared hl hw.running hw.running' .root)
      dsimp only
      generalize root.poll _ = s at hpoll ⊢
      generalize root'.poll _ = s' at hpoll ⊢
      cases hpoll with
      | halt why => exact .error rfl
      | done ha hw' => exact .ok ⟨ha, ht, hw'.on⟩
      | wait hwhat hw' h =>
        refine (runQueue_twins hstart hl _ ht hw'.on).bind fun x y hxy => ?_
        obtain ⟨ht', hw'⟩ := hxy
        rw [both_isEmpty (hw'.loop hl).queue]
        split
        · exact hgoOn (.of_resume hwhat h) ht' hw'
        · exact hgoOn (.of_resume hwhat h) ht' ⟨hw'.toTwins.wakeRoot hl, hw'.running, hw'.running'⟩
    · exact hgoOn hroot ht hw

/-- **Loops are driven** outside of other ones. -/
theorem driveOn_twins (rounds : Nat) {root : Run α} {root' : Run β}
    (hroot : Run.Twins L (some (l, l')) R root root') (ht : Threads.Twins L (some (l, l')) threads threads')
    (hw : w.TwinsAt L none w') :
    Except.Both (· = ·)
      (fun x y => R x.1 y.1 ∧ Threads.Twins L (some (l, l')) x.2.1 y.2.1 ∧ x.2.2.TwinsAt L none y.2.2)
      (driveOn start l rounds root threads w) (driveOn start l' rounds root' threads' w') := by
  have hwoken : World.TwinsOn L l l' ({ w with running := some l }.wakeRoot l)
      ({ w' with running := some l' }.wakeRoot l') :=
    ⟨(hw.toTwins.turn (some l) (some l') w.current w'.current).wakeRoot hl, rfl, rfl⟩
  refine (drive_twins hstart hl rounds (.ofRun hroot) ht hwoken).bind fun x y hxy => ?_
  obtain ⟨ha, ht', hw'⟩ := hxy
  refine .ok ⟨ha, ht', ?_⟩
  exact .of_none (hw'.toTwins.turn w.running w'.running _ _) hw.running hw.running'

/-! ## Closing -/

omit hstart hl in
theorem settle_twins {rs rs' : List Ref} (h : List.Forall₂ (L.Pairs .task) rs rs') :
    Run.Twins L place (fun _ _ => True) (settle rs) (settle rs') := by
  induction h with
  | nil => exact .pure trivial
  | cons hr _ ih =>
    intro w w' hw
    have hnone := hw.task hr
    rw [settle_cons, settle_cons, ← Option.not_isSome, ← Option.not_isSome, both_isSome hnone.outcome]
    split
    · exact .wait (.task hr) (hw.awaitedBy hr) ih
    · exact ih w w' hw

omit hstart in
/-- The tasks that nobody has taken the right to await, and those of them that have not ended. -/
theorem held_twins (hw : w.Twins L w') :
    List.Forall₂ (L.Pairs .task) (w.held l) (w'.held l') ∧
      List.Forall₂ (L.Pairs .task) (w.unfinished l) (w'.unfinished l') := by
  have hheld : List.Forall₂ (L.Pairs .task) (w.held l) (w'.held l') :=
    both_filter (hw.loop hl).tasks fun _ _ hr => (hw.task hr).hasHandle
  refine ⟨hheld, both_filter hheld fun _ _ hr => ?_⟩
  rw [← Option.not_isSome, ← Option.not_isSome, both_isSome (hw.task hr).outcome]

omit hstart in
/-- What closing two loops begins with. -/
theorem closing_twins (hw : w.TwinsAt L none w') :
    (w.released l).TwinsAt L none (w'.released l') ∧ (w.closing l).TwinsAt L none (w'.closing l') := by
  have hfold {f f' : World → Ref → World} {rs rs' : List Ref} (hrs : List.Forall₂ (L.Pairs .task) rs rs') {n : Nat}
      (hlt : ∀ r ∈ rs, r < n)
      (hf : ∀ (u u' : World) (r r' : Ref), u.TwinsAt L none u' → u.tasks.size = n → L.Pairs .task r r' → r < n →
        (f u r).TwinsAt L none (f' u' r') ∧ (f u r).tasks.size = n) {u u' : World} (hu : u.TwinsAt L none u')
      (hn : u.tasks.size = n) : (rs.foldl f u).TwinsAt L none (rs'.foldl f' u') := by
    induction hrs generalizing u u' with
    | nil => exact hu
    | cons hr _ ih =>
      obtain ⟨hr₀, hlt⟩ := List.forall_mem_cons.mp hlt
      obtain ⟨hu', hn'⟩ := hf u u' _ _ hu hn hr hr₀
      exact ih hlt hu' hn'
  obtain ⟨hheld, hunfinished⟩ := held_twins hl hw.toTwins
  have hreleased : (w.released l).TwinsAt L none (w'.released l') := by
    refine hfold hheld (fun r hr => World.lt_size_of_mem_held hr) (fun u u' r r' hu hn hr _ => ?_) hw rfl
    exact ⟨hu.updateTask hr fun ht => { ht with hasHandle := rfl }, (u.size_tasks_setTask _ _).trans hn⟩
  refine ⟨hreleased, ?_⟩
  refine hfold hunfinished (fun r hr => World.lt_size_of_mem_unfinished hr) (fun u u' r r' hu hn hr hlt => ?_)
    hreleased rfl
  exact ⟨hu.cancelTask hr (hn ▸ hlt), (u.size_tasks_cancelTask r).trans hn⟩

/-- **Closing two loops** leaves worlds that are twins. -/
theorem closeLoop_twins (rounds : Nat) (ht : Threads.Twins L (some (l, l')) threads threads')
    (hw : w.TwinsAt L none w') :
    Except.Both (· = ·) (World.TwinsAt L none) (closeLoop start l rounds threads w)
      (closeLoop start l' rounds threads' w') := by
  obtain ⟨hreleased, hclosing⟩ := closing_twins hl hw
  have hunfinished := (held_twins hl hw.toTwins).2
  rw [closeLoop_eq, closeLoop_eq, both_isEmpty hunfinished]
  split
  · exact .ok hreleased
  · refine (driveOn_twins hstart hl rounds (settle_twins hunfinished) ht hclosing).bind fun x y hxy => ?_
    exact .ok hxy.2.2

omit hl in
/-- **Loops of their own.** -/
theorem runOnNewLoop_twins (rounds : Nat) {c c' : Ref} (hc : L.Pairs .coroutine c c') :
    Run.Twins L none L.Endings (runOnNewLoop start rounds c) (runOnNewLoop start rounds c') := by
  intro w w' hw
  have hnew : w.newLoop.2.TwinsAt L none w'.newLoop.2 :=
    hw.of_twins hw.toTwins.newLoop rfl rfl rfl rfl (Nat.le_refl _)
  have hl : L.Fresh .loop w.newLoop.1 w'.newLoop.1 := hw.toTwins.newLoop_fresh
  have hends : Except.Both (· = ·) (fun x y => L.Endings x.1 y.1 ∧ x.2.TwinsAt L none y.2)
      (do
        let x ← driveOn start w.newLoop.1 rounds (start c) [] w.newLoop.2
        return (x.1, ← closeLoop start w.newLoop.1 rounds x.2.1 x.2.2))
      (do
        let x ← driveOn start w'.newLoop.1 rounds (start c') [] w'.newLoop.2
        return (x.1, ← closeLoop start w'.newLoop.1 rounds x.2.1 x.2.2)) := by
    refine (driveOn_twins hstart hl rounds (hstart _ _ _ hc) .nil hnew).bind fun x y hxy => ?_
    obtain ⟨ha, ht, hw'⟩ := hxy
    exact (closeLoop_twins hstart hl rounds ht hw').bind fun u u' hu => .ok ⟨ha, hu⟩
  rw [runOnNewLoop_eq, runOnNewLoop_eq]
  generalize (do
    let x ← driveOn start w.newLoop.1 rounds (start c) [] w.newLoop.2
    return (x.1, ← closeLoop start w.newLoop.1 rounds x.2.1 x.2.2)) = e at hends ⊢
  generalize (do
    let x ← driveOn start w'.newLoop.1 rounds (start c') [] w'.newLoop.2
    return (x.1, ← closeLoop start w'.newLoop.1 rounds x.2.1 x.2.2)) = e' at hends ⊢
  cases hends with
  | ok h => exact .done h.1 h.2
  | error h => exact h ▸ .halt _

end

end Transcript.Lang
