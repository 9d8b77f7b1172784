import Transcript.Proofs.Lang.History
import Transcript.Proofs.Lang.Twin

/-!
# Tasks and event loops of twins

What happens to the tasks of two worlds that are twins happens to both: they are created, woken, cancelled,
finished and awaited, and timers go off at times that are equally far from the beginnings of the two runs.

Results:
* `World.TwinsAt.spawn`, `World.TwinsAt.cancelTask`, `World.Twins.finishTask`: tasks.
* `World.TwinsAt.yields`, `World.TwinsAt.sleeps`: who waits.
* `World.Twins.fireTimers`, `World.Twins.rest`: event loops.
-/

namespace Transcript.Lang

variable {L : Link}

namespace World.TwinsAt

variable {place : Option (Ref × Ref)} {w w' u u' : World} {r r' : Nat}

/-- What keeps worlds twins, and leaves alone who has the turn, keeps them so at a turn. -/
theorem of_twins (h : w.TwinsAt L place w') (hu : u.Twins L u') (hrunning : u.running = w.running)
    (hrunning' : u'.running = w'.running) (hcurrent : u.current = w.current)
    (hcurrent' : u'.current = w'.current) (hsize : w.tasks.size ≤ u.tasks.size) : u.TwinsAt L place u' where
  toTwins := hu
  running := hrunning.trans h.running
  running' := hrunning'.trans h.running'
  driven := h.driven
  current hp := by
    rw [hcurrent, hcurrent']
    exact (h.current hp).mono hsize

/-- At a turn outside of event loops. -/
theorem of_none (h : w.Twins L w') (hrunning : w.running = none) (hrunning' : w'.running = none) :
    w.TwinsAt L none w' :=
  { h with
    running := hrunning
    running' := hrunning'
    driven := nofun
    current := nofun }

/-- At the turn of whoever a loop gives it to. -/
theorem of_driven {l l' : Ref} (h : w.Twins L w') (hl : L.Fresh .loop l l') (hrunning : w.running = some l)
    (hrunning' : w'.running = some l') {who who' : Waker} (hw : who.Twins L w.tasks.size who') :
    World.TwinsAt L (some (l, l')) { w with current := who } { w' with current := who' } where
  toTwins := { h with }
  running := hrunning
  running' := hrunning'
  driven p hp := by
    cases hp
    exact hl
  current _ := hw

end World.TwinsAt

/-! ## Turns and wakes -/

section

variable (w : World)

theorem World.running_wakeTask (r : Ref) : (w.wakeTask r).running = w.running := by
  unfold World.wakeTask
  dsimp only
  split <;> rfl

theorem World.running_wake (l : Ref) (who : Waker) : (w.wake l who).running = w.running := by
  cases who with
  | root => rfl
  | task r => exact w.running_wakeTask r

theorem World.current_wakeTask (r : Ref) : (w.wakeTask r).current = w.current := by
  unfold World.wakeTask
  dsimp only
  split <;> rfl

theorem World.running_wakeAll {α : Type} (l : Ref) (who : α → Waker) (as : List α) :
    (as.foldl (fun w a => w.wake l (who a)) w).running = w.running := by
  induction as generalizing w with
  | nil => rfl
  | cons a as ih => exact (ih _).trans (w.running_wake l _)

theorem rest_running {l : Ref} {w w' : World} (h : Lang.rest l w = .ok w') : w'.running = w.running := by
  unfold Lang.rest at h
  split at h
  · obtain rfl := Except.ok.inj h
    exact (World.running_wakeAll _ l _ _).trans (World.running_wakeAll _ l _ _)
  · split at h
    · cases h
    · obtain rfl := Except.ok.inj h
      exact World.running_wakeAll _ l _ _

end

namespace World.Twins

variable {w w' : World} (h : w.Twins L w') {r r' l l' : Nat}

include h

/-- Those on a list are woken, one after the other. -/
theorem wakeAll {α : Type} {R : α → α → Prop} {who : α → Waker} {as as' : List α}
    (hl : L.Fresh .loop l l') (has : List.Forall₂ R as as')
    (hwho : ∀ a a', R a a' → (who a).Twins L w.tasks.size (who a')) :
    World.Twins L (as.foldl (fun w a => w.wake l (who a)) w) (as'.foldl (fun w a => w.wake l' (who a)) w') := by
  induction has generalizing w w' with
  | nil => exact h
  | cons ha _ ih =>
    refine ih (h.wake hl (hwho _ _ ha)) fun a a' haa => ?_
    rw [World.tasks_wake]
    exact hwho a a' haa

theorem fireTimers (hl : L.Fresh .loop l l') : (Lang.fireTimers l w).Twins L (Lang.fireTimers l' w') := by
  have htwin := h.loop hl
  have hdue (p p' : Nat × Waker) (hp : L.Times p.1 p'.1 ∧ p.2.Twins L w.tasks.size p'.2) :
      decide (p'.1 ≤ w'.now) = decide (p.1 ≤ w.now) := by
    have hnow := h.now
    have ht := hp.1
    unfold Link.Times at ht hnow
    rw [decide_eq_decide]
    omega
  have hlate : ({ w.loop l with timers := (w.loop l).timers.dropWhile (·.1 ≤ w.now) } : EventLoop).Twins L
      w.tasks.size { w'.loop l' with timers := (w'.loop l').timers.dropWhile (·.1 ≤ w'.now) } :=
    { htwin with timers := both_dropWhile htwin.timers hdue }
  exact (h.setLoop hl hlate).wakeAll hl (both_takeWhile htwin.timers hdue) fun _ _ hp => hp.2

theorem wakeYielded (hl : L.Fresh .loop l l') : (Lang.wakeYielded l w).Twins L (Lang.wakeYielded l' w') := by
  have htwin := h.loop hl
  have hnone : ({ w.loop l with yielded := [] } : EventLoop).Twins L w.tasks.size
      { w'.loop l' with yielded := [] } :=
    { htwin with yielded := .nil }
  exact (h.setLoop hl hnone).wakeAll hl htwin.yielded fun _ _ hw => hw

/-- **Loops that rest** come to worlds that are twins, or have nothing to wait for. -/
theorem rest (hl : L.Fresh .loop l l') :
    Except.Both (· = ·) (World.Twins L) (Lang.rest l w) (Lang.rest l' w') := by
  have htwin := h.loop hl
  unfold Lang.rest
  rw [htwin.rootWoken, both_isEmpty htwin.yielded]
  split
  · exact .ok ((h.fireTimers hl).wakeYielded hl)
  · have htimers := htwin.timers
    generalize (w.loop l).timers = ts at htimers ⊢
    generalize (w'.loop l').timers = ts' at htimers ⊢
    cases htimers with
    | nil => exact .error rfl
    | @cons p p' _ _ hp _ =>
      have hlater : World.Twins L { w with now := max w.now p.1 } { w' with now := max w'.now p'.1 } := by
        refine { h with now := ?_ }
        have hnow := h.now
        have ht := hp.1
        unfold Link.Times at ht hnow ⊢
        dsimp only
        omega
      exact .ok (hlater.fireTimers hl)

/-- A task that was made by the runs ends; whoever awaits it is woken. -/
theorem finishTask (hr : L.Pairs .task r r') (hnew : L.New .task r) {o o' : Ending} (ho : L.Endings o o') :
    (w.finishTask r o).Twins L (w'.finishTask r' o') := by
  have hended : (w.setTask r { w.task r with outcome := some o, waiter := none }).Twins L
      (w'.setTask r' { w'.task r' with outcome := some o', waiter := none }) :=
    h.updateTask hr fun ht => { ht with outcome := .some ho, waiter := fun _ => .none }
  unfold World.finishTask
  dsimp only
  by_cases hlt : r < w.tasks.size
  · have ht := h.task_of_lt hr hlt
    have hwaiter := ht.waiter hnew
    have hloop := ht.loop.fresh (ht.onNew.mpr hnew)
    generalize (w.task r).waiter = who at hwaiter ⊢
    generalize (w'.task r').waiter = who' at hwaiter ⊢
    cases hwaiter with
    | none => exact hended
    | some hw =>
      refine hended.wake hloop ?_
      rwa [World.size_tasks_setTask]
  · have hlt' : ¬ r' < w'.tasks.size := fun h' => hlt ((h.tasks.lt_iff hr).mp h')
    rw [World.task_of_size_le (Nat.le_of_not_lt hlt), World.task_of_size_le (Nat.le_of_not_lt hlt')] at hended ⊢
    exact hended

end World.Twins

/-- Timers are put in their places. -/
theorem addTimer_twins {t t' : Nat} (ht : L.Times t t') {who who' : Waker} {n : Nat} (hw : who.Twins L n who')
    {ts ts' : List (Nat × Waker)}
    (hts : List.Forall₂ (fun p p' => L.Times p.1 p'.1 ∧ p.2.Twins L n p'.2) ts ts') :
    List.Forall₂ (fun p p' => L.Times p.1 p'.1 ∧ p.2.Twins L n p'.2) (World.addTimer t who ts)
      (World.addTimer t' who' ts') := by
  induction hts with
  | nil => exact .cons ⟨ht, hw⟩ .nil
  | @cons p p' _ _ hp hps ih =>
    obtain ⟨s, x⟩ := p
    obtain ⟨s', x'⟩ := p'
    have hlt : t' < s' ↔ t < s := by
      have hs : L.Times s s' := hp.1
      unfold Link.Times at ht hs
      omega
    unfold World.addTimer
    by_cases h : t < s
    · rw [if_pos h, if_pos (hlt.mpr h)]
      exact .cons ⟨ht, hw⟩ (.cons hp hps)
    · rw [if_neg h, if_neg fun h' => h (hlt.mp h')]
      exact .cons hp ih

/-! ## What programs do to tasks -/

namespace World.TwinsAt

variable {place : Option (Ref × Ref)} {w w' : World} (h : w.TwinsAt L place w') {r r' : Nat}

include h

/-- A task is changed, if there is one. -/
theorem updateTask (hr : L.Pairs .task r r') {t t' : Task}
    (ht : (w.task r).Twins L w.tasks.size r (w'.task r') → t.Twins L w.tasks.size r t') :
    World.TwinsAt L place (w.setTask r t) (w'.setTask r' t') :=
  h.of_twins (h.toTwins.updateTask hr ht) rfl rfl rfl rfl (Nat.le_of_eq (w.size_tasks_setTask r _).symm)

theorem wakeTask (hr : L.Pairs .task r r') (hlt : r < w.tasks.size) :
    World.TwinsAt L place (w.wakeTask r) (w'.wakeTask r') :=
  h.of_twins (h.toTwins.wakeTask hr hlt) (w.running_wakeTask r) (w'.running_wakeTask r')
    (w.current_wakeTask r) (w'.current_wakeTask r') (Nat.le_of_eq (congrArg Array.size (w.tasks_wakeTask r)).symm)

/-- **Tasks are created** for coroutines that belong together, on the loops that are driven. -/
theorem spawn {l l' : Ref} (hl : L.Fresh .loop l l') {c c' : Ref} (hc : L.Pairs .coroutine c c')
    (name : String) : L.Pairs .task (w.spawn l c name).1 (w'.spawn l' c' name).1 ∧
      World.TwinsAt L place (w.spawn l c name).2 (w'.spawn l' c' name).2 := by
  have hfresh : L.Pairs .task w.tasks.size w'.tasks.size := h.tasks.size.pairs
  refine ⟨hfresh, ?_⟩
  have hsize : (w.tasks.push ⟨name, l, c, true, none, none, none, false⟩).size = w.tasks.size + 1 :=
    Array.size_push _
  have hloop := (h.loop hl).mono (Nat.le_succ w.tasks.size)
  have hpushed : World.Twins L
      { w with tasks := w.tasks.push ⟨name, l, c, true, none, none, none, false⟩, created := w.created + 1 }
      { w' with
        tasks := w'.tasks.push ⟨name, l', c', true, none, none, none, false⟩, created := w'.created + 1 } := by
    refine { h with tasks := ?_, loops := ?_, created := congrArg (· + 1) h.created, counted := ?_ }
    · dsimp only
      rw [hsize]
      refine (h.tasks.mono fun _ _ _ ht => ht.mono (Nat.le_succ _)).push ?_
      have hnew : L.New .task w.tasks.size := h.tasks.left_le
      exact ⟨⟨rfl, rfl, .none, .none, rfl⟩, hl.pairs, iff_of_true hl.new hnew, fun _ => hc, fun _ => .none⟩
    · dsimp only
      rw [hsize]
      exact h.loops.mono fun _ _ _ he hr => (he hr).mono (Nat.le_succ _)
    · have hcounted := h.counted
      dsimp only
      rw [hsize]
      omega
  have hgrown : ({ w.loop l with tasks := (w.loop l).tasks ++ [w.tasks.size] } : EventLoop).Twins L
      (w.tasks.push ⟨name, l, c, true, none, none, none, false⟩).size
      { w'.loop l' with tasks := (w'.loop l').tasks ++ [w'.tasks.size] } := by
    rw [hsize]
    exact { hloop with tasks := List.rel_append hloop.tasks (.cons hfresh .nil) }
  have hwoken := (hpushed.setLoop hl hgrown).wakeTask hfresh (by
    change w.tasks.size < (w.tasks.push _).size
    rw [hsize]
    exact Nat.lt_succ_self _)
  refine h.of_twins hwoken (World.running_wakeTask _ _) (World.running_wakeTask _ _) (World.current_wakeTask _ _)
    (World.current_wakeTask _ _) ?_
  change _ ≤ (World.wakeTask _ _).tasks.size
  rw [World.tasks_wakeTask]
  change _ ≤ (w.tasks.push _).size
  rw [hsize]
  exact Nat.le_succ _

theorem isRunning (hr : L.Pairs .task r r') : w'.isRunning r' = w.isRunning r := by
  unfold World.isRunning
  rw [h.running, h.running']
  cases place with
  | none => rfl
  | some p =>
    rw [(h.current rfl).beq hr]
    rfl

theorem cancelTask (hr : L.Pairs .task r r') (hlt : r < w.tasks.size) :
    World.TwinsAt L place (w.cancelTask r) (w'.cancelTask r') := by
  have hset : World.TwinsAt L place (w.setTask r { w.task r with cancelled := true })
      (w'.setTask r' { w'.task r' with cancelled := true }) :=
    h.updateTask hr fun ht => { ht with cancelled := rfl }
  unfold World.cancelTask
  dsimp only
  rw [hset.isRunning hr]
  split
  · exact hset
  · exact hset.wakeTask hr (by rwa [World.size_tasks_setTask])

theorem awaitedBy (hr : L.Pairs .task r r') : World.TwinsAt L place (w.awaitedBy r) (w'.awaitedBy r') := by
  unfold World.awaitedBy
  rw [h.running, h.running']
  cases place with
  | none => exact h
  | some p =>
    have hcurrent := h.current rfl
    exact h.updateTask hr fun ht => { ht with waiter := fun _ => .some hcurrent }

/-- Something is noted in loops that were made by the runs. -/
theorem setLoop {l l' : Ref} (hl : L.Fresh .loop l l') {e e' : EventLoop} (he : e.Twins L w.tasks.size e') :
    World.TwinsAt L place (w.setLoop l e) (w'.setLoop l' e') :=
  h.of_twins (h.toTwins.setLoop hl he) rfl rfl rfl rfl (Nat.le_refl _)

theorem yields : World.TwinsAt L place w.yields w'.yields := by
  unfold World.yields
  rw [h.running, h.running']
  cases place with
  | none => exact h
  | some p =>
    have hcurrent := h.current rfl
    have hloop := h.loop (h.driven p rfl)
    have hnoted : ({ w.loop p.1 with yielded := w.current :: (w.loop p.1).yielded } : EventLoop).Twins L
        w.tasks.size { w'.loop p.2 with yielded := w'.current :: (w'.loop p.2).yielded } :=
      { hloop with yielded := .cons hcurrent hloop.yielded }
    exact h.setLoop (h.driven p rfl) hnoted

theorem sleeps {t t' : Nat} (ht : L.Times t t') : World.TwinsAt L place (w.sleeps t) (w'.sleeps t') := by
  unfold World.sleeps
  rw [h.running, h.running']
  cases place with
  | none => exact h
  | some p =>
    have hcurrent := h.current rfl
    have hloop := h.loop (h.driven p rfl)
    have hnoted : ({ w.loop p.1 with timers := World.addTimer t w.current (w.loop p.1).timers } : EventLoop).Twins L
        w.tasks.size { w'.loop p.2 with timers := World.addTimer t' w'.current (w'.loop p.2).timers } :=
      { hloop with timers := addTimer_twins ht hcurrent hloop.timers }
    exact h.setLoop (h.driven p rfl) hnoted

end World.TwinsAt

end Transcript.Lang
