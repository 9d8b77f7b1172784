import Transcript.Proofs.Lang.History
import Mathlib.Data.List.Nodup

/-!
# What a history says of tasks and loops

After any history, the ledger says what the fields of tasks and loops say. For this, three things must
be known of loops as well: a task in a queue has not ended, it stands there once, and a task that has
its turn stands in no queue. So no task runs after its end, and none ends twice.

Results:
* `Act.tells`: every act keeps that the ledger says what the fields say.
* `History.tells`: so it does after every history.
* `History.ended_unique`: the coroutine of a task ends in one way.
-/

namespace Transcript.Lang

theorem mem_addTimer {time : Nat} {who : Waker} {timers : List (Nat × Waker)} {p : Nat × Waker}
    (h : p ∈ World.addTimer time who timers) : p = (time, who) ∨ p ∈ timers := by
  induction timers with
  | nil => exact .inl (List.mem_singleton.mp h)
  | cons q timers ih =>
    unfold World.addTimer at h
    split at h
    · exact List.mem_cons.mp h
    · rcases List.mem_cons.mp h with rfl | h
      · exact .inr List.mem_cons_self
      · exact (ih h).imp_right (List.mem_cons_of_mem q)

/-! ## What a history says of a world -/

namespace Ledger

/-- A task of a loop whose coroutine has not ended. -/
def Unended (g : Ledger) (r l : Ref) : Prop := (r, l) ∈ g.created ∧ ∀ o, (r, o) ∉ g.ended

/-- Someone who can be woken: the computation that a loop drives, or a task that was created. -/
def Knows (g : Ledger) : Waker → Prop
  | .root => True
  | .task r => ∃ l, (r, l) ∈ g.created

/-- Ledgers that differ in what has happened to one task since it was created. -/
structure SameBut (r : Ref) (g g' : Ledger) : Prop where
  created : g'.created = g.created
  claimed : ∀ s ≠ r, s ∈ g'.claimed ↔ s ∈ g.claimed
  ended : ∀ s ≠ r, ∀ o, (s, o) ∈ g'.ended ↔ (s, o) ∈ g.ended
  received : ∀ s ≠ r, ∀ o, (s, o) ∈ g'.received ↔ (s, o) ∈ g.received

variable {g g' : Ledger} {r : Ref}

theorem SameBut.refl (r : Ref) (g : Ledger) : SameBut r g g :=
  ⟨rfl, fun _ _ => .rfl, fun _ _ _ => .rfl, fun _ _ _ => .rfl⟩

theorem sameBut_claim (r : Ref) (g : Ledger) : SameBut r g (g.claim r) :=
  ⟨rfl, fun s hs => by simp [claim, hs], fun _ _ _ => .rfl, fun _ _ _ => .rfl⟩

theorem sameBut_finish (r : Ref) (o : Ending) (g : Ledger) : SameBut r g (g.finish r o) :=
  ⟨rfl, fun _ _ => .rfl, fun s hs => by simp [finish, hs], fun _ _ _ => .rfl⟩

theorem sameBut_receive (r : Ref) (o : Ending) (g : Ledger) : SameBut r g (g.receive r o) :=
  ⟨rfl, fun _ _ => .rfl, fun _ _ _ => .rfl, fun s hs => by simp [receive, hs]⟩

theorem mem_onLoop {l : Ref} : r ∈ g.onLoop l ↔ (r, l) ∈ g.created := by
  simp [onLoop]

theorem onLoop_create (g : Ledger) (r l : Ref) : (g.create r l).onLoop l = g.onLoop l ++ [r] := by
  simp [onLoop, create]

theorem onLoop_create_of_ne (g : Ledger) (r : Ref) {l k : Ref} (h : l ≠ k) :
    (g.create r l).onLoop k = g.onLoop k := by
  simp [onLoop, create, h]

theorem Knows.mono {who : Waker} (h : g.Knows who) (hg : g.created ⊆ g'.created) : g'.Knows who := by
  cases who with
  | root => trivial
  | task r => exact h.imp fun _ hl => hg hl

end Ledger

/-- **A task of which a ledger says what its fields say.** -/
structure Task.Matches (g : Ledger) (r : Ref) (t : Task) : Prop where
  created : (r, t.loop) ∈ g.created
  claimed : t.hasHandle = false ↔ r ∈ g.claimed
  ended : ∀ o, t.outcome = some o ↔ (r, o) ∈ g.ended
  received : ∀ o, t.result = some o ↔ (r, o) ∈ g.received
  result : ∀ o, t.result = some o → t.outcome = some o
  waiter : ∀ who ∈ t.waiter, g.Knows who

/-- **An event loop of which a ledger says what its fields say.** In its queue no task stands twice, and
none that has ended. -/
structure EventLoop.Matches (g : Ledger) (l : Ref) (e : EventLoop) : Prop where
  tasks : e.tasks = g.onLoop l
  nodup : e.queue.Nodup
  queue : ∀ r ∈ e.queue, g.Unended r l
  yielded : ∀ who ∈ e.yielded, g.Knows who
  timers : ∀ p ∈ e.timers, g.Knows p.2

/-- **A world of which a ledger says what tasks and loops say.** -/
structure World.Matches (g : Ledger) (w : World) : Prop where
  numbered : g.created.map Prod.fst = List.range w.tasks.size
  placed : ∀ r l, (r, l) ∈ g.created → l < w.loops.size
  fresh : ∀ r, w.tasks.size ≤ r → r ∉ g.claimed ∧ ∀ o, (r, o) ∉ g.ended ∧ (r, o) ∉ g.received
  tasks : ∀ r < w.tasks.size, (w.task r).Matches g r
  loops : ∀ l < w.loops.size, (w.loop l).Matches g l

/-- **A world in which it is somebody's turn.** A task that has its turn has not ended and does not
stand in the queue. -/
def Turn.Matches (g : Ledger) (w : World) : Turn → Prop
  | .program none => w.running = none
  | .program (some (l, who)) =>
    w.running = some l ∧ w.current = who ∧ l < w.loops.size ∧ g.Knows who ∧
      ∀ r, who = .task r → g.Unended r l ∧ r ∉ (w.loop l).queue
  | .loop l => w.running = some l ∧ l < w.loops.size

/-- **A ledger that says what tasks and loops say** when it is somebody's turn. -/
structure Ledger.Tells (g : Ledger) (t : Turn) (w : World) : Prop where
  world : w.Matches g
  turn : t.Matches g w

namespace Task.Matches

variable {g g' : Ledger} {r s : Ref} {t : Task}

theorem of_sameBut (h : t.Matches g s) (hg : g.SameBut r g') (hs : s ≠ r) : t.Matches g' s where
  created := hg.created ▸ h.created
  claimed := h.claimed.trans (hg.claimed s hs).symm
  ended o := (h.ended o).trans (hg.ended s hs o).symm
  received o := (h.received o).trans (hg.received s hs o).symm
  result := h.result
  waiter who hw := (h.waiter who hw).mono fun _ hx => hg.created ▸ hx

/-- Nothing has happened yet to a new task. -/
theorem new {l : Ref} (hclaimed : r ∉ g.claimed)
    (hends : ∀ o, (r, o) ∉ g.ended ∧ (r, o) ∉ g.received) (name : String) (coroutine : Ref) :
    Task.Matches (g.create r l) r ⟨name, l, coroutine, true, none, none, none, false⟩ where
  created := List.mem_append_right _ (List.mem_singleton_self _)
  claimed := iff_of_false Bool.noConfusion hclaimed
  ended o := iff_of_false (Option.some_ne_none o).symm (hends o).1
  received o := iff_of_false (Option.some_ne_none o).symm (hends o).2
  result _ ho := ho
  waiter who hwho := by cases hwho

theorem create (h : t.Matches g s) {r l : Ref} : t.Matches (g.create r l) s where
  created := List.mem_append_left _ h.created
  claimed := h.claimed
  ended := h.ended
  received := h.received
  result := h.result
  waiter who hw := (h.waiter who hw).mono (List.subset_append_left _ _)

end Task.Matches

namespace EventLoop.Matches

variable {g : Ledger} {l k : Ref} {e : EventLoop}

/-- A task is created on another loop. -/
theorem create_of_ne (h : e.Matches g k) (r : Ref) (hlk : l ≠ k) : e.Matches (g.create r l) k where
  tasks := h.tasks.trans (g.onLoop_create_of_ne r hlk).symm
  nodup := h.nodup
  queue s hs := ⟨List.mem_append_left _ (h.queue s hs).1, (h.queue s hs).2⟩
  yielded who hwho := (h.yielded who hwho).mono (List.subset_append_left _ _)
  timers p hp := (h.timers p hp).mono (List.subset_append_left _ _)

/-- A task is created on the loop. -/
theorem create (h : e.Matches g l) (r : Ref) :
    ({ e with tasks := e.tasks ++ [r] } : EventLoop).Matches (g.create r l) l where
  tasks := (congrArg (· ++ [r]) h.tasks).trans (g.onLoop_create r l).symm
  nodup := h.nodup
  queue s hs := ⟨List.mem_append_left _ (h.queue s hs).1, (h.queue s hs).2⟩
  yielded who hwho := (h.yielded who hwho).mono (List.subset_append_left _ _)
  timers p hp := (h.timers p hp).mono (List.subset_append_left _ _)

/-- A task ends that does not stand in the queue. -/
theorem finish (h : e.Matches g l) {r : Ref} (hr : r ∉ e.queue) (o : Ending) :
    e.Matches (g.finish r o) l where
  tasks := h.tasks
  nodup := h.nodup
  queue s hs := by
    refine ⟨(h.queue s hs).1, fun o' ho' => ?_⟩
    rcases List.mem_cons.mp ho' with ho' | ho'
    · cases ho'
      exact hr hs
    · exact (h.queue s hs).2 o' ho'
  yielded := h.yielded
  timers := h.timers

end EventLoop.Matches

namespace World.Matches

variable {w : World} {g g' : Ledger} {r l : Ref}

theorem lt_size (h : w.Matches g) (hr : (r, l) ∈ g.created) : r < w.tasks.size := by
  have hmem := List.mem_map_of_mem (f := Prod.fst) hr
  rw [h.numbered] at hmem
  exact List.mem_range.mp hmem

/-- A task is created once. -/
theorem loop_unique (h : w.Matches g) {k : Ref} (hl : (r, l) ∈ g.created) (hk : (r, k) ∈ g.created) :
    l = k := by
  have hnodup : (g.created.map Prod.fst).Nodup := h.numbered ▸ List.nodup_range
  exact congrArg Prod.snd (List.inj_on_of_nodup_map hnodup hl hk rfl)

/-- Only tasks and loops count. -/
theorem of_eq {w' : World} (h : w.Matches g) (htasks : w'.tasks = w.tasks)
    (hloops : w'.loops = w.loops) : w'.Matches g := by
  obtain ⟨hnumbered, hplaced, hfresh, ht, hl⟩ := h
  unfold World.task at ht
  unfold World.loop at hl
  rw [← htasks] at hnumbered hfresh ht
  rw [← hloops] at hplaced hl
  exact ⟨hnumbered, hplaced, hfresh, ht, hl⟩

theorem setLoop (h : w.Matches g) {e : EventLoop} (he : l < w.loops.size → e.Matches g l) :
    (w.setLoop l e).Matches g where
  numbered := h.numbered
  placed r k hr := by
    rw [size_loops_setLoop]
    exact h.placed r k hr
  fresh := h.fresh
  tasks := h.tasks
  loops k hk := by
    rw [size_loops_setLoop] at hk
    by_cases hlk : l = k
    · subst hlk
      rw [loop_setLoop_self hk]
      exact he hk
    · rw [loop_setLoop_of_ne hlk]
      exact h.loops k hk

/-- Something happens to one task. -/
theorem setTask (h : w.Matches g) {t : Task} (hr : r < w.tasks.size) (hg : g.SameBut r g')
    (ht : t.Matches g' r) (hloops : ∀ l < w.loops.size, (w.loop l).Matches g' l) :
    (w.setTask r t).Matches g' where
  numbered := by
    rw [hg.created, size_tasks_setTask]
    exact h.numbered
  placed s l hs := h.placed s l (hg.created ▸ hs)
  fresh s hs := by
    rw [size_tasks_setTask] at hs
    have hne : s ≠ r := Nat.ne_of_gt (Nat.lt_of_lt_of_le hr hs)
    rw [hg.claimed s hne]
    refine ⟨(h.fresh s hs).1, fun o => ?_⟩
    rw [hg.ended s hne, hg.received s hne]
    exact (h.fresh s hs).2 o
  tasks s hs := by
    rw [size_tasks_setTask] at hs
    by_cases hrs : r = s
    · subst hrs
      rwa [task_setTask_self hr]
    · rw [task_setTask_of_ne hrs]
      exact (h.tasks s hs).of_sameBut hg (Ne.symm hrs)
  loops := hloops

theorem wakeRoot (h : w.Matches g) (l : Ref) : (w.wakeRoot l).Matches g :=
  h.setLoop fun hl => { h.loops l hl with }

/-- Waking a task puts it into the queue only if it has not ended and does not stand there. -/
theorem wakeTask (h : w.Matches g) (hr : r < w.tasks.size) : (w.wakeTask r).Matches g := by
  have ht := h.tasks r hr
  have he := h.loops _ (h.placed _ _ ht.created)
  unfold World.wakeTask
  dsimp only
  split
  · exact h
  · rename_i hneither
    rw [Bool.or_eq_true, not_or, Option.not_isSome_iff_eq_none, List.contains_iff_mem] at hneither
    obtain ⟨houtcome, hqueue⟩ := hneither
    have hunended : g.Unended r (w.task r).loop :=
      ⟨ht.created, fun o ho => by simp [(ht.ended o).mpr ho] at houtcome⟩
    refine h.setLoop fun _ => { he with nodup := ?_, queue := ?_ }
    · exact List.nodup_append.mpr ⟨he.nodup, List.nodup_singleton r, by
        rintro a ha _ hb rfl
        exact hqueue (List.mem_singleton.mp hb ▸ ha)⟩
    · intro s hs
      rcases List.mem_append.mp hs with hs | hs
      · exact he.queue s hs
      · rwa [List.mem_singleton.mp hs]

/-- A new task is stored and noted by its loop. -/
theorem push (h : w.Matches g) (hl : l < w.loops.size) {t : Task}
    (ht : t.Matches (g.create w.tasks.size l) w.tasks.size) (n : Nat) :
    ({ w with tasks := w.tasks.push t, created := n }.setLoop l
      { w.loop l with tasks := (w.loop l).tasks ++ [w.tasks.size] }).Matches
        (g.create w.tasks.size l) := by
  have hsize : (w.tasks.push t).size = w.tasks.size + 1 := Array.size_push _
  refine ⟨?_, ?_, ?_, ?_, ?_⟩
  · change (g.created ++ [(w.tasks.size, l)]).map Prod.fst = List.range (w.tasks.push t).size
    rw [hsize, List.map_append, h.numbered, List.range_succ]
    rfl
  · intro r k hr
    rw [size_loops_setLoop]
    rcases List.mem_append.mp hr with hr | hr
    · exact h.placed r k hr
    · cases List.mem_singleton.mp hr
      exact hl
  · intro r (hr : (w.tasks.push t).size ≤ r)
    rw [hsize] at hr
    exact h.fresh r (Nat.le_of_succ_le hr)
  · intro r (hr : r < (w.tasks.push t).size)
    rw [task_setLoop]
    rcases Nat.lt_or_eq_of_le (Nat.le_of_lt_succ (hsize ▸ hr)) with hr | rfl
    · rw [task_push hr]
      exact (h.tasks r hr).create
    · rwa [task_push_size]
  · intro k hk
    rw [size_loops_setLoop] at hk
    by_cases hlk : l = k
    · subst hlk
      rw [loop_setLoop_self hk]
      exact (h.loops l hk).create _
    · rw [loop_setLoop_of_ne hlk]
      exact (h.loops k hk).create_of_ne _ hlk

end World.Matches

namespace Turn.Matches

variable {t : Turn} {w w' : World} {g g' : Ledger}

/-- Other worlds in which it is the same turn. -/
theorem of_running (h : t.Matches g w) (hrunning : w'.running = w.running)
    (hcurrent : w'.current = w.current) (hsize : w'.loops.size = w.loops.size)
    (hcreated : g.created ⊆ g'.created)
    (htask : ∀ l r, t = .program (some (l, .task r)) → g.Unended r l → r ∉ (w.loop l).queue →
      g'.Unended r l ∧ r ∉ (w'.loop l).queue) : t.Matches g' w' := by
  match t with
  | .program none => exact hrunning.trans h
  | .program (some (l, who)) =>
    obtain ⟨hr, hc, hl, hknows, hturn⟩ := h
    refine ⟨hrunning.trans hr, hcurrent.trans hc, hsize ▸ hl, hknows.mono hcreated, fun r hwho => ?_⟩
    subst hwho
    exact htask l r rfl (hturn r rfl).1 (hturn r rfl).2
  | .loop l => exact ⟨hrunning.trans h.1, hsize ▸ h.2⟩

end Turn.Matches

/-! ## What an act keeps -/

namespace Ledger.Tells

variable {t : Turn} {place : Option (Ref × Waker)} {w w' : World} {g g' : Ledger} {r l : Ref}

theorem other (h : Tells g t w) (htasks : w'.tasks = w.tasks) (hloops : w'.loops = w.loops)
    (hrunning : w'.running = w.running) (hcurrent : w'.current = w.current) :
    Tells g t w' where
  world := h.world.of_eq htasks hloops
  turn := by
    refine h.turn.of_running hrunning hcurrent (by rw [hloops]) (List.Subset.refl _) ?_
    intro l r _ hr hqueue
    unfold World.loop
    rw [hloops]
    exact ⟨hr, hqueue⟩

/-- Something happens to one task that does not end it. -/
theorem setTask (h : Tells g t w) {s : Task} (hr : r < w.tasks.size) (hg : g.SameBut r g')
    (hs : s.Matches g' r) (hended : g'.ended = g.ended) : Tells g' t (w.setTask r s) := by
  have hunended {r l : Ref} (hr : g.Unended r l) : g'.Unended r l := by
    unfold Ledger.Unended
    rwa [hg.created, hended]
  have hknows {who : Waker} (hwho : g.Knows who) : g'.Knows who :=
    hwho.mono fun _ hx => hg.created ▸ hx
  refine ⟨h.world.setTask hr hg hs fun l hl => ?_, ?_⟩
  · have he := h.world.loops l hl
    refine ⟨?_, he.nodup, fun r hr => hunended (he.queue r hr), fun who hw => hknows (he.yielded who hw),
      fun p hp => hknows (he.timers p hp)⟩
    rw [he.tasks, Ledger.onLoop, Ledger.onLoop, hg.created]
  · refine h.turn.of_running rfl rfl rfl (fun _ hx => hg.created ▸ hx) ?_
    exact fun l r _ hr hqueue => ⟨hunended hr, hqueue⟩

/-- A task is woken that does not have the turn. -/
theorem wakeTask (h : Tells g t w) (hr : r < w.tasks.size)
    (ht : ∀ l, t ≠ .program (some (l, .task r))) : Tells g t (w.wakeTask r) where
  world := h.world.wakeTask hr
  turn := by
    unfold World.wakeTask
    dsimp only
    split
    · exact h.turn
    refine h.turn.of_running rfl rfl (World.size_loops_setLoop _ _ _) (List.Subset.refl _) ?_
    rintro l s rfl hs hqueue
    refine ⟨hs, ?_⟩
    by_cases hl : (w.task r).loop = l
    · have hlt := h.world.placed _ _ (h.world.tasks r hr).created
      rw [hl] at hlt ⊢
      rw [World.loop_setLoop_self hlt]
      intro hmem
      rcases List.mem_append.mp hmem with hmem | hmem
      · exact hqueue hmem
      · exact ht l (List.mem_singleton.mp hmem ▸ rfl)
    · rwa [World.loop_setLoop_of_ne hl]

/-- The loop that is driven wakes the computation that a loop drives. -/
theorem wakeRoot (h : Tells g (.loop l) w) (k : Ref) : Tells g (.loop l) (w.wakeRoot k) :=
  ⟨h.world.wakeRoot k, h.turn.1, (World.size_loops_setLoop _ _ _).symm ▸ h.turn.2⟩

/-- The loop that is driven wakes someone. -/
theorem wake (h : Tells g (.loop l) w) {k : Ref} {who : Waker} (hwho : g.Knows who) :
    Tells g (.loop l) (w.wake k who) := by
  cases who with
  | root => exact h.wakeRoot k
  | task r => exact h.wakeTask (h.world.lt_size hwho.choose_spec) fun _ => by rintro ⟨⟩

/-- The loop that is driven wakes several, one after the other. -/
theorem wakeAll (h : Tells g (.loop l) w) {k : Ref} {whos : List Waker}
    (hwhos : ∀ who ∈ whos, g.Knows who) :
    Tells g (.loop l) (whos.foldl (fun w who => w.wake k who) w) := by
  induction whos generalizing w with
  | nil => exact h
  | cons who whos ih =>
    rw [List.forall_mem_cons] at hwhos
    exact ih (h.wake hwhos.1) hwhos.2

/-- A loop changes that keeps its queue. -/
theorem setLoop (h : Tells g t w) {e : EventLoop} (hl : l < w.loops.size) (he : e.Matches g l)
    (hqueue : e.queue = (w.loop l).queue) : Tells g t (w.setLoop l e) where
  world := h.world.setLoop fun _ => he
  turn := by
    refine h.turn.of_running rfl rfl (World.size_loops_setLoop _ _ _) (List.Subset.refl _) ?_
    intro k r _ hr hmem
    refine ⟨hr, ?_⟩
    by_cases hk : l = k
    · subst hk
      rwa [World.loop_setLoop_self hl, hqueue]
    · rwa [World.loop_setLoop_of_ne hk]

/-- On a loop, the one that has the turn can be woken. -/
theorem knows_current (h : Tells g (.program place) w) (hl : w.running = some l) :
    l < w.loops.size ∧ g.Knows w.current := by
  match place with
  | none => cases h.turn.symm.trans hl
  | some (k, who) =>
    obtain ⟨hrunning, rfl, hk, hknows, -⟩ := h.turn
    cases hrunning.symm.trans hl
    exact ⟨hk, hknows⟩

/-- A task is created on the loop that is driven. It is woken, and it is not the one that has the
turn. -/
theorem create {who : Waker} (h : Tells g (.program (some (l, who))) w) (coroutine : Ref)
    (name : String) :
    Tells (g.create w.tasks.size l) (.program (some (l, who))) (w.spawn l coroutine name).2 := by
  obtain ⟨-, -, hl, -, hturn⟩ := h.turn
  obtain ⟨hclaimed, hends⟩ := h.world.fresh w.tasks.size (Nat.le_refl _)
  have hsub : g.created ⊆ (g.create w.tasks.size l).created := List.subset_append_left _ _
  have hpush := h.world.push hl (.new hclaimed hends name coroutine) (w.created + 1)
  refine wakeTask ⟨hpush, h.turn.of_running rfl rfl (World.size_loops_setLoop _ _ _) hsub ?_⟩ ?_ ?_
  · rintro k r ⟨⟩ hr hqueue
    refine ⟨⟨hsub hr.1, hr.2⟩, ?_⟩
    rw [World.loop_setLoop_self]
    · exact hqueue
    · exact hl
  · change w.tasks.size < (w.tasks.push _).size
    rw [Array.size_push]
    exact Nat.lt_succ_self _
  · rintro k ⟨⟩
    exact Nat.lt_irrefl _ (h.world.lt_size (hturn _ rfl).1.1)

/-- A task that has the turn is not woken when it is cancelled. -/
theorem cancel (h : Tells g (.program place) w) (hr : r < w.tasks.size) :
    Tells g (.program place) (w.cancelTask r) := by
  have hset : Tells g (.program place) (w.setTask r { w.task r with cancelled := true }) :=
    h.setTask hr (.refl r g) { h.world.tasks r hr with } rfl
  unfold World.cancelTask
  dsimp only
  split
  · exact hset
  · rename_i hrunning
    refine hset.wakeTask ((World.size_tasks_setTask _ _ _).symm ▸ hr) ?_
    rintro l ⟨⟩
    obtain ⟨hl, hcurrent, -⟩ := hset.turn
    exact hrunning (by simp [World.isRunning, hl, hcurrent])

theorem claim (h : Tells g (.program place) w) (hr : r < w.tasks.size) :
    Tells (g.claim r) (.program place) (w.setTask r { w.task r with hasHandle := false }) := by
  refine h.setTask hr (Ledger.sameBut_claim r g) { h.world.tasks r hr with claimed := ?_ } rfl
  exact iff_of_true rfl List.mem_cons_self

theorem awaitedBy (h : Tells g (.program place) w) (r : Ref) :
    Tells g (.program place) (w.awaitedBy r) := by
  unfold World.awaitedBy
  split
  · rename_i l hl
    by_cases hr : r < w.tasks.size
    · refine h.setTask hr (.refl r g) { h.world.tasks r hr with waiter := ?_ } rfl
      rintro _ ⟨⟩
      exact (h.knows_current hl).2
    · rwa [World.setTask_of_size_le (Nat.not_lt.mp hr)]
  · exact h

theorem receive (h : Tells g (.program place) w) {o : Ending}
    (ho : (w.task r).outcome = some o) :
    Tells (g.receive r o) (.program place) (w.setTask r { w.task r with result := some o }) := by
  have hr : r < w.tasks.size := World.lt_size_of_outcome ho
  have ht := h.world.tasks r hr
  refine h.setTask hr (Ledger.sameBut_receive r o g)
    { ht with received := fun o' => ?_, result := ?_ } rfl
  · rw [Ledger.receive, List.mem_cons, Prod.mk.injEq, Option.some_inj]
    constructor
    · rintro rfl
      exact .inl ⟨rfl, rfl⟩
    · rintro (⟨-, rfl⟩ | ho')
      · rfl
      · have hsame := ht.result o' ((ht.received o').mpr ho')
        exact Option.some_inj.mp (ho.symm.trans hsame)
  · rintro _ ⟨⟩
    exact ho

theorem yields (h : Tells g (.program place) w) : Tells g (.program place) (w.yields) := by
  unfold World.yields
  split
  · rename_i l hrunning
    obtain ⟨hl, hknows⟩ := h.knows_current hrunning
    have he := h.world.loops l hl
    refine h.setLoop hl { he with yielded := ?_ } rfl
    exact List.forall_mem_cons.mpr ⟨hknows, he.yielded⟩
  · exact h

theorem sleeps (h : Tells g (.program place) w) (time : Nat) :
    Tells g (.program place) (w.sleeps time) := by
  unfold World.sleeps
  split
  · rename_i l hrunning
    obtain ⟨hl, hknows⟩ := h.knows_current hrunning
    have he := h.world.loops l hl
    refine h.setLoop hl { he with timers := fun p hp => ?_ } rfl
    rcases mem_addTimer hp with rfl | hp
    · exact hknows
    · exact he.timers p hp
  · exact h

theorem newLoop (h : Tells g (.program none) w) : Tells g (.program none) w.newLoop.2 := by
  have hsize : w.newLoop.2.loops.size = w.loops.size + 1 := Array.size_push _
  refine ⟨{ h.world with placed := fun r l hr => ?_, loops := fun l hl => ?_ }, h.turn⟩
  · exact hsize ▸ Nat.lt_succ_of_lt (h.world.placed r l hr)
  · rcases Nat.lt_or_eq_of_le (Nat.le_of_lt_succ (hsize ▸ hl)) with hl | rfl
    · rw [World.loop_newLoop hl]
      exact h.world.loops l hl
    · rw [World.loop_newLoop_size]
      refine ⟨?_, List.nodup_nil, List.forall_mem_nil _, List.forall_mem_nil _, List.forall_mem_nil _⟩
      have hnone : ∀ p ∈ g.created, ¬(p.2 == w.loops.size) = true := fun p hp hsize =>
        Nat.lt_irrefl _ (beq_iff_eq.mp hsize ▸ h.world.placed p.1 p.2 hp)
      rw [Ledger.onLoop, List.filter_eq_nil_iff.mpr hnone]
      rfl

theorem fireTimers (h : Tells g (.loop l) w) : Tells g (.loop l) (Lang.fireTimers l w) := by
  have he := h.world.loops l h.turn.2
  have hdue := (List.takeWhile_sublist (fun p : Nat × Waker => p.1 ≤ w.now)
    (l := (w.loop l).timers)).subset
  have hlater := (List.dropWhile_sublist (fun p : Nat × Waker => p.1 ≤ w.now)
    (l := (w.loop l).timers)).subset
  have hset : Tells g (.loop l) (w.setLoop l { w.loop l with
      timers := (w.loop l).timers.dropWhile fun p => p.1 ≤ w.now }) :=
    h.setLoop h.turn.2 { he with timers := fun p hp => he.timers p (hlater hp) } rfl
  have hwake := hset.wakeAll (k := l)
    (List.forall_mem_map.mpr fun p hp => he.timers p (hdue hp))
  rwa [List.foldl_map] at hwake

theorem wakeYielded (h : Tells g (.loop l) w) : Tells g (.loop l) (Lang.wakeYielded l w) := by
  have he := h.world.loops l h.turn.2
  have hset : Tells g (.loop l) (w.setLoop l { w.loop l with yielded := [] }) :=
    h.setLoop h.turn.2 { he with yielded := List.forall_mem_nil _ } rfl
  exact hset.wakeAll he.yielded

theorem turnOfRoot (h : Tells g (.loop l) w) :
    Tells g (.program (some (l, .root)))
      { w.setLoop l { w.loop l with rootWoken := false } with current := .root } := by
  have hset := h.setLoop h.turn.2 (e := { w.loop l with rootWoken := false })
    { h.world.loops l h.turn.2 with } rfl
  refine ⟨hset.world.of_eq rfl rfl, h.turn.1, rfl, hset.turn.2, trivial, ?_⟩
  rintro _ ⟨⟩

/-- The task that has the turn next leaves the queue, in which it stood once. -/
theorem turnOfTask (h : Tells g (.loop l) w) {queue : List Ref}
    (hqueue : (w.loop l).queue = r :: queue) :
    Tells g (.program (some (l, .task r)))
      { w.setLoop l { w.loop l with queue } with current := .task r } := by
  obtain ⟨hrunning, hl⟩ := h.turn
  have he := h.world.loops l hl
  have hnodup := he.nodup
  have hmem := he.queue
  rw [hqueue, List.nodup_cons] at hnodup
  rw [hqueue, List.forall_mem_cons] at hmem
  have hset : (w.setLoop l { w.loop l with queue }).Matches g :=
    h.world.setLoop fun _ => { he with nodup := hnodup.2, queue := hmem.2 }
  refine ⟨hset.of_eq rfl rfl, hrunning, rfl, (World.size_loops_setLoop _ _ _).symm ▸ hl,
    ⟨l, hmem.1.1⟩, ?_⟩
  rintro _ ⟨⟩
  refine ⟨hmem.1, ?_⟩
  change r ∉ ((w.setLoop l { w.loop l with queue }).loop l).queue
  rw [World.loop_setLoop_self hl]
  exact hnodup.1

/-- A task ends that has the turn, and whoever awaits it is woken. -/
theorem finish (h : Tells g (.program (some (l, .task r))) w) (o : Ending) :
    Tells (g.finish r o) (.loop l) (w.finishTask r o) := by
  obtain ⟨hrunning, -, hl, -, hturn⟩ := h.turn
  obtain ⟨⟨hcreated, hunended⟩, hqueue⟩ := hturn r rfl
  have hr := h.world.lt_size hcreated
  have ht := h.world.tasks r hr
  have hset : Tells (g.finish r o) (.loop l)
      (w.setTask r { w.task r with outcome := some o, waiter := none }) := by
    refine ⟨h.world.setTask hr (Ledger.sameBut_finish r o g) ?_ fun k hk => ?_, hrunning, hl⟩
    · refine { ht with ended := fun o' => ?_, result := fun o' ho' => ?_, waiter := ?_ }
      · rw [Ledger.finish, List.mem_cons, Prod.mk.injEq, Option.some_inj]
        simp [hunended o', eq_comm]
      · exact absurd ((ht.ended o').mp (ht.result o' ho')) (hunended o')
      · rintro _ ⟨⟩
    · refine (h.world.loops k hk).finish (fun hmem => ?_) o
      cases h.world.loop_unique ((h.world.loops k hk).queue r hmem).1 hcreated
      exact hqueue hmem
  unfold World.finishTask
  dsimp only
  split
  · rename_i who hwho
    exact hset.wake (ht.waiter who hwho)
  · exact hset

end Ledger.Tells

/-- **Every act keeps** that the ledger says what the fields say. -/
theorem Act.tells {m m' : Moment} (ha : Act m m') (h : m.ledger.Tells m.turn m.world) :
    m'.ledger.Tells m'.turn m'.world := by
  cases ha with
  | other htasks hloops hrunning hcurrent => exact h.other htasks hloops hrunning hcurrent
  | create => exact h.create _ _
  | cancel hr => exact h.cancel hr
  | claim hr => exact h.claim hr
  | awaitedBy => exact h.awaitedBy _
  | receive ho => exact h.receive ho
  | yields => exact h.yields
  | sleeps => exact h.sleeps _
  | newLoop => exact h.newLoop
  | enter hl => exact ⟨h.world.of_eq rfl rfl, rfl, hl⟩
  | leave => exact ⟨h.world.of_eq rfl rfl, rfl⟩
  | wakeRoot => exact h.wakeRoot _
  | fireTimers => exact h.fireTimers
  | wakeYielded => exact h.wakeYielded
  | turnOfRoot => exact h.turnOfRoot
  | turnOfTask hqueue => exact h.turnOfTask hqueue
  | wait => exact ⟨h.world, h.turn.1, h.turn.2.2.1⟩
  | finish => exact h.finish _

/-- **Whatever the history,** its ledger says what the fields of tasks and loops say. -/
theorem History.tells {m : Moment} (h : History m) : m.ledger.Tells m.turn m.world := by
  induction h with
  | refl =>
    refine ⟨⟨rfl, ?_, ?_, ?_, ?_⟩, rfl⟩
    · rintro _ _ ⟨⟩
    · exact fun _ _ => ⟨List.not_mem_nil, fun _ => ⟨List.not_mem_nil, List.not_mem_nil⟩⟩
    · exact fun r hr => absurd hr (Nat.not_lt_zero r)
    · exact fun l hl => absurd hl (Nat.not_lt_zero l)
  | tail _ ha ih => exact ha.tells ih

/-- **The coroutine of a task ends in one way.** -/
theorem History.ended_unique {m : Moment} (h : History m) {r : Ref} {o o' : Ending}
    (ho : (r, o) ∈ m.ledger.ended) (ho' : (r, o') ∈ m.ledger.ended) : o = o' := by
  have hr : r < m.world.tasks.size :=
    Nat.lt_of_not_le fun hle => ((h.tells.world.fresh r hle).2 o).1 ho
  have ht := h.tells.world.tasks r hr
  exact Option.some_inj.mp (((ht.ended o).mpr ho).symm.trans ((ht.ended o').mpr ho'))

end Transcript.Lang
