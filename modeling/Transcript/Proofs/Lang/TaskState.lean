import Transcript.Proofs.Lang.Program
import Transcript.Lang.Interpreter

/-!
# What tasks tell of themselves

A task is asked whether it is done and what its result is, and a loop how many of its tasks are pending.
The answers come from two things that others move while they await the task: the right to await it, and
the outcome once it has been received. After any history, a task says that it is done exactly if its
coroutine has ended or somebody has taken the right to await it. So the answers are right as long as
no task is awaited that has not ended, and wrong otherwise; and a result can be read only after it has
been received.

Results:
* `Hosted.history`: every state that a host brings about has a history.
* `saysDone_iff`, `pending_eq`, `answer_result`: what is said, whatever the history.
* `tasks_tell`: when what is said is right.
-/

namespace Transcript.Lang

/-! ## What is said -/

/-- What a task answers when a method of it is called without arguments. -/
def World.answer (w : World) (r : Ref) (m : Method) : Except Problem Ending :=
  (callMethod (.task r) m [] [] w).map Prod.fst

/-- A task that says that it is done. -/
def World.SaysDone (w : World) (r : Ref) : Prop := w.answer r .done = .ok (.ok (.bool true))

theorem World.saysDone_iff_isDone (w : World) (r : Ref) : w.SaysDone r ↔ (w.task r).isDone = true := by
  have hanswer : w.answer r .done = .ok (.ok (.bool (w.task r).isDone)) := rfl
  rw [SaysDone, hanswer]
  simp

theorem World.answer_result_eq (w : World) (r : Ref) :
    w.answer r .result = (w.task r).result.elim (.error .resultNotSet) .ok := by
  have hcheck : Arguments.check ⟨Method.result.name, [], []⟩ 0 0 [] = pure () := rfl
  have hanswer : w.answer r .result =
      ((callTask r .result ⟨Method.result.name, [], []⟩).run w).map Prod.fst := rfl
  rw [hanswer, callTask, hcheck, pure_bind, StateT.run_bind, StateT.run_get, pure_bind]
  cases (w.task r).result with
  | none => rfl
  | some o => rfl

namespace Moment

/-- **What a task says of being done is right:** it says so exactly if its coroutine has returned, raised
or been cancelled. -/
def DoneTells (m : Moment) : Prop :=
  ∀ r l, (r, l) ∈ m.ledger.created → (m.world.SaysDone r ↔ m.ledger.hasEnded r = true)

/-- **What loops say of pending tasks is right:** they count those whose coroutines have not ended. -/
def PendingTells (m : Moment) : Prop :=
  ∀ l < m.world.loops.size,
    m.world.pending l = ((m.ledger.onLoop l).filter fun r => !m.ledger.hasEnded r).length

/-- **What done tasks say of their results is right:** they give what their coroutines have returned or
raised. -/
def ResultTells (m : Moment) : Prop :=
  ∀ r l, (r, l) ∈ m.ledger.created → m.world.SaysDone r →
    ∃ o, (r, o) ∈ m.ledger.ended ∧ m.world.answer r .result = .ok o

end Moment

namespace History

variable {m : Moment} {r l : Ref}

/-- **A task says that it is done** exactly if its coroutine has ended or somebody has taken the right to
await it. -/
theorem saysDone_iff (h : History m) (hr : (r, l) ∈ m.ledger.created) :
    m.world.SaysDone r ↔ m.ledger.hasEnded r = true ∨ r ∈ m.ledger.claimed := by
  have ht := h.tells.world.tasks r (h.tells.world.lt_size hr)
  have hended : (m.world.task r).outcome.isSome = true ↔ m.ledger.hasEnded r = true := by
    rw [Option.isSome_iff_exists, Ledger.hasEnded_iff]
    exact exists_congr ht.ended
  rw [World.saysDone_iff_isDone, Task.isDone, Bool.or_eq_true, Bool.or_eq_true, Bool.not_eq_true',
    ht.claimed, hended]
  constructor
  · rintro ((hresult | hclaimed) | hended)
    · obtain ⟨o, ho⟩ := Option.isSome_iff_exists.mp hresult
      exact .inl (Ledger.hasEnded_iff.mpr ⟨o, (ht.ended o).mp (ht.result o ho)⟩)
    · exact .inr hclaimed
    · exact .inl hended
  · rintro (hended | hclaimed)
    · exact .inr hended
    · exact .inl (.inr hclaimed)

/-- **A loop counts as pending** the tasks that have not ended and that nobody has taken the right to
await. -/
theorem pending_eq (h : History m) (hl : l < m.world.loops.size) :
    m.world.pending l = ((m.ledger.onLoop l).filter fun r =>
      !(m.ledger.hasEnded r || m.ledger.claimed.contains r)).length := by
  rw [World.pending, (h.tells.world.loops l hl).tasks]
  refine congrArg List.length (List.filter_congr fun r hr => ?_)
  rw [Ledger.mem_onLoop] at hr
  rw [Bool.not_inj_iff, Bool.eq_iff_iff, ← World.saysDone_iff_isDone, h.saysDone_iff hr, Bool.or_eq_true,
    List.contains_iff_mem]

/-- **What has been received** is how the coroutine has ended. -/
theorem ended_of_received (h : History m) {o : Ending} (ho : (r, o) ∈ m.ledger.received) :
    (r, o) ∈ m.ledger.ended := by
  have hr : r < m.world.tasks.size :=
    Nat.lt_of_not_le fun hle => ((h.tells.world.fresh r hle).2 o).2 ho
  have ht := h.tells.world.tasks r hr
  exact (ht.ended o).mp (ht.result o ((ht.received o).mpr ho))

/-- **A task has a result** exactly if it has been received. -/
theorem answer_result (h : History m) (hr : (r, l) ∈ m.ledger.created) (o : Ending) :
    m.world.answer r .result = .ok o ↔ (r, o) ∈ m.ledger.received := by
  have ht := h.tells.world.tasks r (h.tells.world.lt_size hr)
  rw [← ht.received]
  rw [World.answer_result_eq]
  cases (m.world.task r).result with
  | none => simp
  | some o' => simp

/-! ## When it is right -/

/-- A task of which somebody has taken the right to await it has been created. -/
theorem created_of_claimed (h : History m) (hr : r ∈ m.ledger.claimed) :
    ∃ l, (r, l) ∈ m.ledger.created :=
  ⟨_, (h.tells.world.tasks r (Nat.lt_of_not_le fun hle => (h.tells.world.fresh r hle).1 hr)).created⟩

theorem doneTells_iff (h : History m) :
    m.DoneTells ↔ ∀ r ∈ m.ledger.claimed, m.ledger.hasEnded r = true := by
  constructor
  · intro htells r hr
    obtain ⟨l, hl⟩ := h.created_of_claimed hr
    exact (htells r l hl).mp ((h.saysDone_iff hl).mpr (.inr hr))
  · intro hclaimed r l hl
    rw [h.saysDone_iff hl]
    exact or_iff_left_of_imp (hclaimed r)

theorem pendingTells_iff (h : History m) :
    m.PendingTells ↔ ∀ r ∈ m.ledger.claimed, m.ledger.hasEnded r = true := by
  constructor
  · intro htells r hr
    obtain ⟨l, hl⟩ := h.created_of_claimed hr
    have hlt := h.tells.world.placed r l hl
    -- Who is counted is not claimed, so a claimed task that has not ended would be missing.
    have hcount := (h.pending_eq hlt).symm.trans (htells l hlt)
    simp only [Bool.not_or, Bool.and_comm, ← List.filter_filter,
      List.length_filter_eq_length_iff] at hcount
    by_contra hended
    rw [Bool.not_eq_true] at hended
    have hmem : r ∈ (m.ledger.onLoop l).filter fun r => !m.ledger.hasEnded r :=
      List.mem_filter.mpr ⟨Ledger.mem_onLoop.mpr hl, by rw [hended, Bool.not_false]⟩
    have hunclaimed := hcount r hmem
    rw [Bool.not_eq_true', ← Bool.not_eq_true, List.contains_iff_mem] at hunclaimed
    exact hunclaimed hr
  · intro hclaimed l hl
    rw [h.pending_eq hl]
    refine congrArg List.length (List.filter_congr fun r hr => congrArg (!·) ?_)
    rw [Bool.or_eq_left_iff_imp, List.contains_iff_mem]
    exact hclaimed r

theorem resultTells_iff (h : History m) :
    m.ResultTells ↔ ∀ r l, (r, l) ∈ m.ledger.created →
      m.ledger.hasEnded r = true ∨ r ∈ m.ledger.claimed → ∃ o, (r, o) ∈ m.ledger.received := by
  constructor
  · intro htells r l hl hdone
    obtain ⟨o, -, ho⟩ := htells r l hl ((h.saysDone_iff hl).mpr hdone)
    exact ⟨o, (h.answer_result hl o).mp ho⟩
  · intro hreceived r l hl hdone
    obtain ⟨o, ho⟩ := hreceived r l hl ((h.saysDone_iff hl).mp hdone)
    exact ⟨o, h.ended_of_received ho, (h.answer_result hl o).mpr ho⟩

end History

/-! ## What a host does -/

/-- **The states that a host brings about,** with the event loops that it holds open. It compiles and
evaluates what it likes, and drives its loops in any order. -/
inductive Hosted : World → List OpenLoop → Prop
  /-- The first state. -/
  | empty : Hosted .empty []
  /-- Code has been evaluated. -/
  | evaluate {w w' : World} {loops : List OpenLoop} {code : Code} {globals : Ref} {o : Outcome}
      (h : Hosted w loops) (ho : evaluate code globals w = some (o, w')) : Hosted w' loops
  /-- An event loop has been opened. -/
  | new {w w' : World} {loops : List OpenLoop} {l : OpenLoop} (h : Hosted w loops)
      (hl : OpenLoop.new w = some (l, w')) : Hosted w' (l :: loops)
  /-- A value has been awaited on a loop. -/
  | complete {w w' : World} {before after : List OpenLoop} {l l' : OpenLoop} {v : Value} {o : Outcome}
      (h : Hosted w (before ++ l :: after)) (ho : l.complete v w = some ((o, l'), w')) :
      Hosted w' (before ++ l' :: after)
  /-- A loop has been closed. -/
  | close {w w' : World} {before after : List OpenLoop} {l : OpenLoop} {u : Unit}
      (h : Hosted w (before ++ l :: after)) (hu : l.close w = some (u, w')) :
      Hosted w' (before ++ after)
  /-- The host has changed something itself: anything but tasks and loops. -/
  | host {w w' : World} {loops : List OpenLoop} (h : Hosted w loops) (htasks : w'.tasks = w.tasks)
      (hloops : w'.loops = w.loops) (hrunning : w'.running = w.running)
      (hcurrent : w'.current = w.current) : Hosted w' loops

/-- An open loop whose waiting tasks go on by acts. -/
def OpenLoop.Acts (w : World) (l : OpenLoop) : Prop :=
  l.ref < w.loops.size ∧ Threads.Acts l.ref l.threads

theorem OpenLoop.Acts.of_leads {t t' : Turn} {w w' : World} {g g' : Ledger} {l : OpenLoop}
    (h : l.Acts w) (hl : Leads ⟨t, w, g⟩ ⟨t', w', g'⟩) : l.Acts w' :=
  ⟨Nat.lt_of_lt_of_le h.1 (Leads.size_le hl), h.2⟩

theorem Host.leads_of_ofEval {α : Type} {x : Eval α} (hx : x.Acts (.program none)) {w w' : World}
    {g : Ledger} (h : History ⟨.program none, w, g⟩) {o : Except Exc α}
    (ho : Host.ofEval x w = some (o, w')) :
    ∃ g', Leads ⟨.program none, w, g⟩ ⟨.program none, w', g'⟩ := by
  have hstep : Step.Acts (.program none) ⟨.program none, w, g⟩ (x w) := hx w g h
  unfold Host.ofEval at ho
  generalize x w = s at hstep ho
  cases hstep with
  | done hl =>
    cases ho
    exact ⟨_, hl⟩
  | wait hl _ =>
    cases ho
    exact ⟨_, hl.tail (.other rfl rfl rfl rfl)⟩
  | halt => cases ho

/-- **Every state that a host brings about has a history,** and the tasks that wait on its open loops go
on by acts. -/
theorem Hosted.history {w : World} {loops : List OpenLoop} (h : Hosted w loops) :
    ∃ g, History ⟨.program none, w, g⟩ ∧ ∀ l ∈ loops, l.Acts w := by
  have hstart (place : Option (Ref × Waker)) (r : Ref) :
      (runCoroutine plainly horizon r).Acts (.program place) := (acting horizon).runCoroutine place r
  induction h with
  | empty => exact ⟨.empty, .refl, List.forall_mem_nil _⟩
  | @evaluate w w' loops code globals o _ ho ih =>
    obtain ⟨g, h, hloops⟩ := ih
    have hled : ∃ g', Leads ⟨.program none, w, g⟩ ⟨.program none, w', g'⟩ := by
      unfold Lang.evaluate at ho
      split at ho
      · exact Host.leads_of_ofEval (.ofOp (newCoroutine_acts _ _)) h ho
      · exact Host.leads_of_ofEval ((acting horizon).runModule none code globals) h ho
    obtain ⟨g', hg'⟩ := hled
    exact ⟨g', h.trans hg', fun l hl => (hloops l hl).of_leads hg'⟩
  | @new w _ loops _ _ hl ih =>
    obtain ⟨g, h, hloops⟩ := ih
    cases hl
    have hnew : Leads ⟨.program none, w, g⟩ ⟨.program none, w.newLoop.2, g⟩ := .single .newLoop
    refine ⟨g, h.trans hnew, List.forall_mem_cons.mpr ⟨⟨?_, .nil⟩, ?_⟩⟩
    · exact World.size_loops_newLoop w ▸ Nat.lt_succ_self w.loops.size
    · exact fun l hl => (hloops l hl).of_leads hnew
  | @complete w w' before after l l' v o _ ho ih =>
    obtain ⟨g, h, hloops⟩ := ih
    rw [List.forall_mem_append, List.forall_mem_cons] at hloops
    obtain ⟨hbefore, hl, hafter⟩ := hloops
    unfold OpenLoop.complete at ho
    cases hdrive : driveOn (runCoroutine plainly horizon) l.ref horizon (awaitValue plainly horizon v)
      l.threads w with
    | error why =>
      rw [hdrive] at ho
      cases ho
    | ok x =>
      rw [hdrive] at ho
      cases ho
      obtain ⟨ht, g', hg'⟩ := driveOn_acts hstart horizon ((acting horizon).awaitValue _ v) hl.2 h hl.1
        hdrive
      have hkept : OpenLoop.Acts x.2.2 ⟨l.ref, x.2.1⟩ := ⟨(hl.of_leads hg').1, ht⟩
      refine ⟨g', h.trans hg', List.forall_mem_append.mpr ⟨?_, List.forall_mem_cons.mpr ⟨hkept, ?_⟩⟩⟩
      · exact fun k hk => (hbefore k hk).of_leads hg'
      · exact fun k hk => (hafter k hk).of_leads hg'
  | @close w w' before after l u _ hu ih =>
    obtain ⟨g, h, hloops⟩ := ih
    rw [List.forall_mem_append, List.forall_mem_cons] at hloops
    obtain ⟨hbefore, hl, hafter⟩ := hloops
    unfold OpenLoop.close at hu
    cases hclose : closeLoop (runCoroutine plainly horizon) l.ref horizon l.threads w with
    | error why =>
      rw [hclose] at hu
      cases hu
    | ok w₁ =>
      rw [hclose] at hu
      cases hu
      obtain ⟨g', hg'⟩ := closeLoop_acts hstart horizon hl.2 h hl.1 hclose
      refine ⟨g', h.trans hg', List.forall_mem_append.mpr ⟨?_, ?_⟩⟩
      · exact fun k hk => (hbefore k hk).of_leads hg'
      · exact fun k hk => (hafter k hk).of_leads hg'
  | @host w w' _ _ htasks hloops hrunning hcurrent ih =>
    obtain ⟨g, h, hopen⟩ := ih
    have hother : Leads ⟨.program none, w, g⟩ ⟨.program none, w', g⟩ :=
      .single (.other htasks hloops hrunning hcurrent)
    exact ⟨g, h.trans hother, fun l hl => (hopen l hl).of_leads hother⟩

/-! ## What tasks tell -/

/-- **What tasks tell is right exactly while nobody waits for one that has not ended.** Whatever the
history, a task says that it is done if its coroutine has ended or somebody has taken the right to await
it, and it gives as its result what who awaited it has received, which is how its coroutine has ended. So
what tasks say of being done is right, and so is what loops say of pending tasks, exactly if all tasks
have ended for which the right to await them was taken; and what done tasks say of their results is right
exactly if somebody has received them. Every state that a host brings about has a history, and a
coroutine that has the turn goes on by acts. -/
theorem tasks_tell {m : Moment} (h : History m) :
    (∀ r l, (r, l) ∈ m.ledger.created →
      (m.world.SaysDone r ↔ m.ledger.hasEnded r = true ∨ r ∈ m.ledger.claimed) ∧
      ∀ o, (m.world.answer r .result = .ok o ↔ (r, o) ∈ m.ledger.received) ∧
        ((r, o) ∈ m.ledger.received → (r, o) ∈ m.ledger.ended)) ∧
    (m.DoneTells ↔ ∀ r ∈ m.ledger.claimed, m.ledger.hasEnded r = true) ∧
    (m.PendingTells ↔ ∀ r ∈ m.ledger.claimed, m.ledger.hasEnded r = true) ∧
    (m.ResultTells ↔ ∀ r l, (r, l) ∈ m.ledger.created →
      m.ledger.hasEnded r = true ∨ r ∈ m.ledger.claimed → ∃ o, (r, o) ∈ m.ledger.received) ∧
    (∀ w loops, Hosted w loops → ∃ g, History ⟨.program none, w, g⟩) ∧
    ∀ place fuel r, (runCoroutine plainly fuel r).Acts (.program place) := by
  refine ⟨fun r l hr => ⟨h.saysDone_iff hr, fun o => ?_⟩, h.doneTells_iff, h.pendingTells_iff,
    h.resultTells_iff, fun w loops hw => ?_, fun place fuel => (acting fuel).runCoroutine place⟩
  · exact ⟨h.answer_result hr o, h.ended_of_received⟩
  · obtain ⟨g, hg, -⟩ := hw.history
    exact ⟨g, hg⟩

/-- A loop is opened and driven; its root creates a task, and then it takes the right to await it. -/
theorem exists_created : ∃ w g w' g',
    History ⟨.program (some (0, .root)), w, g⟩ ∧
    Leads ⟨.program (some (0, .root)), w, g⟩ ⟨.program (some (0, .root)), w', g'⟩ ∧
    g = ⟨[(0, 0)], [], [], []⟩ ∧ g' = ⟨[(0, 0)], [0], [], []⟩ := by
  have hopened : History ⟨.program none, World.empty.newLoop.2, .empty⟩ := .single .newLoop
  have hturn := (hopened.tail (.enter (Nat.zero_lt_succ 0))).tail .turnOfRoot
  have hcreated := hturn.tail (@Act.create 0 0 .root "Task-1" _ _)
  exact ⟨_, _, _, _, hcreated, .single (.claim (r := 0) (Nat.zero_lt_succ 0)), rfl, rfl⟩

/-- A loop is opened and driven; its root creates a task and takes the right to await it. Then the root
waits, the task has its turn and returns nothing, and the root receives that. -/
theorem exists_awaited : ∃ m m', History m ∧ History m' ∧
    m.ledger = ⟨[(0, 0)], [0], [], []⟩ ∧
    m'.ledger = ⟨[(0, 0)], [0], [(0, .ok .none)], [(0, .ok .none)]⟩ := by
  have hopened : History ⟨.program none, World.empty.newLoop.2, .empty⟩ := .single .newLoop
  have hturn := (hopened.tail (.enter (Nat.zero_lt_succ 0))).tail .turnOfRoot
  have hclaimed := (hturn.tail (@Act.create 0 0 .root "Task-1" _ _)).tail
    (.claim (Nat.zero_lt_succ 0))
  have hwaits := (hclaimed.tail (.awaitedBy (r := 0))).tail .wait
  have hended := (hwaits.tail (.turnOfTask rfl)).tail (.finish (o := .ok .none))
  have hreceived := (hended.tail .turnOfRoot).tail (.receive (r := 0) (o := .ok .none) rfl)
  exact ⟨_, _, hclaimed, hreceived, rfl, rfl⟩

/-- While the root waits for a task, nothing that is told is right; after it has received the outcome,
everything is. -/
theorem tasks_tell_awaited : (∃ g, History ⟨.program none, World.empty.newLoop.2, g⟩) ∧
    ∃ m m', History m ∧ History m' ∧
      (¬m.DoneTells ∧ ¬m.PendingTells ∧ ¬m.ResultTells) ∧
      m'.DoneTells ∧ m'.PendingTells ∧ m'.ResultTells := by
  obtain ⟨m, m', hm, hm', hledger, hledger'⟩ := exists_awaited
  obtain ⟨-, hdone, hpending, hresult, hhosted, -⟩ := tasks_tell hm
  obtain ⟨-, hdone', hpending', hresult', -, -⟩ := tasks_tell hm'
  have hwaits : ¬∀ r ∈ m.ledger.claimed, m.ledger.hasEnded r = true := by
    rw [hledger]
    exact fun h => Bool.noConfusion (h 0 List.mem_cons_self)
  have hended : ∀ r ∈ m'.ledger.claimed, m'.ledger.hasEnded r = true := by
    rw [hledger']
    exact List.forall_mem_singleton.mpr rfl
  refine ⟨hhosted _ _ (.new .empty rfl), m, m', hm, hm', ⟨mt hdone.mp hwaits,
    mt hpending.mp hwaits, fun h => ?_⟩, hdone'.mpr hended, hpending'.mpr hended, hresult'.mpr ?_⟩
  · obtain ⟨o, ho⟩ := hresult.mp h 0 0 (hledger ▸ List.mem_cons_self) (hledger ▸ .inr List.mem_cons_self)
    rw [hledger] at ho
    cases ho
  · rintro r l hr -
    rw [hledger'] at hr ⊢
    cases List.mem_singleton.mp hr
    exact ⟨_, List.mem_cons_self⟩

/-- A task that is awaited says that it is done before its coroutine has begun: the coroutine of the task
writes `0`, and the one that runs beside the await writes what the task says. -/
theorem awaited_task_says_done :
    ¬(∀ m, History m → m.DoneTells ∧ m.PendingTells ∧ m.ResultTells) ∧
    ((compile ("import asyncio\nasync def s(): print(0)\nasync def o(t): print(t.done())\n".toList ++
        "async def m():\n t = asyncio.create_task(s())\n await asyncio.gather(t, o(t))\n".toList ++
        "asyncio.run(m())\n".toList) "<test>" .exec false).toOption.bind fun code =>
      (evaluate code 0 (World.empty.newSpace .empty).2).map fun r => r.2.output) =
        some "True\n0\n".toList := by
  refine ⟨fun htells => ?_, by
    repeat rw [String.toList_ofList]
    decide +kernel⟩
  obtain ⟨m, -, hm, -, hledger, -⟩ := exists_awaited
  have hended := hm.doneTells_iff.mp (htells m hm).1 0 (hledger ▸ List.mem_cons_self)
  rw [hledger] at hended
  cases hended

end Transcript.Lang
