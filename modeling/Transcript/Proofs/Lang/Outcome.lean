import Transcript.Proofs.Lang.TaskState

/-!
# What awaiting a task gives

Who awaits a task takes the right to do so, and the outcome is kept for others only when he has received
it. So an await that begins before anybody has taken this right, or after the outcome was received, gives
the outcome of the task, whoever else awaits it. One that begins in between fails at once, also if the
task has ended, and although whoever has taken the right may never go on.

Results:
* `awaitTask_run`: an await told by what the task shows when it begins.
* `awaitTask_gives`, `awaitTask_of_taken`: it gives the outcome of the task, or fails.
* `History.ended_same`: the outcome of a task stays what it is.
* `runTask_ended`: a task ends as its coroutine has ended, or as a cancelled one.
* `awaits_agree`: all awaits that do not fail so give what the coroutine of the task has given.
-/

namespace Transcript.Lang

/-! ## One await -/

theorem receiveOutcome_run {r : Ref} {w : World} {o : Ending} (ho : (w.task r).outcome = some o) :
    (receiveOutcome r).run w = .done o (w.setTask r { w.task r with result := some o }) := by
  have hgetD : (w.task r).outcome.getD cancelledEnding = o := by rw [ho, Option.getD_some]
  subst hgetD
  rfl

/-- **An await** told by what the task shows when it begins. -/
theorem awaitTask_run (r : Ref) (w : World) :
    (awaitTask r).run w =
      match (w.task r).result with
      | some o => .done o w
      | none =>
        if (w.task r).hasHandle then
          let w' := w.setTask r { w.task r with hasHandle := false }
          if (w.task r).outcome.isNone then
            .wait (.task r) (w'.awaitedBy r) (receiveOutcome r).run
          else (receiveOutcome r).run w'
        else (Eval.fail .handleTaken).run w := by
  have hread : (awaitTask r).run w = (match (w.task r).result with
      | some o => Eval.ofEnding o
      | none =>
        if !(w.task r).hasHandle then Eval.fail .handleTaken
        else do
          Eval.modify fun w' => w'.setTask r { w.task r with hasHandle := false }
          if (w.task r).outcome.isNone then
            Eval.modify (·.awaitedBy r)
            Eval.ofRun (Run.wait (.task r))
          receiveOutcome r : Eval Value).run w := rfl
  rw [hread]
  cases (w.task r).result with
  | some o => rfl
  | none =>
    cases (w.task r).hasHandle with
    | false => rfl
    | true => cases (w.task r).outcome <;> rfl

/-- **A step that comes to a result** as it should be, when whatever it waits for has happened. It never
halts. -/
inductive Step.Gives {α : Type} (t : Turn) (Q : Ledger → α → Prop) : Moment → Step α → Prop
  /-- It has its result after these acts. -/
  | done {m : Moment} {a : α} {w : World} {g : Ledger} (h : Leads m ⟨t, w, g⟩) (ha : Q g a) :
      Gives t Q m (.done a w)
  /-- It waits after these acts, and comes to a result whenever the wait is over. -/
  | wait {m : Moment} {what : Wait} {w : World} {g : Ledger} {resume : World → Step α}
      (h : Leads m ⟨t, w, g⟩)
      (hresume : ∀ w' g', History ⟨t, w', g'⟩ → what.isOver w' = true →
        Gives t Q ⟨t, w', g'⟩ (resume w')) : Gives t Q m (.wait what w resume)

/-- **An await of a task gives its outcome:** every result that it comes to is how the coroutine of the
task has ended. -/
def AwaitGives (m : Moment) (r : Ref) (x : Eval Value) : Prop :=
  (x.run m.world).Gives m.turn (fun g o => (r, o) ∈ g.ended) m

theorem Step.Gives.of_leads {α : Type} {t : Turn} {Q : Ledger → α → Prop} {m m' : Moment} {s : Step α}
    (h : s.Gives t Q m') (hm : Leads m m') : s.Gives t Q m := by
  cases h with
  | done h ha => exact .done (hm.trans h) ha
  | wait h hresume => exact .wait (hm.trans h) hresume

section

variable {place : Option (Ref × Waker)} {w : World} {g : Ledger} {r l : Ref}

/-- What is received of a task that has ended is how its coroutine has. -/
theorem receiveOutcome_gives (h : History ⟨.program place, w, g⟩)
    (ho : (w.task r).outcome.isSome = true) :
    AwaitGives ⟨.program place, w, g⟩ r (receiveOutcome r) := by
  obtain ⟨o, ho⟩ := Option.isSome_iff_exists.mp ho
  have hended : (r, o) ∈ g.ended :=
    ((h.tells.world.tasks r (World.lt_size_of_outcome ho)).ended o).mp ho
  unfold AwaitGives
  rw [receiveOutcome_run ho]
  exact .done (.single (.receive ho)) hended

/-- **An await gives the outcome** if somebody has received it, or nobody has taken the right to await
the task yet. -/
theorem awaitTask_gives (h : History ⟨.program place, w, g⟩) (hr : (r, l) ∈ g.created)
    (hopen : (∃ o, (r, o) ∈ g.received) ∨ r ∉ g.claimed) :
    AwaitGives ⟨.program place, w, g⟩ r (awaitTask r) := by
  have hlt : r < w.tasks.size := h.tells.world.lt_size hr
  have ht : (w.task r).Matches g r := h.tells.world.tasks r hlt
  unfold AwaitGives
  rw [awaitTask_run]
  cases hresult : (w.task r).result with
  | some o => exact .done .refl (h.ended_of_received ((ht.received o).mp hresult))
  | none =>
    have hunclaimed : r ∉ g.claimed := by
      refine hopen.resolve_left fun ⟨o, ho⟩ => ?_
      cases hresult.symm.trans ((ht.received o).mpr ho)
    have hhandle : (w.task r).hasHandle = true := by
      rw [← Bool.not_eq_false, ht.claimed]
      exact hunclaimed
    have hclaim : Act ⟨.program place, w, g⟩
        ⟨.program place, w.setTask r { w.task r with hasHandle := false }, g.claim r⟩ := .claim hlt
    dsimp only
    rw [if_pos hhandle]
    by_cases houtcome : (w.task r).outcome.isNone = true
    · rw [if_pos houtcome]
      refine .wait ((Relation.ReflTransGen.single hclaim).tail .awaitedBy) fun w' g' h' hover => ?_
      exact receiveOutcome_gives h' hover
    · rw [if_neg houtcome]
      have hends : ((w.setTask r { w.task r with hasHandle := false }).task r).outcome.isSome = true := by
        rw [World.task_setTask_self hlt]
        exact Option.isSome_iff_ne_none.mpr fun hnone => houtcome (Option.isNone_iff_eq_none.mpr hnone)
      exact Step.Gives.of_leads (receiveOutcome_gives (h.tail hclaim) hends) (.single hclaim)

/-- **An await fails** if somebody has taken the right to await the task and nobody has received its
outcome. -/
theorem awaitTask_of_taken (h : History ⟨.program place, w, g⟩) (hr : r ∈ g.claimed)
    (hreceived : ∀ o, (r, o) ∉ g.received) :
    (awaitTask r).run w = (Eval.fail .handleTaken : Eval Value).run w := by
  obtain ⟨l, hl⟩ := h.created_of_claimed hr
  have ht := h.tells.world.tasks r (h.tells.world.lt_size hl)
  have hresult : (w.task r).result = none :=
    Option.eq_none_iff_forall_ne_some.mpr fun o ho => hreceived o ((ht.received o).mp ho)
  have hhandle : ¬(w.task r).hasHandle = true := by
    rw [ht.claimed.mpr hr]
    exact Bool.false_ne_true
  rw [awaitTask_run, hresult]
  dsimp only
  rw [if_neg hhandle]

end

/-! ## Outcomes stay -/

theorem Act.ended_subset {m m' : Moment} (ha : Act m m') : m.ledger.ended ⊆ m'.ledger.ended := by
  cases ha with
  | finish => exact List.subset_cons_self _ _
  | _ => exact List.Subset.refl _

theorem Leads.ended_subset {m m' : Moment} (h : Leads m m') : m.ledger.ended ⊆ m'.ledger.ended := by
  induction h with
  | refl => exact List.Subset.refl _
  | tail _ ha ih => exact List.Subset.trans ih ha.ended_subset

/-- **The outcome of a task stays what it is.** -/
theorem History.ended_same {m m' : Moment} (h : History m) (hm : Leads m m') {r : Ref} {o o' : Ending}
    (ho : (r, o) ∈ m.ledger.ended) (ho' : (r, o') ∈ m'.ledger.ended) : o' = o :=
  History.ended_unique (h.trans hm) ho' (hm.ended_subset ho)

/-! ## What ends a task -/

/-- How a turn of a task ends its coroutine, if it does: as that returns or raises, or as a cancelled
one if the task was cancelled before its turn or is cancelled when it waits. -/
def turnEnding? (start : Ref → Run Ending) (r : Ref) (threads : Threads) (w : World) : Option Ending :=
  if (w.task r).cancelled then some cancelledEnding
  else
    match turn start r threads { w with current := .task r } with
    | .done o _ => some o
    | .wait _ w _ => if (w.task r).cancelled then some cancelledEnding else none
    | .halt _ => none

theorem World.outcome_finishTask {w : World} {r : Ref} (hr : r < w.tasks.size) (o : Ending) :
    ((w.finishTask r o).task r).outcome = some o := by
  have hset : ((w.setTask r { w.task r with outcome := some o, waiter := none }).task r).outcome =
      some o := by
    rw [World.task_setTask_self hr]
  unfold World.finishTask
  dsimp only
  split
  · unfold World.task at hset ⊢
    rwa [World.tasks_wake]
  · exact hset

/-- **A turn of a task ends its coroutine** as the turn does, and not otherwise. -/
theorem runTask_ended {start : Ref → Run Ending}
    (hstart : ∀ (place : Option (Ref × Waker)) (r : Ref), (start r).Acts (.program place))
    {l r : Ref} {threads threads' : Threads} {w w' : World} {g g' : Ledger}
    (ht : Threads.Acts l threads)
    (h : History ⟨.program (some (l, .task r)), { w with current := .task r }, g⟩)
    (hrun : runTask start r threads w = .ok (threads', w')) (h' : History ⟨.loop l, w', g'⟩)
    (o : Ending) : (r, o) ∈ g'.ended ↔ turnEnding? start r threads w = some o := by
  have hsize {w : World} {g : Ledger} (h : History ⟨.program (some (l, .task r)), w, g⟩) :
      r < w.tasks.size := by
    obtain ⟨k, hk⟩ := h.tells.turn.2.2.2.1
    exact h.tells.world.lt_size hk
  suffices houtcome : r < w'.tasks.size ∧ (w'.task r).outcome = turnEnding? start r threads w by
    rw [← houtcome.2]
    exact ((h'.tells.world.tasks r houtcome.1).ended o).symm
  have hfinish {w₁ : World} {g₁ : Ledger} (h₁ : History ⟨.program (some (l, .task r)), w₁, g₁⟩)
      (o : Ending) : r < (w₁.finishTask r o).tasks.size ∧
        ((w₁.finishTask r o).task r).outcome = some o :=
    ⟨World.size_tasks_finishTask w₁ r o ▸ hsize h₁, World.outcome_finishTask (hsize h₁) o⟩
  rw [runTask_eq] at hrun
  unfold turnEnding?
  split at hrun
  · cases hrun
    rename_i hcancelled
    rw [if_pos hcancelled]
    exact hfinish h _
  · rename_i hcancelled
    rw [if_neg hcancelled]
    have hturn := turn_acts hstart ht h
    generalize turn start r threads _ = step at hturn hrun
    cases hturn with
    | done hl =>
      cases hrun
      exact hfinish (h.trans hl) _
    | wait hl _ =>
      unfold afterTurn at hrun
      dsimp only at hrun ⊢
      split at hrun
      · cases hrun
        rename_i hcancelled
        rw [if_pos hcancelled]
        exact hfinish (h.trans hl) _
      · cases hrun
        rename_i hcancelled
        rw [if_neg hcancelled]
        have hwaits : History ⟨.program (some (l, .task r)), w', _⟩ := h.trans hl
        refine ⟨hsize hwaits, Option.eq_none_iff_forall_ne_some.mpr fun o ho => ?_⟩
        have hunended := (hwaits.tells.turn.2.2.2.2 r rfl).1.2
        exact hunended o (((hwaits.tells.world.tasks r (hsize hwaits)).ended o).mp ho)
    | halt => cases hrun

/-! ## All awaits -/

/-- **All awaits of a task agree,** except for those that fail since another one is under way. At any
moment, an await of a task gives its outcome if somebody has received it, or nobody has taken the right
to await the task yet; otherwise it fails at once. The outcome stays what it is at all later moments, and
a turn of the task brings it about exactly as its coroutine returns or raises, or as that of a cancelled
task. Every state that a host brings about has a history, and a coroutine that has the turn goes on by
acts. -/
theorem awaits_agree {place : Option (Ref × Waker)} {w : World} {g : Ledger} {r l : Ref}
    (h : History ⟨.program place, w, g⟩) (hr : (r, l) ∈ g.created) (fuel : Nat) :
    ((∃ o, (r, o) ∈ g.received) ∨ r ∉ g.claimed →
      AwaitGives ⟨.program place, w, g⟩ r (awaitValue plainly (fuel + 1) (.task r))) ∧
    (¬((∃ o, (r, o) ∈ g.received) ∨ r ∉ g.claimed) →
      (awaitValue plainly (fuel + 1) (.task r)).run w =
        (Eval.fail .handleTaken : Eval Value).run w) ∧
    (∀ m m', Leads ⟨.program place, w, g⟩ m → Leads m m' →
      ∀ o o', (r, o) ∈ m.ledger.ended → (r, o') ∈ m'.ledger.ended → o' = o) ∧
    (∀ w₁ w₂ g₁ g₂ threads threads', Threads.Acts l threads →
      History ⟨.program (some (l, .task r)), { w₁ with current := .task r }, g₁⟩ →
      runTask (runCoroutine plainly fuel) r threads w₁ = .ok (threads', w₂) →
      History ⟨.loop l, w₂, g₂⟩ →
      ∀ o, (r, o) ∈ g₂.ended ↔ turnEnding? (runCoroutine plainly fuel) r threads w₁ = some o) ∧
    (∀ w loops, Hosted w loops →
      ∃ g, History ⟨.program none, w, g⟩ ∧ ∀ k ∈ loops, k.Acts w) ∧
    ∀ place r, (runCoroutine plainly fuel r).Acts (.program place) := by
  refine ⟨awaitTask_gives h hr, fun hopen => ?_, fun m m' hm hm' o o' => ?_, ?_,
    fun w loops hw => hw.history, (acting fuel).runCoroutine⟩
  · rw [not_or, not_not, not_exists] at hopen
    exact awaitTask_of_taken h hopen.2 hopen.1
  · exact History.ended_same (h.trans hm) hm'
  · exact fun w₁ w₂ g₁ g₂ threads threads' ht h₁ hrun h₂ =>
      runTask_ended (acting fuel).runCoroutine ht h₁ hrun h₂

/-- The first await of a task gives its outcome; a second one that begins before that fails. -/
theorem awaits_agree_twice : ∃ w g w' g', History ⟨.program (some (0, .root)), w, g⟩ ∧
    Leads ⟨.program (some (0, .root)), w, g⟩ ⟨.program (some (0, .root)), w', g'⟩ ∧
    AwaitGives ⟨.program (some (0, .root)), w, g⟩ 0 (awaitValue plainly 1 (.task 0)) ∧
    (awaitValue plainly 1 (.task 0)).run w' = (Eval.fail .handleTaken : Eval Value).run w' := by
  obtain ⟨w, g, w', g', h, hl, rfl, rfl⟩ := exists_created
  have hgives := (awaits_agree h (r := 0) (l := 0) List.mem_cons_self 0).1 (.inr List.not_mem_nil)
  have hfails := (awaits_agree (h.trans hl) (r := 0) (l := 0) List.mem_cons_self 0).2.1
  exact ⟨w, _, w', _, h, hl, hgives, hfails (by simp)⟩

/-- Not every await of a task gives its outcome. A task that returns `1` is passed twice to be gathered:
that raises an exception which is not the one of the task. -/
theorem second_await_fails :
    ¬(∀ place w g r l, History ⟨.program place, w, g⟩ → (r, l) ∈ g.created →
      AwaitGives ⟨.program place, w, g⟩ r (awaitTask r)) ∧
    ((compile ("import asyncio\nasync def s(): return 1\nasync def m():\n".toList ++
        " t = asyncio.create_task(s())\n try: print(await asyncio.gather(t, t))\n".toList ++
        " except RuntimeError as e: print(e)\nasyncio.run(m())\n".toList)
        "<test>" .exec false).toOption.bind fun code =>
      (evaluate code 0 (World.empty.newSpace .empty).2).map fun r => r.2.output) =
        some "await wasn't used with future\n".toList := by
  refine ⟨fun hall => ?_, by
    -- Evaluation is cheap on the lists of characters, and costly on the literals.
    repeat rw [String.toList_ofList]
    decide +kernel⟩
  obtain ⟨w, g, w', g', h, hl, rfl, rfl⟩ := exists_created
  have h' : History ⟨.program (some (0, .root)), w', _⟩ := h.trans hl
  have hgives := hall _ w' _ 0 0 h' List.mem_cons_self
  unfold AwaitGives at hgives
  rw [awaitTask_of_taken h' List.mem_cons_self fun _ => List.not_mem_nil] at hgives
  cases hgives with
  | done hend hended =>
    -- The exception is new, but the task has not even ended.
    have hend' : History _ := h'.trans hend
    have hlt : 0 < w'.tasks.size := h'.tells.world.lt_size (l := 0) List.mem_cons_self
    have houtcome := ((hend'.tells.world.tasks 0 hlt).ended _).mpr hended
    exact List.not_mem_nil (((h'.tells.world.tasks 0 hlt).ended _).mp houtcome)

end Transcript.Lang
