import Transcript.Proofs.Both
import Transcript.Proofs.Lang.Keep
import Transcript.Proofs.Lang.Outcome

/-!
# What gathering gives

Awaitable values that are gathered are awaited side by side: in each turn every one that has not ended goes
on as far as it can. So each of these awaits runs as it would alone, others doing something between its
waits, and all of them have ended when gathering does. What it gives is told by how they have ended, in the
order of the arguments, and not by when they have.

Results:
* `World.LeadsTo.outcome`: a task that has ended stays so.
* `Step.GoesOn.of_bind`: a computation in two parts goes on in the first part, then in the second one.
* `pollAll_came`, `together_abreast`: computations side by side come as far as each of them does.
* `awaitValue_ends`: what awaiting a value gives.
* `gather_keeps_order`: what gathering gives.
-/

namespace Transcript.Lang

/-! ## Moments of one turn -/

/-- The same can be done whatever has happened to tasks before. -/
theorem Act.relabel {t t' : Turn} {w w' : World} {g g' : Ledger} (ha : Act ⟨t, w, g⟩ ⟨t', w', g'⟩)
    (h : Ledger) : ∃ h', Act ⟨t, w, h⟩ ⟨t', w', h'⟩ := by
  cases ha with
  | other htasks hloops hrunning hcurrent => exact ⟨h, .other htasks hloops hrunning hcurrent⟩
  | create => exact ⟨_, .create⟩
  | cancel hr => exact ⟨_, .cancel hr⟩
  | claim hr => exact ⟨_, .claim hr⟩
  | awaitedBy => exact ⟨_, .awaitedBy⟩
  | receive ho => exact ⟨_, .receive ho⟩
  | yields => exact ⟨_, .yields⟩
  | sleeps => exact ⟨_, .sleeps⟩
  | newLoop => exact ⟨_, .newLoop⟩
  | enter hl => exact ⟨_, .enter hl⟩
  | leave => exact ⟨_, .leave⟩
  | wakeRoot => exact ⟨_, .wakeRoot⟩
  | fireTimers => exact ⟨_, .fireTimers⟩
  | wakeYielded => exact ⟨_, .wakeYielded⟩
  | turnOfRoot => exact ⟨_, .turnOfRoot⟩
  | turnOfTask hqueue => exact ⟨_, .turnOfTask hqueue⟩
  | wait => exact ⟨_, .wait⟩
  | finish => exact ⟨_, .finish⟩

theorem Leads.relabel {m m' : Moment} (hm : Leads m m') (h : Ledger) :
    ∃ h', Leads ⟨m.turn, m.world, h⟩ ⟨m'.turn, m'.world, h'⟩ := by
  induction hm with
  | refl => exact ⟨h, .refl⟩
  | tail _ ha ih =>
    obtain ⟨h₁, hl⟩ := ih
    obtain ⟨h₂, ha⟩ := ha.relabel h₁
    exact ⟨h₂, hl.tail ha⟩

/-- **Tasks show how they have ended.** -/
theorem History.outcome_iff {m : Moment} (h : History m) {r : Ref} {o : Ending} :
    (m.world.task r).outcome = some o ↔ (r, o) ∈ m.ledger.ended := by
  by_cases hr : r < m.world.tasks.size
  · exact (h.tells.world.tasks r hr).ended o
  · refine ⟨fun ho => absurd (World.lt_size_of_outcome ho) hr, fun hended => ?_⟩
    exact absurd hended ((h.tells.world.fresh r (Nat.le_of_not_lt hr)).2 o).1

/-- **A world that acts lead to** from the world of a moment of a history, when it is the same turn again. -/
def World.LeadsTo (t : Turn) (w w' : World) : Prop :=
  ∃ g g', History ⟨t, w, g⟩ ∧ Leads ⟨t, w, g⟩ ⟨t, w', g'⟩

namespace World.LeadsTo

variable {t : Turn} {w w' w'' : World} {g g' : Ledger}

theorem refl (h : History ⟨t, w, g⟩) : w.LeadsTo t w := ⟨g, g, h, .refl⟩

theorem of_leads (h : History ⟨t, w, g⟩) (hl : Leads ⟨t, w, g⟩ ⟨t, w', g'⟩) : w.LeadsTo t w' :=
  ⟨g, g', h, hl⟩

theorem trans (h : w.LeadsTo t w') (h' : w'.LeadsTo t w'') : w.LeadsTo t w'' := by
  obtain ⟨g, g₁, hw, hl⟩ := h
  obtain ⟨_, _, _, hl'⟩ := h'
  obtain ⟨g₂, hl₂⟩ := hl'.relabel g₁
  exact ⟨g, g₂, hw, hl.trans hl₂⟩

theorem history (h : w.LeadsTo t w') : ∃ g, History ⟨t, w', g⟩ := by
  obtain ⟨_, g', hw, hl⟩ := h
  exact ⟨g', hw.trans hl⟩

/-- **A task that has ended** stays so. -/
theorem outcome (h : w.LeadsTo t w') {r : Ref} {o : Ending} (ho : (w.task r).outcome = some o) :
    (w'.task r).outcome = some o := by
  obtain ⟨g, g', hw, hl⟩ := h
  have hw' : History ⟨t, w', g'⟩ := hw.trans hl
  exact hw'.outcome_iff.mpr (hl.ended_subset (hw.outcome_iff.mp ho))

end World.LeadsTo

/-! ## How computations go on -/

/-- **A computation that goes on:** one that waits is resumed in any later world in which its wait is over,
whoever has done what meanwhile. -/
inductive Step.GoesOn {α : Type} (t : Turn) : Step α → Step α → Prop
  /-- It has not gone on. -/
  | refl (s : Step α) : GoesOn t s s
  /-- It is resumed, and goes on from there. -/
  | resumed {what : Wait} {w w' : World} {resume : World → Step α} {s : Step α} (h : w.LeadsTo t w')
      (hover : what.isOver w' = true) (hs : GoesOn t (resume w') s) : GoesOn t (.wait what w resume) s

namespace Step.GoesOn

variable {α β : Type} {t : Turn} {s s' s'' : Step α}

theorem trans (h : s.GoesOn t s') (h' : s'.GoesOn t s'') : s.GoesOn t s'' := by
  induction h with
  | refl => exact h'
  | resumed hl hover _ ih => exact .resumed hl hover (ih h')

/-- A computation that has its result does not go on. -/
theorem of_done {a : α} {w : World} (h : (Step.done a w).GoesOn t s) : s = .done a w := by
  cases h
  rfl

/-- **A computation in two parts** goes on in the first part, or has come to the second one. -/
theorem of_bind {f : α → World → Step β} {r : Step β} (h : (s.bind f).GoesOn t r) :
    (∃ s', s.GoesOn t s' ∧ r = s'.bind f) ∨
      ∃ a w, s.GoesOn t (.done a w) ∧ (f a w).GoesOn t r := by
  induction s with
  | done a w => exact .inr ⟨a, w, .refl _, h⟩
  | halt why =>
    cases h
    exact .inl ⟨_, .refl _, rfl⟩
  | wait what w resume ih =>
    cases h with
    | refl => exact .inl ⟨_, .refl _, rfl⟩
    | resumed hl hover hs =>
      refine (ih _ hs).imp ?_ ?_
      · exact fun ⟨s', hs', hr⟩ => ⟨s', .resumed hl hover hs', hr⟩
      · exact fun ⟨a, w, hs', hr⟩ => ⟨a, w, .resumed hl hover hs', hr⟩

end Step.GoesOn

/-! ## Computations side by side -/

/-- **A member that stands for a computation** begun after a world, and has come as far as before another
one. -/
inductive Member.Came (t : Turn) (w : World) (x : Run Ending) (u : World) (m : Member) : Prop
  | intro {w₁ w₂ : World} (h₁ : w.LeadsTo t w₁) (hx : (x w₁).GoesOn t (m.step w₂))
      (h₂ : w₂.LeadsTo t u) : Came t w x u m

theorem Member.Came.mono {t : Turn} {w u u' : World} {x : Run Ending} {m : Member}
    (h : m.Came t w x u) (hu : u.LeadsTo t u') : m.Came t w x u' := by
  obtain ⟨h₁, hx, h₂⟩ := h
  exact ⟨h₁, hx, h₂.trans hu⟩

/-- A member that stands for a computation, which has begun or has not. -/
def Member.StandsFor (t : Turn) (w : World) (x : Run Ending) (u : World) (m : Member) : Prop :=
  m = .waiting (.ofRun x) ∨ m.Came t w x u

theorem Member.StandsFor.mono {t : Turn} {w u u' : World} {x : Run Ending} {m : Member}
    (h : m.StandsFor t w x u) (hu : u.LeadsTo t u') : m.StandsFor t w x u' :=
  h.imp_right fun h => h.mono hu

section

variable {place : Option (Ref × Waker)} {w u u' : World} {x : Run Ending}

/-- **A member that has its turn** begins, or is resumed, or waits on. -/
theorem Member.Polls.came {m m' : Member} (h : m.Polls u m' u') (hacts : m.Acts (.program place))
    (hu : w.LeadsTo (.program place) u) (hx : m.StandsFor (.program place) w x u) :
    u.LeadsTo (.program place) u' ∧ m'.Came (.program place) w x u' := by
  obtain ⟨g, hg⟩ := hu.history
  obtain ⟨-, g', hl⟩ := h.acts hacts hg
  refine ⟨.of_leads hg hl, ?_⟩
  have hg' : History ⟨.program place, u', g'⟩ := hg.trans hl
  cases h with
  | finished o => exact hx.resolve_left Member.noConfusion
  | @waiting s _ _ hm =>
    rcases hx with hs | ⟨h₁, hx, h₂⟩
    · cases hs
      have hbegun : x u = m'.step u' := hm
      exact ⟨hu, hbegun ▸ .refl _, .refl hg'⟩
    · unfold Suspended.poll at hm
      split at hm
      · rename_i hover
        exact ⟨h₁, hx.trans (.resumed h₂ hover (hm ▸ .refl _)), .refl hg'⟩
      · obtain ⟨rfl, rfl⟩ := Member.step_inj (m := .waiting s) hm
        exact ⟨h₁, hx, h₂⟩

/-- **One turn of computations side by side:** each of them has begun and comes further. -/
theorem pollAll_came {xs : List (Run Ending)} {ms ms' : List Member}
    (hacts : ∀ m ∈ ms, m.Acts (.program place)) (hu : w.LeadsTo (.program place) u)
    (hxs : List.Forall₂ (fun x m => m.StandsFor (.program place) w x u) xs ms)
    (hpoll : Member.pollAll ms u = .ok (ms', u')) :
    u.LeadsTo (.program place) u' ∧
      List.Forall₂ (fun x m => m.Came (.program place) w x u') xs ms' := by
  induction ms generalizing xs ms' u with
  | nil =>
    cases hxs
    cases hpoll
    obtain ⟨g, hg⟩ := hu.history
    exact ⟨.refl hg, .nil⟩
  | cons m ms ih =>
    rw [List.forall_mem_cons] at hacts
    cases hxs with
    | @cons x _ xs _ hx hxs =>
    obtain ⟨m', ms'', u₁, rfl, hm, hpoll⟩ := pollAll_cons_eq_ok hpoll
    obtain ⟨hu₁, hcame⟩ := hm.came hacts.1 hu hx
    obtain ⟨hu', hxs'⟩ := ih hacts.2 (hu.trans hu₁) (hxs.imp fun x m h => h.mono hu₁) hpoll
    exact ⟨hu₁.trans hu', .cons (hcame.mono hu') hxs'⟩

/-- **How far computations side by side have come,** begun after a world: they have their results when each
of them has its own, and they wait only while one of them waits. -/
def Abreast (t : Turn) (w : World) (xs : List (Run Ending)) : Step (List Ending) → Prop
  | .done os u => w.LeadsTo t u ∧ List.Forall₂ (fun x o => (Member.finished o).Came t w x u) xs os
  | .wait _ u _ => ∃ x ∈ xs, ∃ s, (Member.waiting s).Came t w x u
  | .halt _ => True

/-- Members have all finished, or one of them waits. -/
theorem mapM_outcome?_cases (ms : List Member) :
    (∃ os, ms.mapM Member.outcome? = some os ∧ ms = os.map .finished) ∨
      (ms.mapM Member.outcome? = none ∧ ∃ s, Member.waiting s ∈ ms) := by
  induction ms with
  | nil => exact .inl ⟨[], rfl, rfl⟩
  | cons m ms ih =>
    rw [List.mapM_cons]
    cases m with
    | waiting s => exact .inr ⟨rfl, s, List.mem_cons_self⟩
    | finished o =>
      rcases ih with ⟨os, hos, rfl⟩ | ⟨hnone, s, hs⟩
      · rw [hos]
        exact .inl ⟨o :: os, rfl, rfl⟩
      · rw [hnone]
        exact .inr ⟨rfl, s, List.mem_cons_of_mem _ hs⟩

/-- **Computations side by side** come as far as each of them does. -/
theorem together_abreast (turns : Nat) {xs : List (Run Ending)} {ms : List Member}
    (hacts : ∀ m ∈ ms, m.Acts (.program place)) (hu : w.LeadsTo (.program place) u)
    (hxs : List.Forall₂ (fun x m => m.StandsFor (.program place) w x u) xs ms) {s : Step (List Ending)}
    (hs : (Member.together turns ms u).GoesOn (.program place) s) :
    Abreast (.program place) w xs s := by
  induction turns generalizing ms u with
  | zero =>
    cases hs
    trivial
  | succ turns ih =>
    unfold Member.together at hs
    cases hpoll : Member.pollAll ms u with
    | error why =>
      rw [hpoll] at hs
      cases hs
      trivial
    | ok r =>
      obtain ⟨ms', u'⟩ := r
      rw [hpoll] at hs
      obtain ⟨g, hg⟩ := hu.history
      obtain ⟨hu', hxs'⟩ := pollAll_came hacts hu hxs hpoll
      obtain ⟨hacts', -⟩ := pollAll_acts hacts hg hpoll
      rcases mapM_outcome?_cases ms' with ⟨os, hos, rfl⟩ | ⟨hnone, s', hs'⟩
      · simp only [hos] at hs
        cases hs.of_done
        exact ⟨hu.trans hu', List.forall₂_map_right_iff.mp hxs'⟩
      · simp only [hnone] at hs
        cases hs with
        | refl =>
          obtain ⟨x, hx, hcame⟩ := exists_of_forall₂ hxs' hs'
          exact ⟨x, hx, s', hcame⟩
        | resumed hl _ hs =>
          refine ih hacts' (hu.trans (hu'.trans hl)) ?_ hs
          exact hxs'.imp fun x m h => .inr (h.mono hl)

end

/-! ## Awaiting a value -/

/-- **A value that nobody has taken:** a task of which nobody has taken the right to await it, or of which
the outcome has been received, or a coroutine that has not begun. What cannot be awaited is not taken. -/
def World.IsOpen (w : World) : Value → Prop
  | .task r => (w.task r).hasHandle = true ∨ (w.task r).result.isSome = true
  | .coroutine r => (w.pending? r).isSome = true
  | _ => True

/-- **How awaiting a value has ended,** begun in one world and ended in a second one, as a third one
shows. -/
inductive AwaitEnds (t : Turn) (fuel : Nat) (w₁ w₂ w' : World) : Value → Ending → Prop
  /-- A task gives its outcome. -/
  | task {r : Ref} {o : Ending} (hopen : w₁.IsOpen (.task r)) (ho : (w'.task r).outcome = some o) :
      AwaitEnds t fuel w₁ w₂ w' (.task r) o
  /-- A coroutine gives what it comes to, begun there. -/
  | coroutine {r : Ref} {p : Pending} {o : Ending} (hp : w₁.pending? r = some p)
      (hrun : ((runPending (fuel - 2) p).run (w₁.begin r)).GoesOn t (.done o w₂)) :
      AwaitEnds t fuel w₁ w₂ w' (.coroutine r) o
  /-- Other values cannot be awaited. -/
  | other {v : Value} {e : Raised} (hv : ∀ r, v ≠ .task r ∧ v ≠ .coroutine r) (he : e.kind = .typeError) :
      AwaitEnds t fuel w₁ w₂ w' v (.error e)
  /-- It was taken before. -/
  | taken {v : Value} {e : Raised} (hopen : ¬w₁.IsOpen v) (he : e.kind = .runtimeError) :
      AwaitEnds t fuel w₁ w₂ w' v (.error e)

section

variable {place : Option (Ref × Waker)} {w w' : World} {g : Ledger} {r : Ref} {o : Ending}

theorem receiveOutcome_outcome {t : Turn} (ho : (w.task r).outcome.isSome = true)
    (hs : ((receiveOutcome r).run w).GoesOn t (.done o w')) : (w'.task r).outcome = some o := by
  obtain ⟨o', ho⟩ := Option.isSome_iff_exists.mp ho
  rw [receiveOutcome_run ho] at hs
  cases hs.of_done
  rw [World.task_setTask_self (World.lt_size_of_outcome ho)]
  exact ho

/-- **A task that can be awaited** gives its outcome. -/
theorem awaitTask_outcome (h : History ⟨.program place, w, g⟩) (hopen : w.IsOpen (.task r))
    (hs : ((awaitTask r).run w).GoesOn (.program place) (.done o w')) :
    (w'.task r).outcome = some o := by
  rw [awaitTask_run] at hs
  cases hresult : (w.task r).result with
  | some o' =>
    rw [hresult] at hs
    cases hs.of_done
    have hlt : r < w.tasks.size := Nat.lt_of_not_le fun hr => by
      rw [World.task_of_size_le hr] at hresult
      cases hresult
    exact (h.tells.world.tasks r hlt).result o hresult
  | none =>
    have hhandle : (w.task r).hasHandle = true := hopen.resolve_right (by simp [hresult])
    have hlt := World.lt_size_of_hasHandle hhandle
    rw [hresult] at hs
    dsimp only at hs
    rw [if_pos hhandle] at hs
    split at hs
    · cases hs with
      | resumed _ hover hs => exact receiveOutcome_outcome hover hs
    · rename_i houtcome
      refine receiveOutcome_outcome ?_ hs
      rw [World.task_setTask_self hlt]
      exact Option.isSome_iff_ne_none.mpr (houtcome ∘ Option.isNone_iff_eq_none.mpr)

/-- A task that somebody else has taken the right to await fails. -/
theorem awaitTask_of_not_isOpen (hopen : ¬w.IsOpen (.task r)) :
    (awaitTask r).run w = (Eval.fail .handleTaken : Eval Value).run w := by
  obtain ⟨hhandle, hresult⟩ := not_or.mp hopen
  rw [awaitTask_run, Option.not_isSome_iff_eq_none.mp hresult]
  dsimp only
  rw [if_neg hhandle]

/-- A problem is raised at once. -/
theorem fail_goesOn {t : Turn} {problem : Problem} (hp : problem ≠ .endless)
    (hs : ((Eval.fail problem : Eval Value).run w).GoesOn t (.done o w')) :
    o = .error (problem.raised w.identities) := by
  have hrun : (Eval.fail problem : Eval Value).run w = _ := Eval.ofOp_error rfl hp
  rw [hrun] at hs
  cases hs.of_done
  rfl

/-- **What awaiting a value gives.** -/
theorem awaitValue_ends {fuel : Nat} {v : Value} {u : World} (h : History ⟨.program place, w, g⟩)
    (hs : ((awaitValue plainly fuel v).run w).GoesOn (.program place) (.done o w'))
    (hu : w'.LeadsTo (.program place) u) : AwaitEnds (.program place) fuel w w' u v o := by
  cases fuel with
  | zero => cases hs
  | succ fuel =>
    cases v with
    | task r =>
      by_cases hopen : w.IsOpen (.task r)
      · exact .task hopen (hu.outcome (awaitTask_outcome h hopen hs))
      · have hs : ((awaitTask r).run w).GoesOn (.program place) (.done o w') := hs
        rw [awaitTask_of_not_isOpen hopen] at hs
        cases fail_goesOn Problem.noConfusion hs
        exact .taken hopen rfl
    | coroutine r =>
      cases fuel with
      | zero => cases hs
      | succ fuel =>
        have hs : ((runCoroutine plainly (fuel + 1) r).run w).GoesOn (.program place) (.done o w') := hs
        cases hp : w.pending? r with
        | some p =>
          rw [runCoroutine_run hp] at hs
          exact .coroutine hp hs
        | none =>
          rw [runCoroutine_of_begun hp] at hs
          cases fail_goesOn Problem.noConfusion hs
          exact .taken (by simp [World.IsOpen, hp]) rfl
    | _ =>
      cases fail_goesOn Problem.noConfusion hs
      exact .other (fun r => ⟨Value.noConfusion, Value.noConfusion⟩) rfl

end

/-! ## Gathering -/

/-- **What gathering gives,** told by how awaiting the values has ended, in the order of the arguments: the
list of the results if all have succeeded, and the first exception otherwise. -/
inductive Gathers (w : World) : List Ending → Ending → Prop
  | all {vs : List Value} {l : Ref} (hl : w.list l = vs) : Gathers w (vs.map .ok) (.ok (.list l))
  | fails {vs : List Value} {e : Raised} {os : List Ending} :
      Gathers w (vs.map .ok ++ .error e :: os) (.error e)

/-- All have succeeded, or one is the first that has not. -/
theorem mapM_id_cases (os : List Ending) :
    (∃ vs : List Value, os = vs.map .ok ∧ os.mapM id = .ok vs) ∨
      ∃ (vs : List Value) (e : Raised) (os' : List Ending),
        os = vs.map .ok ++ .error e :: os' ∧ os.mapM id = .error e := by
  induction os with
  | nil => exact .inl ⟨[], rfl, rfl⟩
  | cons o os ih =>
    rw [List.mapM_cons]
    cases o with
    | error e => exact .inr ⟨[], e, os, rfl, rfl⟩
    | ok v =>
      rcases ih with ⟨vs, rfl, hvs⟩ | ⟨vs, e, os', rfl, he⟩
      · rw [hvs]
        exact .inl ⟨v :: vs, rfl, rfl⟩
      · rw [he]
        exact .inr ⟨v :: vs, e, os', rfl, rfl⟩

theorem gathered_run (os : List Ending) (w : World) : ∃ o w',
    (gathered os).run w = .done o w' ∧ Gathers w' os o ∧ ∀ t g, Act ⟨t, w, g⟩ ⟨t, w', g⟩ := by
  unfold gathered
  rcases mapM_id_cases os with ⟨vs, hos, hvs⟩ | ⟨vs, e, os', hos, he⟩
  · rw [hvs]
    refine ⟨.ok (.list w.lists.size), { w with lists := w.lists.push vs }, rfl, ?_,
      fun t g => .other rfl rfl rfl rfl⟩
    rw [hos]
    exact .all (by simp [World.list])
  · rw [he]
    refine ⟨.error e, w, rfl, ?_, fun t g => .other rfl rfl rfl rfl⟩
    rw [hos]
    exact .fails

theorem runPending_gather (fuel : Nat) (items : List Value) (w : World) :
    (runPending fuel (.gather items)).run w =
      (Member.together fuel (items.map fun v => .waiting (.ofRun (awaitValue plainly fuel v))) w).bind
        fun os w => (gathered os).run w :=
  Step.bind_assoc _ _ _

/-- **How far gathering has come:** if it has ended, awaiting each of the values has ended before, and it
gives what these have given; if it waits, awaiting one of them waits. -/
def Gathering (t : Turn) (fuel : Nat) (w : World) (items : List Value) : Step Ending → Prop
  | .done o w' => ∃ os, Gathers w' os o ∧ List.Forall₂ (fun v o => ∃ w₁ w₂, w.LeadsTo t w₁ ∧
      ((awaitValue plainly fuel v).run w₁).GoesOn t (.done o w₂) ∧ w₂.LeadsTo t w' ∧
      AwaitEnds t fuel w₁ w₂ w' v o) items os
  | .wait _ w' _ => ∃ v ∈ items, ∃ w₁ what w₂ resume, w.LeadsTo t w₁ ∧
      ((awaitValue plainly fuel v).run w₁).GoesOn t (.wait what w₂ resume) ∧ w₂.LeadsTo t w'
  | .halt _ => True

section

variable {place : Option (Ref × Waker)} {w u : World} {fuel : Nat} {items : List Value}

/-- What has been awaited is put together. -/
theorem gathering_of_done {os : List Ending} {s : Step Ending}
    (h : Abreast (.program place) w (items.map (awaitValue plainly fuel ·)) (.done os u))
    (hs : ((gathered os).run u).GoesOn (.program place) s) :
    Gathering (.program place) fuel w items s := by
  obtain ⟨hu, hitems⟩ := h
  obtain ⟨o, w', hrun, hgathers, hact⟩ := gathered_run os u
  rw [hrun] at hs
  cases hs.of_done
  obtain ⟨g, hg⟩ := hu.history
  have hw' : u.LeadsTo (.program place) w' := .of_leads hg (.single (hact _ g))
  refine ⟨os, hgathers, (List.forall₂_map_left_iff.mp hitems).imp fun v o ⟨h₁, hx, h₂⟩ => ?_⟩
  obtain ⟨g₁, hg₁⟩ := h₁.history
  exact ⟨_, _, h₁, hx, h₂.trans hw', awaitValue_ends hg₁ hx (h₂.trans hw')⟩

/-- **Gathering comes as far** as awaiting each of the values does. -/
theorem runPending_gathering {s : Step Ending} (hu : w.LeadsTo (.program place) u)
    (hs : ((runPending fuel (.gather items)).run u).GoesOn (.program place) s) :
    Gathering (.program place) fuel w items s := by
  have habreast {s : Step (List Ending)} (hs : (Member.together fuel (items.map fun v =>
      .waiting (.ofRun (awaitValue plainly fuel v))) u).GoesOn (.program place) s) :
      Abreast (.program place) w (items.map (awaitValue plainly fuel ·)) s := by
    refine together_abreast fuel ?_ hu ?_ hs
    · exact List.forall_mem_map.mpr fun v _ => .ofRun ((acting fuel).awaitValue place v)
    · rw [List.forall₂_map_left_iff, List.forall₂_map_right_iff]
      exact List.forall₂_same.mpr fun v _ => .inl rfl
  rw [runPending_gather] at hs
  rcases hs.of_bind with ⟨s', hs', rfl⟩ | ⟨os, u, hs', hs⟩
  · cases s' with
    | done os u => exact gathering_of_done (habreast hs') (.refl _)
    | wait what u resume =>
      obtain ⟨x, hx, s, h₁, hgoes, h₂⟩ := habreast hs'
      obtain ⟨v, hv, rfl⟩ := List.mem_map.mp hx
      exact ⟨v, hv, _, _, _, _, h₁, hgoes, h₂⟩
    | halt why => trivial
  · exact gathering_of_done (habreast hs') hs

/-- **Gathering keeps the order of its arguments.** It ends only when awaiting each of the values has, and
then gives the list of their results in the order of the arguments, or the exception of the first one there
that has failed, whatever has been done between the waits. What awaiting a value gives is the outcome of
its task, or what its coroutine comes to; what is no awaitable value fails with a `TypeError`, and a value
that was taken before gathering comes to it fails with a `RuntimeError`. -/
theorem gather_keeps_order {g : Ledger} {r : Ref} (h : History ⟨.program place, w, g⟩)
    (hr : w.pending? r = some (.gather items)) {s : Step Ending}
    (hs : ((awaitValue plainly (fuel + 2) (.coroutine r)).run w).GoesOn (.program place) s) :
    Gathering (.program place) fuel w items s ∧
    (∀ u, ∃ k u', callBuiltin .gather ⟨Builtin.gather.name, items, []⟩ u = .ok (.coroutine k, u') ∧
      u'.pending? k = some (.gather items)) ∧
    (∀ l k w₁ w₂ g₁ g₂ threads threads', Threads.Acts l threads →
      History ⟨.program (some (l, .task k)), { w₁ with current := .task k }, g₁⟩ →
      runTask (runCoroutine plainly fuel) k threads w₁ = .ok (threads', w₂) →
      History ⟨.loop l, w₂, g₂⟩ →
      (∀ o, (w₂.task k).outcome = some o ↔
        turnEnding? (runCoroutine plainly fuel) k threads w₁ = some o) ∧
      ((w₁.task k).cancelled = true →
        ∃ e, (w₂.task k).outcome = some (.error e) ∧ e.kind = .cancelledError)) ∧
    (∀ w loops, Hosted w loops → ∃ g, History ⟨.program none, w, g⟩ ∧ ∀ k ∈ loops, k.Acts w) ∧
    ∀ place v, (awaitValue plainly fuel v).Acts (.program place) := by
  refine ⟨?_, fun u => ⟨u.coroutines.size, _, rfl, ?_⟩, ?_, fun w loops hw => hw.history,
    (acting fuel).awaitValue⟩
  · have hs : ((runCoroutine plainly (fuel + 1) r).run w).GoesOn (.program place) s := hs
    rw [runCoroutine_run hr] at hs
    have hbegin : w.LeadsTo (.program place) (w.begin r) :=
      .of_leads h (.single (.other rfl rfl rfl rfl))
    exact runPending_gathering hbegin hs
  · simp [World.pending?]
  · intro l k w₁ w₂ g₁ g₂ threads threads' ht h₁ hrun h₂
    have hended (o : Ending) : (w₂.task k).outcome = some o ↔
        turnEnding? (runCoroutine plainly fuel) k threads w₁ = some o :=
      h₂.outcome_iff.trans (runTask_ended (acting fuel).runCoroutine ht h₁ hrun h₂ o)
    refine ⟨hended, fun hcancelled => ⟨_, (hended cancelledEnding).mpr ?_, rfl⟩⟩
    unfold turnEnding?
    rw [if_pos hcancelled]

end

/-- Coroutines that are not tasks yet: the coroutine 1 gathers a task and the coroutine 0, which gives 6. -/
def lateFirstBefore : World :=
  let six : Function := ⟨.mk "six" [] [.mk 1 (.exit (some (.constant (.int 6))))] true, 0, []⟩
  { World.empty with
    coroutines := #[⟨"six", some (.call six .empty)⟩, ⟨"gather", some (.gather [.task 0, .coroutine 0])⟩,
      ⟨"five", none⟩] }

/-- The root of a driven loop has its turn and has created the task that is gathered. -/
def lateFirst : World :=
  let driven : World := { lateFirstBefore.newLoop.2 with running := some 0 }
  let turn : World := { driven.setLoop 0 { driven.loop 0 with rootWoken := false } with current := .root }
  (turn.spawn 0 2 "five").2

/-- The task 0 has its turn and ends with 5, and then the root of its loop has its turn again. -/
def lateFirstGoesOn (w : World) : World :=
  let turn : World := { w.setLoop 0 { w.loop 0 with queue := [] } with current := .task 0 }
  let ended := turn.finishTask 0 (.ok (.int 5))
  { ended.setLoop 0 { ended.loop 0 with rootWoken := false } with current := .root }

/-- A task and a coroutine are gathered. The coroutine has its result at once, the task after it, when others have
had their turn: gathering has waited, and gives the two results in the order of the arguments. -/
theorem gather_keeps_order_late_first : ∃ g w₁ resume w',
    History ⟨.program (some (0, .root)), lateFirst, g⟩ ∧
    lateFirst.pending? 1 = some (.gather [.task 0, .coroutine 0]) ∧
    (awaitValue plainly 9 (.coroutine 1)).run lateFirst = .wait .turn w₁ resume ∧ (w₁.task 0).outcome = none ∧
    resume (lateFirstGoesOn w₁) = .done (.ok (.list 0)) w' ∧ w'.list 0 = [.int 5, .int 6] ∧
    Gathering (.program (some (0, .root))) 7 lateFirst [.task 0, .coroutine 0] (.done (.ok (.list 0)) w') := by
  have hbefore : History ⟨.program none, lateFirstBefore, .empty⟩ := .single (.other rfl rfl rfl rfl)
  have h : History ⟨.program (some (0, .root)), lateFirst, Ledger.empty.create 0 0⟩ :=
    (((hbefore.tail .newLoop).tail (.enter Nat.zero_lt_one)).tail .turnOfRoot).tail .create
  obtain ⟨w₁, resume, hrun, hunfinished, hqueue, w', hresume, hlist⟩ : ∃ w₁ resume,
      (awaitValue plainly 9 (.coroutine 1)).run lateFirst = .wait .turn w₁ resume ∧
      (w₁.task 0).outcome = none ∧ (w₁.loop 0).queue = [0] ∧
      ∃ w', resume (lateFirstGoesOn w₁) = .done (.ok (.list 0)) w' ∧ w'.list 0 = [.int 5, .int 6] :=
    ⟨_, _, rfl, rfl, rfl, _, rfl, rfl⟩
  have hacts := (acting 9).awaitValue (some (0, .root)) (.coroutine 1) lateFirst _ h
  unfold Eval.ActsFrom at hacts
  rw [hrun] at hacts
  cases hacts with
  | wait hleads _ =>
    have hlater : w₁.LeadsTo (.program (some (0, .root))) (lateFirstGoesOn w₁) :=
      .of_leads (h.trans hleads) ((((Relation.ReflTransGen.single .wait).tail (.turnOfTask hqueue)).tail
        .finish).tail .turnOfRoot)
    have hgoes : ((awaitValue plainly (7 + 2) (.coroutine 1)).run lateFirst).GoesOn (.program (some (0, .root)))
        (.done (.ok (.list 0)) w') := by
      rw [hrun]
      exact .resumed hlater rfl (hresume ▸ .refl _)
    exact ⟨_, w₁, resume, w', h, rfl, hrun, hunfinished, hresume, hlist,
      (gather_keeps_order h rfl hgoes).1⟩

/-- A task that has returned and that nobody has awaited does not always give its result to who gathers it:
closing its loop takes the right to await it, too. -/
theorem closing_takes_finished :
    ¬(∀ (w w' u : World) (l k r : Ref) (v : Value) (o : Ending) (rounds fuel : Nat),
      (w.task k).outcome = some (.ok v) → (w.task k).hasHandle = true →
      closeLoop (runCoroutine plainly fuel) l rounds [] w = .ok w' →
      w'.pending? r = some (.gather [.task k]) →
      (awaitValue plainly fuel (.coroutine r)).run w' = .done o u →
      ∃ j, o = .ok (.list j) ∧ u.list j = [v]) ∧
    ((compile ("import asyncio\nasync def five():\n return 5\nasync def main():\n global t\n".toList ++
        " t = asyncio.create_task(five())\n await asyncio.create_task(five())\n".toList ++
        "asyncio.run(main())\nasync def again():\n try:\n  print(await asyncio.gather(t))\n".toList ++
        " except RuntimeError as e:\n  print(e)\nasyncio.run(again())\n".toList)
        "<test>" .exec false).toOption.bind fun code =>
      (evaluate code 0 (World.empty.newSpace .empty).2).map fun r => r.2.output) =
        some "await wasn't used with future\n".toList := by
  refine ⟨fun hall => ?_, by
    repeat rw [String.toList_ofList]
    decide +kernel⟩
  let w : World := { World.empty with
    coroutines := #[⟨"gather", some (.gather [.task 0])⟩]
    tasks := #[⟨"t", 0, 0, true, none, some (.ok (.int 5)), none, false⟩]
    loops := #[⟨[0], [], false, [], []⟩] }
  obtain ⟨j, hj, -⟩ := hall w _ _ 0 0 0 (.int 5) _ 1 4 rfl rfl rfl rfl rfl
  cases hj

end Transcript.Lang
