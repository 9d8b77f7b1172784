import Transcript.Proofs.Except
import Transcript.Lang.Compile

/-!
# Where a source may await

An await has a meaning in the body of an async function, and at the top level of a source that is
compiled to await itself. Compilation sees to this for all awaits but those in the defaults of
parameters, which it does not look at.

Results:
* `compile_strays`: in a compiled source only defaults of parameters await where they must not.
* `compile_noTopLevelAwait`: without leave to await at the top level, no source does.
-/

namespace Transcript.Lang

/-! ## Awaits out of place

Both questions are asked of statements that may await themselves, or must not. -/

/-- Whether some default of parameters awaits. -/
def awaitsAnyDefault (params : List Param) : Bool := params.any fun p => awaitsOption p.default

/-- Something awaits only if it may. -/
def Fits (mayAwait awaits : Bool) : Prop := mayAwait = false → awaits = false

namespace Fits

variable {mayAwait awaits awaits' : Bool}

theorem may : Fits true awaits := fun h => by cases h

theorem left (h : Fits mayAwait (awaits || awaits')) : Fits mayAwait awaits :=
  fun hm => (Bool.or_eq_false_iff.mp (h hm)).1

theorem right (h : Fits mayAwait (awaits || awaits')) : Fits mayAwait awaits' :=
  fun hm => (Bool.or_eq_false_iff.mp (h hm)).2

/-- What awaits may do so. -/
theorem of_true (h : Fits mayAwait true) : mayAwait = true := by
  cases mayAwait with
  | true => rfl
  | false => exact absurd (h rfl) (by decide)

theorem awaitsAny {es : List Expr} (h : Fits mayAwait (Lang.awaitsAny es)) :
    ∀ e ∈ es, Fits mayAwait e.awaits := by
  induction es with
  | nil => exact fun _ he => absurd he List.not_mem_nil
  | cons e es ih => exact List.forall_mem_cons.mpr ⟨h.left, ih h.right⟩

theorem awaitsAnyPair {items : List (Expr × Expr)} (h : Fits mayAwait (Lang.awaitsAnyPair items)) :
    ∀ item ∈ items, Fits mayAwait (item.1.awaits || item.2.awaits) := by
  induction items with
  | nil => exact fun _ he => absurd he List.not_mem_nil
  | cons item items ih => exact List.forall_mem_cons.mpr ⟨h.left, ih h.right⟩

theorem awaitsAnyNamed {named : List (String × Expr)} (h : Fits mayAwait (Lang.awaitsAnyNamed named)) :
    ∀ arg ∈ named, Fits mayAwait arg.2.awaits := by
  induction named with
  | nil => exact fun _ he => absurd he List.not_mem_nil
  | cons arg named ih => exact List.forall_mem_cons.mpr ⟨h.left, ih h.right⟩

theorem awaitsOption {e : Option Expr} (h : Fits mayAwait (Lang.awaitsOption e)) :
    ∀ e' ∈ e, Fits mayAwait e'.awaits := by
  rintro e' rfl
  exact h

theorem awaitsAnyTarget {targets : List Target} (h : Fits mayAwait (Lang.awaitsAnyTarget targets)) :
    ∀ t ∈ targets, Fits mayAwait t.awaits := by
  induction targets with
  | nil => exact fun _ he => absurd he List.not_mem_nil
  | cons t targets ih => exact List.forall_mem_cons.mpr ⟨h.left, ih h.right⟩

theorem awaitsAnyDefault {params : List Param} (h : Fits mayAwait (Lang.awaitsAnyDefault params)) :
    ∀ p ∈ params, Fits mayAwait (Lang.awaitsOption p.default) := by
  induction params with
  | nil => exact fun _ he => absurd he List.not_mem_nil
  | cons p params ih => exact List.forall_mem_cons.mpr ⟨h.left, ih h.right⟩

end Fits

mutual

/-- **Whether a statement awaits where it must not,** itself or in the function bodies in it. -/
def Stmt.strays (mayAwait : Bool) : Stmt → Bool
  | .mk _ action => action.strays mayAwait

/-- Whether an action awaits where it must not. -/
def Action.strays (mayAwait : Bool) : Action → Bool
  | .branch test yes no =>
    (!mayAwait && test.awaits) || blockStrays mayAwait yes || blockStrays mayAwait no
  | .loop test body => (!mayAwait && test.awaits) || blockStrays mayAwait body
  | .each target items body =>
    (!mayAwait && (target.awaits || items.awaits)) || blockStrays mayAwait body
  | .guard body handlers final =>
    blockStrays mayAwait body || handlersStray mayAwait handlers || blockStrays mayAwait final
  | .define f => f.strays mayAwait
  | .eval e => !mayAwait && e.awaits
  | .assign targets value => !mayAwait && (value.awaits || awaitsAnyTarget targets)
  | .augment target _ value => !mayAwait && (target.awaits || value.awaits)
  | .raise e | .exit e => !mayAwait && awaitsOption e
  | .delete targets => !mayAwait && awaitsAnyTarget targets
  | .assert test message => !mayAwait && (test.awaits || awaitsOption message)
  | .load .. | .pass | .globals _ | .leave | .next => false

/-- Whether the definition of a function awaits where it must not. Its body may if it is async. -/
def FunctionDef.strays (mayAwait : Bool) : FunctionDef → Bool
  | .mk _ params body isAsync => (!mayAwait && awaitsAnyDefault params) || blockStrays isAsync body

/-- **Whether a block awaits where it must not.** -/
def blockStrays (mayAwait : Bool) : List Stmt → Bool
  | [] => false
  | s :: ss => s.strays mayAwait || blockStrays mayAwait ss

/-- Whether handlers await where they must not. -/
def handlersStray (mayAwait : Bool) : List Handler → Bool
  | [] => false
  | .mk kind _ body :: hs =>
    (!mayAwait && awaitsOption kind) || blockStrays mayAwait body || handlersStray mayAwait hs

end

mutual

/-- Whether a default of a parameter awaits where it must not, in a statement. -/
def Stmt.defaultStrays (mayAwait : Bool) : Stmt → Bool
  | .mk _ action => action.defaultStrays mayAwait

/-- Whether a default of a parameter awaits where it must not, in an action. -/
def Action.defaultStrays (mayAwait : Bool) : Action → Bool
  | .branch _ yes no => blockDefaultStrays mayAwait yes || blockDefaultStrays mayAwait no
  | .loop _ body | .each _ _ body => blockDefaultStrays mayAwait body
  | .guard body handlers final =>
    blockDefaultStrays mayAwait body || handlersDefaultStray mayAwait handlers ||
      blockDefaultStrays mayAwait final
  | .define f => f.defaultStrays mayAwait
  | _ => false

/-- Whether a default of a parameter awaits where it must not, in the definition of a function. -/
def FunctionDef.defaultStrays (mayAwait : Bool) : FunctionDef → Bool
  | .mk _ params body isAsync =>
    (!mayAwait && awaitsAnyDefault params) || blockDefaultStrays isAsync body

/-- **Whether a default of a parameter awaits where it must not,** in a block. -/
def blockDefaultStrays (mayAwait : Bool) : List Stmt → Bool
  | [] => false
  | s :: ss => s.defaultStrays mayAwait || blockDefaultStrays mayAwait ss

/-- Whether a default of a parameter awaits where it must not, in handlers. -/
def handlersDefaultStray (mayAwait : Bool) : List Handler → Bool
  | [] => false
  | .mk _ _ body :: hs => blockDefaultStrays mayAwait body || handlersDefaultStray mayAwait hs

end

/-! ## What compilation sees -/

/-- A body of a function that is not async does not await, if nothing in it is misplaced. -/
theorem blockAwaits_of_scopeProblem {inLoop : Bool} {body : List Stmt}
    (h : blockProblem? ⟨some false, inLoop⟩ body = none) : blockAwaits body = false := by
  induction body with
  | nil => rfl
  | cons s ss ih =>
    obtain ⟨line, action⟩ := s
    rw [blockProblem?, Option.or_eq_none_iff, Stmt.scopeProblem?] at h
    obtain ⟨hs, hss⟩ := h
    have haction : action.awaits = false := by
      cases hawaits : action.awaits with
      | false => rfl
      | true => simp [hawaits] at hs
    rw [blockAwaits, Stmt.awaits, haction, ih hss]
    rfl

theorem scopeProblem_action {scope : Scope} {line : Nat} {action : Action}
    (h : (Stmt.mk line action).scopeProblem? scope = none) : action.scopeProblem? scope line = none := by
  rw [Stmt.scopeProblem?] at h
  split at h
  · cases h
  · exact h

/-- Something that may await itself has no stray await of its own, nor has something without any. -/
theorem stray_eq_false {mayAwait awaits : Bool} :
    (!mayAwait && awaits) = false ↔ Fits mayAwait awaits := by
  cases mayAwait with
  | true => exact ⟨fun _ => .may, fun _ => rfl⟩
  | false => exact ⟨fun h _ => h, fun h => h rfl⟩

mutual

theorem Action.strays_eq {mayAwait : Bool} {scope : Scope} {line : Nat} (action : Action)
    (h : mayAwait = false → action.awaits = false) (hscope : action.scopeProblem? scope line = none) :
    action.strays mayAwait = action.defaultStrays mayAwait := by
  match action with
  | .branch test yes no =>
    rw [Action.scopeProblem?, Option.or_eq_none_iff] at hscope
    have hparts (hm : mayAwait = false) :
        (test.awaits = false ∧ blockAwaits yes = false) ∧ blockAwaits no = false := by
      have := h hm
      rwa [Action.awaits, Bool.or_eq_false_iff, Bool.or_eq_false_iff] at this
    rw [Action.strays, Action.defaultStrays, stray_eq_false.2 fun hm => (hparts hm).1.1,
      blockStrays_eq yes (fun hm => (hparts hm).1.2) hscope.1,
      blockStrays_eq no (fun hm => (hparts hm).2) hscope.2, Bool.false_or]
  | .loop test body =>
    rw [Action.scopeProblem?] at hscope
    have hparts (hm : mayAwait = false) : test.awaits = false ∧ blockAwaits body = false := by
      have := h hm
      rwa [Action.awaits, Bool.or_eq_false_iff] at this
    rw [Action.strays, Action.defaultStrays, stray_eq_false.2 fun hm => (hparts hm).1,
      blockStrays_eq body (fun hm => (hparts hm).2) hscope, Bool.false_or]
  | .each target items body =>
    rw [Action.scopeProblem?] at hscope
    have hparts (hm : mayAwait = false) :
        (target.awaits || items.awaits) = false ∧ blockAwaits body = false := by
      have := h hm
      rwa [Action.awaits, Bool.or_eq_false_iff] at this
    rw [Action.strays, Action.defaultStrays, stray_eq_false.2 fun hm => (hparts hm).1,
      blockStrays_eq body (fun hm => (hparts hm).2) hscope, Bool.false_or]
  | .guard body handlers final =>
    rw [Action.scopeProblem?, Option.or_eq_none_iff, Option.or_eq_none_iff] at hscope
    have hparts (hm : mayAwait = false) :
        (blockAwaits body = false ∧ awaitsAnyHandler handlers = false) ∧ blockAwaits final = false := by
      have := h hm
      rwa [Action.awaits, Bool.or_eq_false_iff, Bool.or_eq_false_iff] at this
    rw [Action.strays, Action.defaultStrays,
      blockStrays_eq body (fun hm => (hparts hm).1.1) hscope.1,
      handlersStray_eq handlers (fun hm => (hparts hm).1.2) hscope.2.1,
      blockStrays_eq final (fun hm => (hparts hm).2) hscope.2.2]
  | .define (.mk name params body isAsync) =>
    rw [Action.scopeProblem?, FunctionDef.scopeProblem?] at hscope
    have hbody (hm : isAsync = false) : blockAwaits body = false := by
      rw [hm] at hscope
      exact blockAwaits_of_scopeProblem hscope
    rw [Action.strays, Action.defaultStrays, FunctionDef.strays, FunctionDef.defaultStrays,
      blockStrays_eq body hbody hscope]
  | .eval e => exact stray_eq_false.2 h
  | .assign targets value => exact stray_eq_false.2 h
  | .augment target op value => exact stray_eq_false.2 h
  | .raise e => exact stray_eq_false.2 h
  | .exit e => exact stray_eq_false.2 h
  | .delete targets => exact stray_eq_false.2 h
  | .assert test message => exact stray_eq_false.2 h
  | .load _ _ => rfl
  | .pass => rfl
  | .globals _ => rfl
  | .leave => rfl
  | .next => rfl

theorem blockStrays_eq {mayAwait : Bool} {scope : Scope} (body : List Stmt)
    (h : mayAwait = false → blockAwaits body = false) (hscope : blockProblem? scope body = none) :
    blockStrays mayAwait body = blockDefaultStrays mayAwait body := by
  match body with
  | [] => rfl
  | .mk line action :: ss =>
    rw [blockProblem?, Option.or_eq_none_iff] at hscope
    have hawaits (hm : mayAwait = false) : action.awaits = false ∧ blockAwaits ss = false := by
      have := h hm
      rwa [blockAwaits, Stmt.awaits, Bool.or_eq_false_iff] at this
    rw [blockStrays, blockDefaultStrays, Stmt.strays, Stmt.defaultStrays,
      Action.strays_eq action (fun hm => (hawaits hm).1) (scopeProblem_action hscope.1),
      blockStrays_eq ss (fun hm => (hawaits hm).2) hscope.2]

theorem handlersStray_eq {mayAwait : Bool} {scope : Scope} (handlers : List Handler)
    (h : mayAwait = false → awaitsAnyHandler handlers = false)
    (hscope : handlersProblem? scope handlers = none) :
    handlersStray mayAwait handlers = handlersDefaultStray mayAwait handlers := by
  match handlers with
  | [] => rfl
  | .mk kind name body :: hs =>
    rw [handlersProblem?, Option.or_eq_none_iff] at hscope
    have hparts (hm : mayAwait = false) :
        (awaitsOption kind = false ∧ blockAwaits body = false) ∧ awaitsAnyHandler hs = false := by
      have := h hm
      rwa [awaitsAnyHandler, Bool.or_eq_false_iff, Bool.or_eq_false_iff] at this
    rw [handlersStray, handlersDefaultStray, stray_eq_false.2 fun hm => (hparts hm).1.1,
      blockStrays_eq body (fun hm => (hparts hm).1.2) hscope.1,
      handlersStray_eq hs (fun hm => (hparts hm).2) hscope.2, Bool.false_or]

end

/-- **What compilation does not see:** a compiled source awaits where it must not only in the defaults
of parameters. -/
theorem compile_strays {source : List Char} {filename : String} {mode : Mode} {topLevelAwait : Bool}
    {code : Code} (h : compile source filename mode topLevelAwait = .ok code) :
    blockStrays code.isCoroutine code.body = blockDefaultStrays code.isCoroutine code.body := by
  unfold compile at h
  obtain ⟨body, -, h⟩ := Except.bind_eq_ok.mp h
  obtain ⟨⟨⟩, -, h⟩ := Except.bind_eq_ok.mp h
  split at h
  · cases h
  · rename_i hscope
    dsimp only at h
    split at h
    · cases h
    · cases h
      exact blockStrays_eq body id hscope

/-- Without leave to await at the top level, a compiled source does not. -/
theorem compile_noTopLevelAwait {source : List Char} {filename : String} {mode : Mode} {code : Code}
    (h : compile source filename mode false = .ok code) : code.isCoroutine = false := by
  unfold compile at h
  obtain ⟨body, -, h⟩ := Except.bind_eq_ok.mp h
  obtain ⟨⟨⟩, -, h⟩ := Except.bind_eq_ok.mp h
  split at h
  · cases h
  · dsimp only at h
    split at h
    · cases h
    · rename_i hawaits
      cases h
      simpa using hawaits

end Transcript.Lang
