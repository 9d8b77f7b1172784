import Transcript.Lang.Eval
import Transcript.Proofs.Except

/-!
# Operations on data

Most operations read and change data only: the contents of lists and dictionaries, the supply of
identities and the text written. They leave functions, coroutines, namespaces, tasks and event loops
alone, and of event loops they see nothing: they do what they do to the view of a world. Values are shown,
compared and looked into without a look at event loops: these are no values, and what is shown of a task is
its name and whether it is done.

Results:
* `show?_view`, `read?_view`, `message?_view`: the forms of values.
* `equal?_view`, `same_view`: equality and identity.
* `OnData.bind`, `OnData.mapM`, `OnData.foldlM`: operations on data compose.
* `binary_onData`, `compareWith_onData`, `setItem_onData`: operators and containers are such
  operations, and so are the methods of texts, lists and dictionaries.
-/

namespace Transcript.Lang

/-! ## What operations on data see -/

namespace World

/-- **What operations on data see of a world:** no event loops, not even which one a task is on. -/
def view (w : World) : World :=
  { w with
    tasks := w.tasks.map fun t => { t with loop := 0 }, loops := #[], running := none,
    current := .root, created := 0, now := 0 }

/-- There is no more to see than what is seen. -/
theorem view_view (w : World) : w.view.view = w.view := by
  simp only [view, Array.map_map, Function.comp_def]

theorem task_view (w : World) (r : Ref) : w.view.task r = { w.task r with loop := 0 } := by
  simp only [task, view, Array.getElem?_map]
  cases w.tasks[r]? with
  | none => rfl
  | some t => rfl

theorem isDone_view (w : World) (r : Ref) : (w.view.task r).isDone = (w.task r).isDone := by
  rw [task_view]
  rfl

theorem result_view (w : World) (r : Ref) : (w.view.task r).result = (w.task r).result := by
  rw [task_view]

end World

/-! ### Forms -/

theorem show?_view (fuel : Nat) (w : World) : Lang.show? fuel w.view = Lang.show? fuel w := by
  induction fuel with
  | zero => rfl
  | succ fuel ih =>
    funext v
    unfold Lang.show?
    rw [ih]
    cases v with
    | bool b => cases b <;> rfl
    | task r =>
      dsimp only
      rw [World.task_view]
      rfl
    | _ => rfl

mutual

theorem read?_view (fuel : Nat) (w : World) (v : Value) :
    Lang.read? fuel w.view v = Lang.read? fuel w v := by
  cases fuel with
  | zero => rfl
  | succ fuel =>
    unfold Lang.read?
    rw [show?_view]
    split
    · rfl
    · exact excMessage?_view fuel w _ _
    · rfl

theorem excMessage?_view (fuel : Nat) (w : World) (kind : ExceptionKind) (args : List Value) :
    excMessage? fuel w.view kind args = excMessage? fuel w kind args := by
  cases fuel with
  | zero => rfl
  | succ fuel =>
    unfold excMessage?
    rw [show?_view]
    split
    · rfl
    · rw [read?_view fuel w]
    · rfl

end

namespace World

theorem showValue_view (w : World) (v : Value) : w.view.show? v = w.show? v :=
  congrFun (show?_view _ w) v

theorem readValue_view (w : World) (v : Value) : w.view.read? v = w.read? v := read?_view _ w v

theorem message?_view (w : World) (e : Raised) : w.view.message? e = w.message? e :=
  excMessage?_view _ w _ _

end World

/-! ### Equality -/

theorem equal?_view (fuel : Nat) (w : World) : Lang.equal? fuel w.view = Lang.equal? fuel w := by
  induction fuel with
  | zero =>
    funext a b
    unfold Lang.equal?
    rfl
  | succ fuel ih =>
    have hitems : Lang.equal?.equalItems fuel w.view = Lang.equal?.equalItems fuel w := by
      funext same xs ys
      unfold Lang.equal?.equalItems
      rw [ih]
    funext a b
    unfold Lang.equal?
    rw [ih, hitems]
    rfl

namespace World

theorem equalValue_view (w : World) (a b : Value) : w.view.equal? a b = w.equal? a b :=
  congrFun (congrFun (Lang.equal?_view _ w) a) b

theorem same_view (w : World) (a b : Value) : same w.view a b = same w a b := by
  unfold same
  rw [show w.view.equal? = w.equal? from funext fun a => funext (w.equalValue_view a)]

end World

/-! ## Operations -/

/-- A world with the data of another one. -/
def World.withData (w d : World) : World :=
  { w with lists := d.lists, dicts := d.dicts, identities := d.identities, written := d.written }

/-- **Two worlds that differ in data only.** -/
def World.DataDiffers (w w' : World) : Prop := w' = w.withData w'

/-- **An operation on data:** it sees the view of a world only, and if it succeeds, only data have
changed. -/
def Op.OnData {α : Type} (x : Op α) : Prop :=
  ∀ w, x w = (x w.view).map fun r => (r.1, w.withData r.2)

namespace Op.OnData

variable {α β γ : Type}

theorem dataDiffers {x : Op α} (h : OnData x) {w w' : World} {a : α} (hx : x w = .ok (a, w')) :
    w.DataDiffers w' := by
  rw [h w] at hx
  cases hview : x w.view with
  | error p =>
    rw [hview] at hx
    cases hx
  | ok r =>
    rw [hview] at hx
    cases hx
    rfl

/-- An operation leaves everything but data as it is seen. -/
theorem view_withData {x : Op α} (h : OnData x) {w : World} {r : α × World} (hr : x w.view = .ok r) :
    (w.withData r.2).view = r.2.view :=
  calc (w.withData r.2).view
    _ = w.view.view.withData r.2 := by rw [w.view_view]; rfl
    _ = r.2.view := congrArg World.view (h.dataDiffers hr).symm

theorem pure (a : α) : OnData (Pure.pure a : Op α) := fun _ => rfl

theorem fail (p : Problem) : OnData (Op.fail p : Op α) := fun _ => rfl

theorem bind {x : Op α} {f : α → Op β} (hx : OnData x) (hf : ∀ a, OnData (f a)) :
    OnData (x >>= f) := by
  intro w
  change (x w >>= fun r => f r.1 r.2) = (x w.view >>= fun r => f r.1 r.2).map _
  rw [hx w]
  cases hr : x w.view with
  | error p => rfl
  | ok r =>
    change f r.1 (w.withData r.2) = (f r.1 r.2).map _
    rw [hf r.1 (w.withData r.2), hf r.1 r.2, hx.view_withData hr]
    cases f r.1 r.2.view with
    | error p => rfl
    | ok s => rfl

/-- What is read and goes on to be used is seen. -/
theorem reading {f : World → Op β} (hf : ∀ w, OnData (f w)) (hsees : ∀ w : World, f w.view = f w) :
    OnData (get >>= f) := by
  intro w
  change f w w = (f w.view w.view).map _
  rw [hsees, ← hf w w]

theorem modifying {f : World → World} (hf : ∀ w : World, f w = w.withData (f w.view)) :
    OnData (modify f : Op Unit) :=
  fun w => congrArg (fun w' => Except.ok ((), w')) (hf w)

theorem ofExcept (x : Except Problem α) : OnData (Op.ofExcept x) := by
  intro w
  unfold Op.ofExcept
  cases x with
  | error p => rfl
  | ok a => rfl

theorem ofOption (x : Option α) : OnData (Op.ofOption x) := by
  cases x with
  | none => exact fail _
  | some a => exact pure a

/-- A result that is looked up. -/
theorem looking {f : World → Option α} (hsees : ∀ w : World, f w.view = f w) :
    OnData (do Op.ofOption (f (← get))) :=
  reading (fun w => ofOption (f w)) fun w => congrArg Op.ofOption (hsees w)

theorem ite {c : Prop} [Decidable c] {x y : Op α} (hx : OnData x) (hy : OnData y) :
    OnData (if c then x else y) := by
  split
  · exact hx
  · exact hy

theorem sequential : Sequential Op fun _ x => OnData x := ⟨pure, bind⟩

theorem mapM {f : α → Op β} (hf : ∀ a, OnData (f a)) (l : List α) : OnData (l.mapM f) :=
  sequential.mapM hf l

theorem mapM_option {f : α → Op β} (hf : ∀ a, OnData (f a)) (o : Option α) : OnData (o.mapM f) :=
  sequential.mapM_option hf o

theorem foldlM {f : β → α → Op β} (hf : ∀ b a, OnData (f b a)) (b : β) (l : List α) :
    OnData (l.foldlM f b) :=
  sequential.foldlM hf b l

theorem fresh : OnData Op.fresh := fun _ => rfl

theorem newText (s : List Char) : OnData (Op.newText s) := fresh.bind fun _ => pure _

theorem newTuple (items : List Value) : OnData (Op.newTuple items) := fresh.bind fun _ => pure _

theorem newException (e : Raised) : OnData (Op.newException e) := fresh.bind fun _ => pure _

theorem newList (items : List Value) : OnData (Op.newList items) := fun _ => rfl

theorem newDict (entries : List (Value × Value)) : OnData (Op.newDict entries) := fun _ => rfl

theorem setList {f : World → List Value} (r : Ref) (hsees : ∀ w : World, f w.view = f w) :
    OnData (modify fun w => w.setList r (f w) : Op Unit) := by
  refine modifying fun w => ?_
  rw [hsees]
  rfl

theorem setDict {f : World → List (Value × Value)} (r : Ref) (hsees : ∀ w : World, f w.view = f w) :
    OnData (modify fun w => w.setDict r (f w) : Op Unit) := by
  refine modifying fun w => ?_
  rw [hsees]
  rfl

end Op.OnData

open Op

/-! ## Comparing -/

theorem equal_onData (a b : Value) : OnData (equal a b) := .looking fun w => w.equalValue_view a b

theorem compareValues_onData (symbol : String) (fuel : Nat) (a b : Value) :
    OnData (compareValues symbol fuel a b) := by
  induction fuel generalizing a b with
  | zero =>
    unfold compareValues
    exact .fail _
  | succ fuel ih =>
    have hitems (xs ys : List Value) : OnData (compareValues.items symbol fuel xs ys) := by
      induction xs generalizing ys with
      | nil =>
        unfold compareValues.items
        exact .pure _
      | cons x xs ihxs =>
        cases ys with
        | nil =>
          unfold compareValues.items
          exact .pure _
        | cons y ys =>
          unfold compareValues.items
          exact .bind (equal_onData x y) fun _ => .ite (ihxs ys) (ih x y)
    unfold compareValues
    split
    · exact .pure _
    · exact .pure _
    · exact .reading (fun _ => .reading (fun _ => hitems _ _) fun _ => rfl) fun _ => rfl
    · exact hitems _ _
    · split
      · exact .pure _
      · exact .fail _

theorem order_onData (symbol : String) (a b : Value) : OnData (order symbol a b) :=
  .reading (fun _ => compareValues_onData symbol _ a b) fun _ => rfl

theorem sortInto_onData (x : Value) (items : List Value) : OnData (sortInto x items) := by
  induction items with
  | nil => exact .pure _
  | cons y ys ih =>
    exact .bind (order_onData "<" x y) fun _ => .ite (.bind ih fun _ => .pure _) (.pure _)

theorem sort_onData (items : List Value) : OnData (sort items) :=
  .bind (.foldlM (fun sorted x => sortInto_onData x sorted) [] items) fun _ => .pure _

theorem extreme_onData (symbol : String) (keep : Ordering) (best : Value) (items : List Value) :
    OnData (extreme symbol keep best items) := by
  induction items generalizing best with
  | nil => exact .pure _
  | cons x xs ih => exact .bind (order_onData symbol x best) fun _ => ih _

/-! ## Sequences and dictionaries -/

theorem iterate_onData (v : Value) : OnData (iterate v) := by
  unfold iterate
  split
  · exact .reading (fun _ => .pure _) fun _ => rfl
  · exact .pure _
  · exact .mapM (fun c => .newText [c]) _
  · exact .pure _
  · exact .reading (fun _ => .pure _) fun _ => rfl
  · exact .pure _
  · exact .fail _

theorem size_onData (v : Value) : OnData (size v) := by
  unfold size
  split
  · exact .pure _
  · exact .pure _
  · exact .reading (fun _ => .pure _) fun _ => rfl
  · exact .pure _
  · exact .reading (fun _ => .pure _) fun _ => rfl
  · exact .pure _
  · exact .fail _

theorem anyEqual_onData (v : Value) (items : List Value) : OnData (anyEqual v items) := by
  induction items with
  | nil => exact .pure _
  | cons x xs ih => exact .bind (equal_onData x v) fun _ => .ite (.pure _) ih

theorem contains_onData (container item : Value) : OnData (contains container item) := by
  unfold contains
  split
  · exact .pure _
  · exact .fail _
  · exact .reading (fun _ => anyEqual_onData _ _) fun _ => rfl
  · split
    · exact .pure _
    · exact .pure _
  · exact .bind (iterate_onData _) fun _ => anyEqual_onData _ _

theorem indexIn_onData (index : Value) (length : Int) (what : String) :
    OnData (indexIn index length what) := by
  unfold indexIn
  split
  · exact .fail _
  · split
    · exact .pure _
    · exact .fail _

theorem sliceEnd_onData (v : Value) (length dflt : Nat) : OnData (sliceEnd v length dflt) := by
  unfold sliceEnd
  split
  · exact .pure _
  · split
    · exact .pure _
    · exact .fail _

theorem sliceOf_onData {α : Type} (lower upper : Value) (items : List α) :
    OnData (sliceOf lower upper items) :=
  .bind (sliceEnd_onData _ _ _) fun _ => .bind (sliceEnd_onData _ _ _) fun _ => .pure _

theorem slice_onData (v lower upper : Value) : OnData (slice v lower upper) := by
  unfold slice
  split
  · exact .reading (fun _ => .bind (sliceOf_onData _ _ _) fun _ => .newList _) fun _ => rfl
  · exact .bind (sliceOf_onData _ _ _) fun _ => .newTuple _
  · exact .bind (sliceOf_onData _ _ _) fun _ => .newText _
  · exact .fail _

theorem lookupKey_onData (key : Value) (entries : List (Value × Value)) :
    OnData (lookupKey key entries) := by
  induction entries with
  | nil => exact .pure _
  | cons entry rest ih => exact .bind (equal_onData _ key) fun _ => .ite (.pure _) ih

theorem putEntry_onData (key value : Value) (entries : List (Value × Value)) :
    OnData (putEntry key value entries) := by
  induction entries with
  | nil => exact .pure _
  | cons entry rest ih =>
    exact .bind (equal_onData _ key) fun _ => .ite (.pure _) (.bind ih fun _ => .pure _)

theorem dropKey_onData (key : Value) (entries : List (Value × Value)) :
    OnData (dropKey key entries) := by
  induction entries with
  | nil => exact .pure _
  | cons entry rest ih => exact .bind (equal_onData _ key) fun _ => .bind ih fun _ => .pure _

theorem itemAt_onData (v index : Value) : OnData (itemAt v index) := by
  unfold itemAt
  split
  · exact .reading (fun _ => .bind (indexIn_onData _ _ _) fun _ => .pure _) fun _ => rfl
  · exact .bind (indexIn_onData _ _ _) fun _ => .pure _
  · exact .bind (indexIn_onData _ _ _) fun _ => .newText _
  · exact .bind (indexIn_onData _ _ _) fun _ => .pure _
  · exact .bind (indexIn_onData _ _ _) fun _ => .pure _
  · refine .reading (fun _ => .bind (lookupKey_onData _ _) fun found => ?_) fun _ => rfl
    cases found with
    | some v => exact .pure v
    | none => exact .fail _
  · exact .fail _

theorem assignedPlace_onData (index : Value) (length : Nat) : OnData (assignedPlace index length) := by
  unfold assignedPlace
  split
  · exact .pure _
  · exact .fail _

theorem setItem_onData (container index item : Value) : OnData (setItem container index item) := by
  unfold setItem
  split
  · exact .reading (fun _ => .bind (assignedPlace_onData _ _) fun _ => .setList _ fun _ => rfl) fun _ => rfl
  · exact .reading (fun _ => .bind (putEntry_onData _ _ _) fun _ => .setDict _ fun _ => rfl) fun _ => rfl
  · exact .fail _

theorem deleteItem_onData (container index : Value) : OnData (deleteItem container index) := by
  unfold deleteItem
  split
  · exact .reading (fun _ => .bind (assignedPlace_onData _ _) fun _ => .setList _ fun _ => rfl) fun _ => rfl
  · refine .reading (fun _ => .bind (dropKey_onData _ _) fun _ => ?_) fun _ => rfl
    exact .ite (.bind (.fail _) fun _ => .setDict _ fun _ => rfl) (.setDict _ fun _ => rfl)
  · exact .fail _

theorem repeatCount_onData (n : Int64) (length : Nat) (what : String) :
    OnData (repeatCount n length what) :=
  .ite (.pure _) (.fail _)

theorem repeatText_onData (s : List Char) (n : Int64) : OnData (repeatText s n) :=
  .bind (repeatCount_onData _ _ _) fun _ => .newText _

theorem repeatList_onData (items : List Value) (n : Int64) : OnData (repeatList items n) :=
  .bind (repeatCount_onData _ _ _) fun _ => .newList _

/-! ## Operators -/

theorem binary_onData (op : BinaryOp) (left right : Value) : OnData (binary op left right) := by
  unfold binary
  split
  · exact .ofExcept _
  · split
    · exact .ofExcept _
    · split
      · exact .newText _
      · exact .pure _
      · exact .reading (fun _ => .reading (fun _ => .newList _) fun _ => rfl) fun _ => rfl
      · exact .newTuple _
      · split
        · exact repeatText_onData _ _
        · exact repeatText_onData _ _
        · exact .reading (fun _ => repeatList_onData _ _) fun _ => rfl
        · exact .reading (fun _ => repeatList_onData _ _) fun _ => rfl
        · exact .fail _
      · exact .fail _

theorem unary_onData (op : UnaryOp) (v : Value) : OnData (unary op v) := by
  unfold unary
  split
  · exact .reading (fun _ => .pure _) fun _ => rfl
  · exact .ofExcept _
  · exact .ofExcept _

theorem compareWith_onData (op : CompareOp) (left right : Value) :
    OnData (compareWith op left right) := by
  unfold compareWith
  split
  · exact equal_onData _ _
  · exact .bind (equal_onData _ _) fun _ => .pure _
  · exact .bind (order_onData _ _ _) fun _ => .pure _
  · exact .bind (order_onData _ _ _) fun _ => .pure _
  · exact .bind (order_onData _ _ _) fun _ => .pure _
  · exact .bind (order_onData _ _ _) fun _ => .pure _
  · exact contains_onData _ _
  · exact .bind (contains_onData _ _) fun _ => .pure _
  · exact .looking fun w => w.same_view _ _
  · refine .reading (fun _ => .bind (.ofOption _) fun _ => .pure _) fun w => ?_
    rw [w.same_view]

theorem augmented_onData (op : BinaryOp) (current operand : Value) :
    OnData (augmented op current operand) := by
  unfold augmented
  split
  · exact .bind (iterate_onData _) fun _ => .bind (.setList _ fun _ => rfl) fun _ => .pure _
  · exact binary_onData _ _ _

/-! ## Functions and methods -/

theorem Arguments.check_onData (a : Arguments) (least most : Nat) (allowed : List String) :
    OnData (a.check least most allowed) :=
  .ofExcept _

theorem integerOf_onData (v : Value) : OnData (integerOf v) := by
  unfold integerOf
  split
  · exact .pure _
  · exact .fail _

theorem readText_onData (v : Value) : OnData (readText v) := .looking fun w => w.readValue_view v

theorem showValue_onData (v : Value) : OnData (showValue v) := .looking fun w => w.showValue_view v

theorem coroutineOf_onData (v : Value) : OnData (coroutineOf v) := by
  unfold coroutineOf
  split
  · exact .pure _
  · refine .reading (fun _ => .bind (.ofOption _) fun _ => .fail _) fun w => ?_
    rw [w.showValue_view]

theorem printText_onData (a : Arguments) (key : String) (dflt : List Char) :
    OnData (printText a key dflt) := by
  unfold printText
  split
  · exact .pure _
  · exact .pure _
  · exact .pure _
  · exact .fail _

theorem print_onData (a : Arguments) : OnData (print a) := by
  refine .bind (.ofExcept _) fun _ => .bind (printText_onData _ _ _) fun _ => ?_
  refine .bind (printText_onData _ _ _) fun _ => .bind (.mapM readText_onData _) fun _ => ?_
  exact .bind (.modifying fun _ => rfl) fun _ => .pure _

theorem sumOf_onData (total : Value) (items : List Value) : OnData (sumOf total items) := by
  induction items generalizing total with
  | nil => exact .pure _
  | cons v vs ih => exact .bind (binary_onData _ _ _) fun _ => ih _

theorem rangeOf_onData (args : List Value) : OnData (rangeOf args) := by
  refine .bind (.mapM integerOf_onData _) fun ns => ?_
  split
  · exact .pure _
  · exact .pure _
  · exact .ite (.fail _) (.pure _)
  · exact .pure _

theorem extremeOf_onData (a : Arguments) (symbol : String) (keep : Ordering) :
    OnData (extremeOf a symbol keep) := by
  refine .bind (.ofExcept _) fun _ => ?_
  dsimp only
  split <;> refine .bind ?_ fun items => ?_
  case h_1.refine_1 => exact .fail _
  case h_2.refine_1 => exact iterate_onData _
  case h_3.refine_1 => exact .pure _
  all_goals
    split
    · exact .fail _
    · exact extreme_onData _ _ _ _

theorem kindsOf_onData (v : Value) : OnData (kindsOf v) := by
  unfold kindsOf
  split
  · refine .mapM (fun v => ?_) _
    split
    · exact .pure _
    · exact .fail _
  · refine .bind ?_ fun _ => .pure _
    dsimp only
    split
    · exact .pure _
    · exact .fail _

theorem isInstance_onData (v classes : Value) : OnData (isInstance v classes) := by
  refine .bind (kindsOf_onData _) fun _ => ?_
  split
  · exact .pure _
  · exact .pure _

theorem textOf_onData (v : Value) : OnData (textOf v) := by
  unfold textOf
  split
  · exact .pure _
  · exact .fail _

theorem joinedParts_onData (i : Nat) (items : List Value) : OnData (joinedParts i items) := by
  induction items generalizing i with
  | nil => exact .pure _
  | cons v vs ih =>
    cases v with
    | str identity s => exact .bind (ih (i + 1)) fun _ => .pure _
    | _ => exact .fail _

theorem callText_onData (s : List Char) (m : Method) (a : Arguments) : OnData (callText s m a) := by
  unfold callText
  split
  · exact .bind (.ofExcept _) fun _ => .newText _
  · exact .bind (.ofExcept _) fun _ => .newText _
  · refine .bind (.ofExcept _) fun _ => ?_
    split
    · exact .newText _
    · exact .newText _
  · have hparts (parts : List (List Char)) : OnData (do Op.newList (← parts.mapM Op.newText)) :=
      .bind (.mapM .newText _) fun _ => .newList _
    refine .bind (.ofExcept _) fun _ => ?_
    dsimp only
    split
    · exact .bind (.fail _) hparts
    · exact .bind (.pure _) hparts
    · exact .bind (.pure _) hparts
  · refine .bind (.ofExcept _) fun _ => .bind (iterate_onData _) fun _ => ?_
    exact .bind (joinedParts_onData _ _) fun _ => .newText _
  · exact .bind (.ofExcept _) fun _ => .bind (textOf_onData _) fun _ => .pure _
  · exact .bind (.ofExcept _) fun _ => .bind (textOf_onData _) fun _ => .pure _
  · refine .bind (.ofExcept _) fun _ => .bind (textOf_onData _) fun _ => ?_
    exact .bind (textOf_onData _) fun _ => .newText _
  · exact .fail _

theorem popItem_onData (r : Ref) (index : Option Value) : OnData (popItem r index) := by
  refine .reading (fun w => .ite (.fail _) ?_) fun _ => rfl
  dsimp only
  split <;> refine .bind ?_ fun i => ?_
  case h_1.refine_1 => exact .pure _
  case h_2.refine_1 => exact integerOf_onData _
  all_goals
    split
    · exact .fail _
    · exact .bind (.setList _ fun _ => rfl) fun _ => .pure _

theorem callList_onData (r : Ref) (m : Method) (a : Arguments) : OnData (callList r m a) := by
  unfold callList
  split
  · exact .bind (.ofExcept _) fun _ => .bind (.setList _ fun _ => rfl) fun _ => .pure _
  · refine .bind (.ofExcept _) fun _ => .bind (iterate_onData _) fun _ => ?_
    exact .bind (.setList _ fun _ => rfl) fun _ => .pure _
  · exact .bind (.ofExcept _) fun _ => popItem_onData _ _
  · exact .fail _

theorem callDict_onData (r : Ref) (m : Method) (a : Arguments) : OnData (callDict r m a) := by
  unfold callDict
  split
  · refine .bind (.ofExcept _) fun _ => .reading (fun _ => ?_) fun _ => rfl
    exact .bind (lookupKey_onData _ _) fun _ => .pure _
  · exact .bind (.ofExcept _) fun _ => .reading (fun _ => .newList _) fun _ => rfl
  · exact .bind (.ofExcept _) fun _ => .reading (fun _ => .newList _) fun _ => rfl
  · refine .bind (.ofExcept _) fun _ => .reading (fun _ => ?_) fun _ => rfl
    exact .bind (.mapM (fun _ => .newTuple _) _) fun _ => .newList _
  · exact .fail _

/-- **What comes with the language** works on data, but for what makes coroutines or tasks. -/
theorem callBuiltin_onData {b : Builtin} (a : Arguments) (hsleep : b ≠ .sleep) (hgather : b ≠ .gather)
    (hcreate : b ≠ .createTask) : OnData (callBuiltin b a) := by
  unfold callBuiltin
  cases b
  case print => exact print_onData a
  case len => exact .bind (.ofExcept _) fun _ => size_onData _
  case str =>
    refine .bind (.ofExcept _) fun _ => ?_
    split
    · exact .newText _
    · exact .bind (readText_onData _) fun _ => .newText _
  case repr => exact .bind (.ofExcept _) fun _ => .bind (showValue_onData _) fun _ => .newText _
  case bool => exact .bind (.ofExcept _) fun _ => .reading (fun _ => .pure _) fun _ => rfl
  case int => exact .bind (.ofExcept _) fun _ => .ofExcept _
  case float => exact .bind (.ofExcept _) fun _ => .ofExcept _
  case abs => exact .bind (.ofExcept _) fun _ => .ofExcept _
  case min => exact extremeOf_onData _ _ _
  case max => exact extremeOf_onData _ _ _
  case sum => exact .bind (.ofExcept _) fun _ => .bind (iterate_onData _) fun _ => sumOf_onData _ _
  case range => exact .bind (.ofExcept _) fun _ => rangeOf_onData _
  case list =>
    refine .bind (.ofExcept _) fun _ => ?_
    split
    · exact .newList _
    · exact .bind (iterate_onData _) fun _ => .newList _
  case tuple =>
    refine .bind (.ofExcept _) fun _ => ?_
    split
    · exact .newTuple _
    · exact .bind (iterate_onData _) fun _ => .newTuple _
  case sorted =>
    refine .bind (.ofExcept _) fun _ => .bind (iterate_onData _) fun _ => ?_
    exact .bind (sort_onData _) fun _ => .reading (fun _ => .newList _) fun _ => rfl
  case isinstance => exact .bind (.ofExcept _) fun _ => isInstance_onData _ _
  case interrupt => exact .bind (.ofExcept _) fun _ => .fail _
  case sleep => exact absurd rfl hsleep
  case gather => exact absurd rfl hgather
  case createTask => exact absurd rfl hcreate
  case run => exact .fail _

/-- The methods of a task read, but for the one that cancels it. -/
theorem callTask_onData (r : Ref) {m : Method} (a : Arguments) (hcancel : m ≠ .cancel) :
    OnData (callTask r m a) := by
  unfold callTask
  split
  · refine .bind (.ofExcept _) fun _ => .reading (fun _ => .pure _) fun w => ?_
    rw [w.isDone_view]
  · exact absurd rfl hcancel
  · refine .bind (.ofExcept _) fun _ => .reading (fun _ => ?_) fun w => ?_
    · split
      · exact .pure _
      · exact .fail _
    · rw [w.result_view]
  · exact .fail _

/-- **Methods** work on data, but for those of tasks. -/
theorem callMethod_onData {receiver : Value} (hreceiver : ∀ r, receiver ≠ .task r) (m : Method)
    (args : List Value) (named : List (String × Value)) :
    OnData (callMethod receiver m args named) := by
  unfold callMethod
  refine .bind (.ofExcept _) fun _ => ?_
  split
  · exact .bind (callText_onData _ _ _) fun _ => .pure _
  · exact .bind (callList_onData _ _ _) fun _ => .pure _
  · exact .bind (callDict_onData _ _ _) fun _ => .pure _
  · exact absurd rfl (hreceiver _)
  · exact .fail _

theorem attributeOf_onData (v : Value) (name : String) : OnData (attributeOf v name) := by
  unfold attributeOf
  split
  · split
    · exact .pure _
    · exact .ite (.pure _) (.fail _)
  · split
    · exact .newTuple _
    · split
      · exact .pure _
      · exact .fail _

theorem loadModule_onData (name : String) : OnData (loadModule name) :=
  .ite (.bind .fresh fun _ => .pure _) (.fail _)

/-! ## Statements -/

theorem lookup_onData (f : Frame) (name : String) : OnData (f.lookup name) := by
  refine .reading (fun _ => ?_) fun _ => rfl
  dsimp only
  split
  · exact .pure _
  · exact .fail _

theorem constantValue_onData (c : Constant) : OnData (constantValue c) := by
  unfold constantValue
  split
  · exact .pure _
  · exact .pure _
  · exact .pure _
  · exact .pure _
  · exact .newText _
  · exact .pure _

theorem exceptionOf_onData (v : Value) : OnData (exceptionOf v) := by
  unfold exceptionOf
  split
  · exact .pure _
  · exact .pure _
  · exact .fail _

mutual

theorem isCaughtBy_onData (e : Raised) (v : Value) : OnData (isCaughtBy e v) := by
  unfold isCaughtBy
  split
  · exact .pure _
  · exact isCaughtByAny_onData e _
  · exact .fail _

theorem isCaughtByAny_onData (e : Raised) (vs : List Value) : OnData (isCaughtByAny e vs) := by
  unfold isCaughtByAny
  split
  · exact .pure _
  · exact .bind (isCaughtBy_onData e _) fun _ => .ite (.pure _) (isCaughtByAny_onData e _)

end

theorem unpacked_onData (v : Value) (expected : Nat) : OnData (unpacked v expected) := by
  have hitems (items : List Value) : OnData (if items.length < expected then
        Op.fail (.tooFewValues expected items.length)
      else if expected < items.length then Op.fail (.tooManyValues expected)
      else return items : Op (List Value)) :=
    .ite (.fail _) (.ite (.fail _) (.pure _))
  unfold unpacked
  dsimp only
  split
  · exact .bind (iterate_onData _) hitems
  · exact .bind (iterate_onData _) hitems
  · exact .bind (iterate_onData _) hitems
  · exact .bind (iterate_onData _) hitems
  · exact .bind (iterate_onData _) hitems
  · exact .bind (.fail _) hitems

theorem makeException_onData (k : ExceptionKind) (args : List Value) (named : List (String × Value)) :
    OnData (makeException k args named) := by
  unfold makeException
  split
  · exact .fail _
  · exact .newException _

/-! ## Operations on memory -/

/-- A world with the data, functions, coroutines and namespaces of another one. -/
def World.withMemory (w d : World) : World :=
  { w.withData d with functions := d.functions, coroutines := d.coroutines, spaces := d.spaces }

/-- **An operation on memory:** it sees the view of a world only, and if it succeeds, nothing has become of
tasks and event loops. -/
def Op.OnMemory {α : Type} (x : Op α) : Prop :=
  ∀ w, x w = (x w.view).map fun r => (r.1, w.withMemory r.2)

namespace Op.OnMemory

variable {α β : Type}

theorem of_onData {x : Op α} (h : x.OnData) : OnMemory x := by
  intro w
  rw [h w]
  cases hr : x w.view with
  | error p => rfl
  | ok r =>
    have hmemory : w.withData r.2 = w.withMemory r.2 := by
      rw [h.dataDiffers hr]
      rfl
    exact congrArg (fun w' => Except.ok (r.1, w')) hmemory

/-- An operation on memory after one on data. -/
theorem after {x : Op α} {f : α → Op β} (hx : x.OnData) (hf : ∀ a, OnMemory (f a)) :
    OnMemory (x >>= f) := by
  intro w
  change (x w >>= fun r => f r.1 r.2) = (x w.view >>= fun r => f r.1 r.2).map _
  rw [hx w]
  cases hr : x w.view with
  | error p => rfl
  | ok r =>
    change f r.1 (w.withData r.2) = (f r.1 r.2).map _
    rw [hf r.1 (w.withData r.2), hf r.1 r.2, hx.view_withData hr]
    cases f r.1 r.2.view with
    | error p => rfl
    | ok s => rfl

theorem reading {f : World → Op β} (hf : ∀ w, OnMemory (f w))
    (hsees : ∀ w : World, f w.view = f w) : OnMemory (get >>= f) := by
  intro w
  change f w w = (f w.view w.view).map _
  rw [hsees, ← hf w w]

/-- What is seen of the world. -/
theorem seeing : OnMemory fun w : World => .ok (w.view, w) := by
  intro w
  change _ = Except.ok (w.view.view, _)
  rw [w.view_view]
  rfl

theorem newFunction (f : Function) : OnMemory (Lang.newFunction f) := fun _ => rfl

theorem newCoroutine (name : String) (p : Pending) : OnMemory (Op.newCoroutine name p) :=
  fun _ => rfl

theorem functionAt (r : Ref) : OnMemory (Lang.functionAt r) := fun _ => rfl

theorem takePending (r : Ref) : OnMemory (Lang.takePending r) := by
  intro w
  simp only [Lang.takePending, bind, StateT.bind, get, getThe, MonadStateOf.get, StateT.get,
    Except.bind, pure, Except.pure, show w.view.coroutines = w.coroutines from rfl]
  cases ((w.coroutines[r]?).getD default).pending with
  | none => rfl
  | some p => rfl

/-- A namespace is changed. -/
theorem setSpace {f : World → Bindings Value} (r : Ref) (hsees : ∀ w : World, f w.view = f w) :
    OnMemory (modify fun w => w.setSpace r (f w) : Op Unit) := by
  intro w
  change Except.ok ((), w.setSpace r (f w)) = Except.ok ((), w.withMemory (w.view.setSpace r (f w.view)))
  rw [hsees]
  rfl

end Op.OnMemory

end Transcript.Lang
