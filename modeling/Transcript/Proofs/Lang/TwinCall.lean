import Transcript.Proofs.Lang.TwinData

/-!
# Calls of twins

What comes with the language treats twins alike: its functions and methods, called with arguments that are
twins, give values that are, and so does the binding of arguments to the parameters of a function.

Results:
* `Op.Twins.callBuiltin`, `Op.Twins.callMethod`, `Op.Twins.attributeOf`: functions, methods, attributes.
* `Op.Twins.createTask`, `Op.Twins.callTask`: tasks.
* `bindArguments_twins`: the names that a call of a function binds.
* `Op.Twins.takePending`: coroutines are started together.
-/

namespace Transcript.Lang

variable {L : Link} {place : Option (Ref × Ref)}

/-! ## Arguments -/

/-- Arguments that are twins. -/
structure Arguments.Twins (L : Link) (a a' : Arguments) : Prop where
  /-- The same is called. -/
  function : a'.function = a.function
  /-- The arguments without names are twins. -/
  positional : L.Values a.positional a'.positional
  /-- The arguments with names are twins. -/
  named : L.Named a.named a'.named

namespace Arguments.Twins

variable {a a' : Arguments} (h : a.Twins L a')

include h

theorem named? (key : String) : Option.Rel (Value.Twins L) (a.named? key) (a'.named? key) := by
  have hfind : Option.Rel (fun e e' => e'.1 = e.1 ∧ Value.Twins L e.2 e'.2)
      (a.named.find? (·.1 == key)) (a'.named.find? (·.1 == key)) :=
    both_find? h.named fun e e' he => by rw [he.1]
  unfold Arguments.named?
  generalize a.named.find? (·.1 == key) = o at hfind ⊢
  generalize a'.named.find? (·.1 == key) = o' at hfind ⊢
  cases hfind with
  | none => exact .none
  | some he => exact .some he.2

theorem nth (i : Nat) : (a.nth i).Twins L (a'.nth i) := both_getD_list h.positional i .none

theorem either (i : Nat) (key : String) {v v' : Value} (hv : v.Twins L v') :
    (a.either i key v).Twins L (a'.either i key v') :=
  both_getD (option_rel_or (both_getElem? h.positional i) (h.named? key)) hv

theorem onlyNamed (allowed : List String) :
    Op.Twins L place (fun _ _ => True) (Op.ofExcept (a.onlyNamed allowed)) (Op.ofExcept (a'.onlyNamed allowed)) := by
  have hfind : Option.Rel (fun e e' => e'.1 = e.1 ∧ Value.Twins L e.2 e'.2)
      (a.named.find? fun e => !allowed.contains e.1) (a'.named.find? fun e => !allowed.contains e.1) :=
    both_find? h.named fun e e' he => by rw [he.1]
  refine .ofExcept ?_
  unfold Arguments.onlyNamed
  generalize a.named.find? (fun e => !allowed.contains e.1) = o at hfind ⊢
  generalize a'.named.find? (fun e => !allowed.contains e.1) = o' at hfind ⊢
  cases hfind with
  | none => exact .ok trivial
  | @some e e' he =>
    dsimp only
    rw [h.function, he.1]
    exact .error (.same _ nofun)

theorem check (least most : Nat) (allowed : List String) :
    Op.Twins L place (fun _ _ => True) (a.check least most allowed) (a'.check least most allowed) := by
  have hcount : Op.Twins L place (fun _ _ => True) (Op.ofExcept (a.count least most))
      (Op.ofExcept (a'.count least most)) := by
    refine .ofExcept ?_
    unfold Arguments.count
    dsimp only
    rw [h.function, h.positional.length_eq]
    split
    · exact .error (.same _ nofun)
    · split
      · exact .error (.same _ nofun)
      · exact .ok trivial
  have hcheck (a : Arguments) : a.check least most allowed =
      Op.ofExcept (a.count least most) >>= fun _ => Op.ofExcept (a.onlyNamed allowed) := by
    funext w
    unfold Arguments.check
    cases hc : a.count least most with
    | error p => rfl
    | ok u =>
      cases u
      rfl
  rw [hcheck, hcheck]
  exact hcount.bind fun _ _ _ => h.onlyNamed allowed

end Arguments.Twins

namespace Op.Twins

section

variable {v v' : Value} (hv : v.Twins L v')

include hv

theorem integerOf : Twins L place (· = ·) (Lang.integerOf v) (Lang.integerOf v') := by
  unfold Lang.integerOf
  rw [hv.asInt?, hv.typeName]
  split
  · exact pure rfl
  · exact refuse _ nofun

theorem readText : Twins L place (· = ·) (Lang.readText v) (Lang.readText v') := by
  refine reading fun w w' hw => ?_
  rw [hw.readValue hv]
  exact ofOption (both_eq_option _)

theorem showValue : Twins L place (· = ·) (Lang.showValue v) (Lang.showValue v') := by
  refine reading fun w w' hw => ?_
  rw [hw.showValue hv]
  exact ofOption (both_eq_option _)

theorem coroutineOf : Twins L place (L.Pairs .coroutine) (Lang.coroutineOf v) (Lang.coroutineOf v') := by
  have hrefuse : Twins L place (L.Pairs .coroutine)
      (do Op.fail (.notCoroutine (String.ofList (← Lang.showValue v))))
      (do Op.fail (.notCoroutine (String.ofList (← Lang.showValue v')))) := by
    refine (showValue hv).bind fun s s' hs => ?_
    rw [hs]
    exact refuse _ nofun
  cases hv with
  | coroutine hr => exact pure hr
  | _ => exact hrefuse

theorem textOf : Twins L place (· = ·) (Lang.textOf v) (Lang.textOf v') := by
  cases hv with
  | str _ s => exact pure rfl
  | _ => exact refuse _ nofun

end

/-! ## Functions -/

section

variable {a a' : Arguments} (h : a.Twins L a')

include h

theorem printText (key : String) (dflt : List Char) :
    Twins L place (· = ·) (Lang.printText a key dflt) (Lang.printText a' key dflt) := by
  have hnamed := h.named? key
  unfold Lang.printText
  generalize a.named? key = o at hnamed ⊢
  generalize a'.named? key = o' at hnamed ⊢
  cases hnamed with
  | none => exact pure rfl
  | some hv =>
    cases hv with
    | none => exact pure rfl
    | str _ s => exact pure rfl
    | _ => exact refuse _ nofun

theorem print : Twins L place (Value.Twins L) (Lang.print a) (Lang.print a') := by
  refine (h.onlyNamed _).bind fun _ _ _ => (printText h _ _).bind fun sep _ hsep => ?_
  refine (printText h _ _).bind fun last _ hlast => ?_
  refine (sequential.mapM h.positional fun v v' hv => readText hv).bind fun parts parts' hparts => ?_
  rw [List.forall₂_eq_eq_eq] at hparts
  subst hsep hlast hparts
  exact (write _).bind fun _ _ _ => pure .none

/-- The extreme value of items, of which there has to be one. -/
def extremeAmong (function symbol : String) (keep : Ordering) : List Value → Op Value
  | [] => Op.fail (.emptyToCompare function)
  | v :: vs => Lang.extreme symbol keep v vs

theorem extremeOf (symbol : String) (keep : Ordering) :
    Twins L place (Value.Twins L) (Lang.extremeOf a symbol keep) (Lang.extremeOf a' symbol keep) := by
  have hextreme (vs vs' : List Value) (hs : L.Values vs vs') : Twins L place (Value.Twins L)
      (extremeAmong a.function symbol keep vs) (extremeAmong a.function symbol keep vs') := by
    cases hs with
    | nil => exact refuse _ nofun
    | cons hv hs => exact extreme symbol keep hv hs
  refine (h.onlyNamed _).bind fun _ _ _ => ?_
  have hpositional := h.positional
  dsimp only
  rw [h.function]
  generalize a.positional = vs at hpositional ⊢
  generalize a'.positional = vs' at hpositional ⊢
  cases hpositional with
  | nil => exact bind (R := L.Values) (refuse _ nofun) hextreme
  | cons hv hs =>
    cases hs with
    | nil => exact (iterate hv).bind hextreme
    | cons hu hs => exact (pure (List.Forall₂.cons hv (.cons hu hs))).bind hextreme

/-- **Tasks are created** for coroutines that are twins. -/
theorem createTask : Twins L place (Value.Twins L) (Lang.createTask a) (Lang.createTask a') := by
  refine (h.check _ _ _).bind fun _ _ _ => (coroutineOf (h.nth 0)).bind fun c c' hc => ?_
  refine (sequential.mapM_option (h.named? "name") fun v v' hv => readText hv).bind fun name name' hname => ?_
  have hsame : name' = name := by
    cases hname with
    | none => rfl
    | some hs => exact congrArg some hs.symm
  subst hsame
  refine looking fun w w' hw => ?_
  have hcreated := hw.created
  rw [hw.running, hw.running']
  cases place with
  | none => exact .error (.same _ nofun)
  | some p =>
    dsimp only [Option.map]
    rw [hcreated]
    obtain ⟨hpair, htwins⟩ := hw.spawn (hw.driven p rfl) hc
      ((name'.map String.ofList).getD s!"Task-{w.created + 1}")
    exact .ok ⟨.task hpair, htwins⟩

end

theorem sumOf {v v' : Value} (hv : v.Twins L v') {vs vs' : List Value} (hs : L.Values vs vs') :
    Twins L place (Value.Twins L) (Lang.sumOf v vs) (Lang.sumOf v' vs') := by
  induction hs generalizing v v' with
  | nil => exact pure hv
  | cons hu _ ih => exact (binary .add hv hu).bind fun t t' ht => ih ht

theorem rangeOf {vs vs' : List Value} (hs : L.Values vs vs') :
    Twins L place (Value.Twins L) (Lang.rangeOf vs) (Lang.rangeOf vs') := by
  refine (sequential.mapM hs fun v v' hv => integerOf hv).bind fun ns ns' hns => ?_
  rw [List.forall₂_eq_eq_eq] at hns
  subst hns
  split
  · exact pure (.range _ _ _)
  · exact pure (.range _ _ _)
  · split
    · exact refuse _ nofun
    · exact pure (.range _ _ _)
  · exact pure .none

/-- The kind of exceptions that a value stands for. -/
def kindOf : Value → Op ExceptionKind
  | .exceptionType k => Pure.pure k
  | v => Op.fail (.notClass v.typeName)

theorem kindsOf {v v' : Value} (hv : v.Twins L v') :
    Twins L place (· = ·) (Lang.kindsOf v) (Lang.kindsOf v') := by
  have hkind (v v' : Value) (hv : v.Twins L v') : Twins L place (· = ·) (kindOf v) (kindOf v') := by
    cases hv with
    | exceptionType k => exact pure rfl
    | _ => exact refuse _ nofun
  have hone := (hkind v v' hv).bind (S := (· = ·)) fun k k' hk => pure (congrArg (fun k => [k]) hk)
  cases hv with
  | tuple _ hs =>
    exact (sequential.mapM hs hkind).mono fun ks ks' hks => by rwa [List.forall₂_eq_eq_eq] at hks
  | _ => exact hone

theorem isInstance {v v' : Value} (hv : v.Twins L v') {u u' : Value} (hu : u.Twins L u') :
    Twins L place (Value.Twins L) (Lang.isInstance v u) (Lang.isInstance v' u') := by
  refine (kindsOf hu).bind fun ks ks' hks => ?_
  subst hks
  cases hv with
  | exception _ k hs => exact pure (.bool _)
  | _ => exact pure (.bool _)

/-- **What comes with the language** gives twins for twins. -/
theorem callBuiltin (b : Builtin) {a a' : Arguments} (h : a.Twins L a') :
    Twins L place (Value.Twins L) (Lang.callBuiltin b a) (Lang.callBuiltin b a') := by
  have hpositional := h.positional
  have hfirst {v v' : Value} (hv : v.Twins L v') : (a.positional.headD v).Twins L (a'.positional.headD v') := by
    rw [List.headD_eq_head?_getD, List.headD_eq_head?_getD]
    exact both_getD (both_head? hpositional) hv
  unfold Lang.callBuiltin
  cases b
  case print => exact print h
  case len => exact (h.check _ _ _).bind fun _ _ _ => size (h.nth 0)
  case str =>
    refine (h.check _ _ _).bind fun _ _ _ => ?_
    generalize a.positional = vs at hpositional ⊢
    generalize a'.positional = vs' at hpositional ⊢
    cases hpositional with
    | nil => exact newText _
    | cons hv _ => exact (readText hv).bind fun s s' hs => hs ▸ newText s
  case repr => exact (h.check _ _ _).bind fun _ _ _ => (showValue (h.nth 0)).bind fun s s' hs => hs ▸ newText s
  case bool =>
    refine (h.check _ _ _).bind fun _ _ _ => reading fun w w' hw => ?_
    rw [hw.truthy (h.nth 0)]
    exact pure (.bool _)
  case int => exact (h.check _ _ _).bind fun _ _ _ => ofExcept (toInt_twins (hfirst (.int 0)))
  case float => exact (h.check _ _ _).bind fun _ _ _ => ofExcept (toFloat_twins (hfirst (.float 0.0)))
  case abs => exact (h.check _ _ _).bind fun _ _ _ => ofExcept (absolute_twins (h.nth 0))
  case min => exact extremeOf h _ _
  case max => exact extremeOf h _ _
  case sum =>
    refine (h.check _ _ _).bind fun _ _ _ => (iterate (h.nth 0)).bind fun vs vs' hs => ?_
    exact sumOf (h.either 1 "start" (.int 0)) hs
  case range => exact (h.check _ _ _).bind fun _ _ _ => rangeOf hpositional
  case list =>
    refine (h.check _ _ _).bind fun _ _ _ => ?_
    generalize a.positional = vs at hpositional ⊢
    generalize a'.positional = vs' at hpositional ⊢
    cases hpositional with
    | nil => exact newList .nil
    | cons hv _ => exact (iterate hv).bind fun us us' hus => newList hus
  case tuple =>
    refine (h.check _ _ _).bind fun _ _ _ => ?_
    generalize a.positional = vs at hpositional ⊢
    generalize a'.positional = vs' at hpositional ⊢
    cases hpositional with
    | nil => exact newTuple .nil
    | cons hv _ => exact (iterate hv).bind fun us us' hus => newTuple hus
  case sorted =>
    refine (h.check _ _ _).bind fun _ _ _ => (iterate (h.nth 0)).bind fun us us' hus => ?_
    refine (sort hus).bind fun vs vs' hs => reading fun w w' hw => newList ?_
    have hbackward : (a'.named? "reverse").any w'.truthy = (a.named? "reverse").any w.truthy := by
      have hnamed := h.named? "reverse"
      generalize a.named? "reverse" = o at hnamed ⊢
      generalize a'.named? "reverse" = o' at hnamed ⊢
      cases hnamed with
      | none => rfl
      | some hv => exact hw.truthy hv
    rw [hbackward]
    split
    · exact List.rel_reverse hs
    · exact hs
  case isinstance => exact (h.check _ _ _).bind fun _ _ _ => isInstance (h.nth 0) (h.nth 1)
  case interrupt => exact (h.check _ _ _).bind fun _ _ _ => refuse _ nofun
  case sleep =>
    refine (h.check _ _ _).bind fun _ _ _ => ?_
    rw [(h.nth 0).asFloat?, (h.nth 0).typeName]
    split
    · exact newCoroutine _ (.sleep _ (h.either 1 "result" .none))
    · exact refuse _ nofun
  case gather => exact (h.onlyNamed _).bind fun _ _ _ => newCoroutine _ (.gather hpositional)
  case createTask => exact createTask h
  case run => exact refuse _ nofun

/-! ## Methods -/

theorem joinedParts (i : Nat) {vs vs' : List Value} (hs : L.Values vs vs') :
    Twins L place (· = ·) (Lang.joinedParts i vs) (Lang.joinedParts i vs') := by
  induction hs generalizing i with
  | nil => exact pure rfl
  | cons hv _ ih =>
    cases hv with
    | str _ s => exact (ih (i + 1)).bind fun ps ps' hps => hps ▸ pure rfl
    | _ => exact refuse _ nofun

theorem callText (s : List Char) (m : Method) {a a' : Arguments} (h : a.Twins L a') :
    Twins L place (Value.Twins L) (Lang.callText s m a) (Lang.callText s m a') := by
  have hpositional := h.positional
  have hparts (parts parts' : List (List Char)) (hp : parts = parts') : Twins L place (Value.Twins L)
      (do Op.newList (← parts.mapM Op.newText)) (do Op.newList (← parts'.mapM Op.newText)) := by
    subst hp
    exact (sequential.mapM (both_eq parts) fun t _ ht => ht ▸ newText t).bind fun _ _ hs => newList hs
  unfold Lang.callText
  cases m
  case upper => exact (h.check _ _ _).bind fun _ _ _ => newText _
  case lower => exact (h.check _ _ _).bind fun _ _ _ => newText _
  case strip =>
    refine (h.check _ _ _).bind fun _ _ _ => ?_
    generalize a.positional = vs at hpositional ⊢
    generalize a'.positional = vs' at hpositional ⊢
    cases hpositional with
    | nil => exact newText _
    | cons hv _ => cases hv <;> exact newText _
  case split =>
    refine (h.check _ _ _).bind fun _ _ _ => ?_
    generalize a.positional = vs at hpositional ⊢
    generalize a'.positional = vs' at hpositional ⊢
    cases hpositional with
    | nil => exact bind (R := (· = ·)) (pure rfl) hparts
    | cons hv _ =>
      cases hv with
      | str _ sep =>
        cases sep with
        | nil => exact bind (R := (· = ·)) (refuse _ nofun) hparts
        | cons c cs => exact bind (R := (· = ·)) (pure rfl) hparts
      | _ => exact bind (R := (· = ·)) (pure rfl) hparts
  case join =>
    refine (h.check _ _ _).bind fun _ _ _ => (iterate (h.nth 0)).bind fun vs vs' hs => ?_
    exact (joinedParts 0 hs).bind fun ps ps' hps => hps ▸ newText _
  case startswith => exact (h.check _ _ _).bind fun _ _ _ => (textOf (h.nth 0)).bind fun t t' ht => ht ▸ pure (.bool _)
  case endswith => exact (h.check _ _ _).bind fun _ _ _ => (textOf (h.nth 0)).bind fun t t' ht => ht ▸ pure (.bool _)
  case replace =>
    refine (h.check _ _ _).bind fun _ _ _ => (textOf (h.nth 0)).bind fun t t' ht => ?_
    exact (textOf (h.nth 1)).bind fun u u' hu => ht ▸ hu ▸ newText _
  all_goals exact refuse _ nofun

/-- Takes the item at an index out of a list with these items. -/
def popAt (r : Ref) (items : List Value) (i : Int64) : Op Value :=
  match placeOf? i items.length with
  | none => Op.fail .popRange
  | some n => do
    modify (·.setList r (items.eraseIdx n))
    return items.getD n .none

theorem popItem {r r' : Ref} (hr : L.Pairs .list r r') {o o' : Option Value}
    (ho : Option.Rel (Value.Twins L) o o') :
    Twins L place (Value.Twins L) (Lang.popItem r o) (Lang.popItem r' o') := by
  refine reading fun w w' hw => ?_
  have hs := hw.list hr
  have htake (i i' : Int64) (hi : i = i') : Twins L place (Value.Twins L) (popAt r (w.list r) i)
      (popAt r' (w'.list r') i') := by
    unfold popAt
    rw [← hi, ← hs.length_eq]
    split
    · exact refuse _ nofun
    · refine (setList hr fun _ _ _ => both_eraseIdx hs _).bind fun _ _ _ => ?_
      exact pure (both_getD_list hs _ .none)
  refine .ite (both_isEmpty hs) (refuse _ nofun) ?_
  cases ho with
  | none => exact (pure rfl).bind htake
  | some hv => exact (integerOf hv).bind htake

theorem callList {r r' : Ref} (hr : L.Pairs .list r r') (m : Method) {a a' : Arguments} (h : a.Twins L a') :
    Twins L place (Value.Twins L) (Lang.callList r m a) (Lang.callList r' m a') := by
  unfold Lang.callList
  cases m
  case append =>
    refine (h.check _ _ _).bind fun _ _ _ => ?_
    refine (setList hr fun w w' hw => List.rel_append (hw.list hr) (.cons (h.nth 0) .nil)).bind fun _ _ _ => ?_
    exact pure .none
  case extend =>
    refine (h.check _ _ _).bind fun _ _ _ => (iterate (h.nth 0)).bind fun vs vs' hs => ?_
    exact (setList hr fun w w' hw => List.rel_append (hw.list hr) hs).bind fun _ _ _ => pure .none
  case pop => exact (h.check _ _ _).bind fun _ _ _ => popItem hr (both_head? h.positional)
  all_goals exact refuse _ nofun

theorem callDict {r r' : Ref} (hr : L.Pairs .dict r r') (m : Method) {a a' : Arguments} (h : a.Twins L a') :
    Twins L place (Value.Twins L) (Lang.callDict r m a) (Lang.callDict r' m a') := by
  unfold Lang.callDict
  cases m
  case get =>
    refine (h.check _ _ _).bind fun _ _ _ => reading fun w w' hw => ?_
    exact (lookupKey (h.nth 0) (hw.dict hr)).bind fun o o' ho => pure (both_getD ho (h.nth 1))
  case keys => exact (h.check _ _ _).bind fun _ _ _ => reading fun w w' hw => newList (entries_keys (hw.dict hr))
  case values =>
    exact (h.check _ _ _).bind fun _ _ _ => reading fun w w' hw => newList (entries_values (hw.dict hr))
  case items =>
    refine (h.check _ _ _).bind fun _ _ _ => reading fun w w' hw => ?_
    refine (sequential.mapM (hw.dict hr) fun e e' he => ?_).bind fun vs vs' hs => newList hs
    exact newTuple (.cons he.1 (.cons he.2 .nil))
  all_goals exact refuse _ nofun

/-- **Methods of tasks** that are twins. -/
theorem callTask {r r' : Ref} (hr : L.Pairs .task r r') (m : Method) {a a' : Arguments} (h : a.Twins L a') :
    Twins L place L.Endings (Lang.callTask r m a) (Lang.callTask r' m a') := by
  unfold Lang.callTask
  cases m
  case done =>
    refine (h.check _ _ _).bind fun _ _ _ => reading fun w w' hw => ?_
    rw [(hw.task hr).isDone]
    exact pure (.ok (.bool _))
  case cancel =>
    refine (h.check _ _ _).bind fun _ _ _ => looking fun w w' hw => ?_
    have ht := hw.task hr
    have hnone : (w'.task r').outcome.isNone = (w.task r).outcome.isNone := by
      rw [← Option.not_isSome, ← Option.not_isSome, both_isSome ht.outcome]
    rw [ht.hasHandle, hnone]
    cases hhas : (w.task r).hasHandle && (w.task r).outcome.isNone with
    | false => exact .ok ⟨.ok (.bool _), hw⟩
    | true =>
      have hlt := World.lt_size_of_hasHandle (Bool.and_eq_true_iff.mp hhas).1
      exact .ok ⟨.ok (.bool _), hw.cancelTask hr hlt⟩
  case result =>
    refine (h.check _ _ _).bind fun _ _ _ => reading fun w w' hw => ?_
    have hresult := (hw.task hr).result
    generalize (w.task r).result = o at hresult ⊢
    generalize (w'.task r').result = o' at hresult ⊢
    cases hresult with
    | some ho => exact pure ho
    | none => exact refuse _ nofun
  all_goals exact refuse _ nofun

/-- **Methods** give twins for twins. -/
theorem callMethod {v v' : Value} (hv : v.Twins L v') (m : Method) {args args' : List Value}
    (hargs : L.Values args args') {named named' : List (String × Value)} (hnamed : L.Named named named') :
    Twins L place L.Endings (Lang.callMethod v m args named) (Lang.callMethod v' m args' named') := by
  have h : Arguments.Twins L ⟨m.name, args, named⟩ ⟨m.name, args', named'⟩ := ⟨rfl, hargs, hnamed⟩
  refine (h.onlyNamed _).bind fun _ _ _ => ?_
  cases hv with
  | str _ s => exact (callText s m h).bind fun _ _ hv => pure (.ok hv)
  | list hr => exact (callList hr m h).bind fun _ _ hv => pure (.ok hv)
  | dict hr => exact (callDict hr m h).bind fun _ _ hv => pure (.ok hv)
  | task hr => exact callTask hr m h
  | _ => exact refuse _ nofun

theorem attributeOf_exception (i : Nat) (k : ExceptionKind) (args : List Value) (name : String) :
    Lang.attributeOf (.exception i k args) name =
      if name = "args" then Op.newTuple args else Op.fail (.noAttribute k.name name) := by
  by_cases h : name = "args"
  · subst h
    rfl
  · rw [if_neg h]
    unfold Lang.attributeOf
    dsimp only
    split
    · exact absurd rfl h
    · rfl

/-- The method of a value with a name. -/
def methodOf (v : Value) (name : String) : Op Value :=
  match (methodsOf v).find? (·.name == name) with
  | some m => Pure.pure (.method v m)
  | none => Op.fail (.noAttribute v.typeName name)

theorem attributeOf {v v' : Value} (hv : v.Twins L v') (name : String) :
    Twins L place (Value.Twins L) (Lang.attributeOf v name) (Lang.attributeOf v' name) := by
  have hmethod : Twins L place (Value.Twins L) (methodOf v name) (methodOf v' name) := by
    have hmethods : methodsOf v' = methodsOf v := by cases hv <;> rfl
    unfold methodOf
    rw [hmethods, hv.typeName]
    split
    · exact pure (.method hv _)
    · exact refuse _ nofun
  cases hv with
  | exception _ k hs =>
    rw [attributeOf_exception, attributeOf_exception]
    split
    · exact newTuple hs
    · exact refuse _ nofun
  | module hi =>
    unfold Lang.attributeOf
    dsimp only
    split
    · exact pure (.builtin _)
    · split
      · exact pure (.exceptionType _)
      · exact refuse _ nofun
  | _ => exact hmethod

theorem loadModule (name : String) :
    Twins L place (Value.Twins L) (Lang.loadModule name) (Lang.loadModule name) := by
  unfold Lang.loadModule
  split
  · exact fresh.bind fun _ _ hi => pure (.module hi)
  · exact refuse _ nofun

/-! ## Statements -/

theorem constantValue (c : Constant) :
    Twins L place (Value.Twins L) (Lang.constantValue c) (Lang.constantValue c) := by
  cases c with
  | none => exact pure .none
  | bool b => exact pure (.bool b)
  | int n => exact pure (.int n)
  | float d => exact pure (.float _)
  | str s => exact newText s
  | bytes b => exact pure (.bytes b)

theorem exceptionOf {v v' : Value} (hv : v.Twins L v') :
    Twins L place (Raised.Twins L) (Lang.exceptionOf v) (Lang.exceptionOf v') := by
  cases hv with
  | exceptionType k => exact pure ⟨rfl, .nil⟩
  | exception _ k hs => exact pure ⟨rfl, hs⟩
  | _ => exact refuse _ nofun

mutual

theorem isCaughtBy {e e' : Raised} (he : e.Twins L e') (v v' : Value) (hv : v.Twins L v') :
    Twins L place (· = ·) (Lang.isCaughtBy e v) (Lang.isCaughtBy e' v') := by
  cases hv with
  | exceptionType k =>
    unfold Lang.isCaughtBy
    rw [he.kind]
    exact pure rfl
  | tuple _ hs =>
    unfold Lang.isCaughtBy
    exact isCaughtByAny he _ _ hs
  | _ =>
    unfold Lang.isCaughtBy
    exact refuse _ nofun

theorem isCaughtByAny {e e' : Raised} (he : e.Twins L e') (vs vs' : List Value) (hs : L.Values vs vs') :
    Twins L place (· = ·) (Lang.isCaughtByAny e vs) (Lang.isCaughtByAny e' vs') := by
  cases hs with
  | nil =>
    unfold Lang.isCaughtByAny
    exact pure rfl
  | @cons v v' us us' hv hs =>
    unfold Lang.isCaughtByAny
    refine (isCaughtBy he v v' hv).bind fun b b' hb => ?_
    exact .ite hb.symm (pure rfl) (isCaughtByAny he us us' hs)

end

theorem unpacked {v v' : Value} (hv : v.Twins L v') (expected : Nat) :
    Twins L place L.Values (Lang.unpacked v expected) (Lang.unpacked v' expected) := by
  have hitems (vs vs' : List Value) (hs : L.Values vs vs') : Twins L place L.Values
      (if vs.length < expected then Op.fail (.tooFewValues expected vs.length)
        else if expected < vs.length then Op.fail (.tooManyValues expected)
        else return vs)
      (if vs'.length < expected then Op.fail (.tooFewValues expected vs'.length)
        else if expected < vs'.length then Op.fail (.tooManyValues expected)
        else return vs') := by
    rw [← hs.length_eq]
    split
    · exact refuse _ nofun
    · split
      · exact refuse _ nofun
      · exact pure hs
  have hiterate := bind (iterate hv) hitems
  unfold Lang.unpacked
  cases hv with
  | list | tuple | str | range | dict => exact hiterate
  | _ => exact bind (R := L.Values) (refuse _ nofun) hitems

theorem makeException (k : ExceptionKind) {args args' : List Value} (hargs : L.Values args args')
    {named named' : List (String × Value)} (hnamed : L.Named named named') :
    Twins L place (Value.Twins L) (Lang.makeException k args named) (Lang.makeException k args' named') := by
  cases hnamed with
  | nil => exact newException ⟨rfl, hargs⟩
  | @cons e e' _ _ he _ =>
    unfold Lang.makeException
    dsimp only
    rw [he.1]
    exact refuse _ nofun

/-! ## Functions of a program -/

theorem functionAt {r r' : Ref} (hr : L.Pairs .function r r') :
    Twins L place (Function.Twins L) (Lang.functionAt r) (Lang.functionAt r') :=
  reading fun _ _ hw => pure (hw.function hr)

/-- **Coroutines that are twins** are started together. -/
theorem takePending {r r' : Ref} (hr : L.Pairs .coroutine r r') :
    Twins L place (Pending.Twins L) (Lang.takePending r) (Lang.takePending r') := by
  refine looking fun w w' hw => ?_
  have hc := hw.coroutine hr
  have hpending := hc.pending
  let taken (c : Coroutine) : Coroutine := { c with pending := none }
  have htaken : World.Twins L
      { w with coroutines := w.coroutines.setIfInBounds r (taken ((w.coroutines[r]?).getD default)) }
      { w' with coroutines := w'.coroutines.setIfInBounds r' (taken ((w'.coroutines[r']?).getD default)) } :=
    hw.toTwins.setCoroutine hr ⟨hc.name, .none⟩
  dsimp only [taken] at htaken ⊢
  generalize ((w.coroutines[r]?).getD default).pending = o at hpending ⊢
  generalize ((w'.coroutines[r']?).getD default).pending = o' at hpending ⊢
  cases hpending with
  | none => exact .error (.same _ nofun)
  | some hp => exact .ok ⟨hp, hw.of_twins htaken rfl rfl rfl rfl (Nat.le_refl _)⟩

end Op.Twins

theorem bindPositional_twins {b b' : Bindings Value} (hb : L.Bound b b') (ps : List Param) {vs vs' : List Value}
    (hs : L.Values vs vs') : L.Bound (bindPositional b ps vs) (bindPositional b' ps vs') := by
  induction hs generalizing b b' ps with
  | nil => cases ps <;> exact hb
  | cons hv _ ih =>
    cases ps with
    | nil => exact hb
    | cons p ps => exact ih (hb.insert p.name hv) ps

theorem bindNamed_twins (function : String) (params : List String) {b b' : Bindings Value} (hb : L.Bound b b')
    {named named' : List (String × Value)} (h : L.Named named named') :
    Except.Both (Problem.Twins L) L.Bound (bindNamed function params b named)
      (bindNamed function params b' named') := by
  induction h generalizing b b' with
  | nil => exact .ok hb
  | @cons e e' _ _ he _ ih =>
    obtain ⟨name, v⟩ := e
    obtain ⟨name', v'⟩ := e'
    obtain ⟨hname, hv⟩ := he
    change name' = name at hname
    subst hname
    unfold bindNamed
    rw [hb.contains]
    split
    · exact .error (.same _ nofun)
    · split
      · exact .error (.same _ nofun)
      · exact ih (hb.insert _ hv)

theorem bindDefaults_twins {b b' : Bindings Value} (hb : L.Bound b b')
    {defaults defaults' : List (String × Option Value)}
    (h : Bindings.BothEntries (Option.Rel (Value.Twins L)) defaults defaults') :
    L.Bound (bindDefaults b defaults).1 (bindDefaults b' defaults').1 ∧
      (bindDefaults b' defaults').2 = (bindDefaults b defaults).2 := by
  induction h generalizing b b' with
  | nil => exact ⟨hb, rfl⟩
  | @cons e e' _ _ he _ ih =>
    obtain ⟨name, o⟩ := e
    obtain ⟨name', o'⟩ := e'
    obtain ⟨hname, ho⟩ := he
    change name' = name at hname
    subst hname
    change Option.Rel (Value.Twins L) o o' at ho
    unfold bindDefaults
    rw [hb.contains]
    split
    · exact ih hb
    · cases ho with
      | some hv => exact ih (hb.insert _ hv)
      | none => exact ⟨(ih hb).1, congrArg (_ :: ·) (ih hb).2⟩

/-- The names that a call of a function binds which has as many parameters as there are arguments. -/
def bindFitting (f : FunctionDef) (defaults : List (Option Value)) (args : List Value)
    (named : List (String × Value)) : Except Problem (Bindings Value) := do
  let b ← bindNamed f.name (f.params.map Param.name) (bindPositional .empty f.params args) named
  let (b, missing) := bindDefaults b ((f.params.map Param.name).zip defaults)
  if missing.isEmpty then return b else throw (.missingArguments f.name missing)

/-- **The names that a call binds** are bound to twins. -/
theorem bindArguments_twins {g g' : Function} (hg : g.Twins L g') {args args' : List Value}
    (hargs : L.Values args args') {named named' : List (String × Value)} (hnamed : L.Named named named') :
    Except.Both (Problem.Twins L) L.Bound (bindArguments g args named) (bindArguments g' args' named') := by
  have hrest : Except.Both (Problem.Twins L) L.Bound (bindFitting g.definition g.defaults args named)
      (bindFitting g.definition g'.defaults args' named') := by
    refine (bindNamed_twins _ _ (bindPositional_twins .empty _ hargs) hnamed).bind fun b b' hb => ?_
    have hzip := both_zip (both_eq (g.definition.params.map Param.name)) hg.defaults
    obtain ⟨hbound, hmissing⟩ := bindDefaults_twins hb (hzip.imp fun _ _ he => ⟨he.1.symm, he.2⟩)
    dsimp only
    rw [hmissing]
    split
    · exact .ok hbound
    · exact .error (.same _ nofun)
  unfold bindArguments
  rw [hg.definition, ← hargs.length_eq]
  dsimp only
  split
  · exact .error (.same _ nofun)
  · exact hrest

end Transcript.Lang
