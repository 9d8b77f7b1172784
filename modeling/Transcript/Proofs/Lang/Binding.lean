import Transcript.Proofs.Except
import Transcript.Proofs.Lang.Tidy

/-!
# Arguments of calls

A call of a function binds its parameters in three passes over one map: the arguments without names take the
first parameters, those with names the parameters that they name, and what is left gets its default. Each pass
is described by what can be looked up afterwards. Together they give the rule that a reader knows: which
arguments fit a function, and which value each parameter gets.

Results:
* `get?_bindPositional`, `bindNamed_eq_ok`, `get?_bindDefaults`: what each of the passes does.
* `Function.bindArguments_eq_ok`: which arguments a function accepts, and what it binds.
* `bindArguments_kind`: arguments that it does not accept are an error of type.
* `call_binds`: the whole of it, with the calls, of functions as definitions make them.
-/

namespace Transcript.Lang

/-! ## Lists of names with values -/

section Lookup

variable {α : Type}

theorem isSome_lookup {k : String} {l : List (String × α)} :
    (Bindings.lookup k l).isSome = true ↔ k ∈ l.map Prod.fst := by
  induction l with
  | nil => simp [Bindings.lookup]
  | cons e l ih =>
    rw [Bindings.lookup, List.map_cons, List.mem_cons]
    split
    · rename_i hk
      simp [hk]
    · rename_i hk
      rw [ih, or_iff_right (Ne.symm hk)]

theorem lookup_eq_none {k : String} {l : List (String × α)} (h : k ∉ l.map Prod.fst) :
    Bindings.lookup k l = none :=
  Option.not_isSome_iff_eq_none.mp fun hsome => h (isSome_lookup.mp hsome)

/-- In a list that names nothing twice, what a name stands for can be looked up. -/
theorem lookup_eq_some {k : String} {v : α} {l : List (String × α)} (hl : (l.map Prod.fst).Nodup) :
    Bindings.lookup k l = some v ↔ (k, v) ∈ l := by
  induction l with
  | nil => simp [Bindings.lookup]
  | cons e l ih =>
    obtain ⟨k', v'⟩ := e
    rw [List.map_cons, List.nodup_cons] at hl
    rw [Bindings.lookup, List.mem_cons]
    split
    · rename_i hk
      subst hk
      have hmem : (k', v) ∉ l := fun h => hl.1 (List.mem_map.mpr ⟨_, h, rfl⟩)
      simp [hmem, eq_comm]
    · rename_i hk
      simp [ih hl.2, Ne.symm hk]

/-- Putting names into bindings that name nothing twice: each stands for what the list says. -/
theorem get?_insertAll_of_nodup {l : List (String × α)} (hl : (l.map Prod.fst).Nodup) (b : Bindings α)
    (k : String) : (b.insertAll l).get? k = (Bindings.lookup k l).or (b.get? k) := by
  induction l generalizing b with
  | nil => rfl
  | cons e l ih =>
    obtain ⟨k', v⟩ := e
    rw [List.map_cons, List.nodup_cons] at hl
    have hrest : (b.insertAll ((k', v) :: l)).get? k = (Bindings.lookup k l).or ((b.insert k' v).get? k) :=
      ih hl.2 _
    rw [hrest, Bindings.lookup]
    split
    · rename_i hk
      subst hk
      rw [lookup_eq_none hl.1, Bindings.get?_insert_self]
      rfl
    · rename_i hk
      rw [Bindings.get?_insert_of_ne b v hk]

/-- Names paired with values, place by place. -/
theorem lookup_zip {names : List String} (hnames : names.Nodup) {i : Nat} {k : String}
    (hk : names[i]? = some k) (l : List α) : Bindings.lookup k (names.zip l) = l[i]? := by
  induction names generalizing i l with
  | nil => cases hk
  | cons n names ih =>
    rw [List.nodup_cons] at hnames
    cases l with
    | nil => rfl
    | cons a l =>
      rw [List.zip_cons_cons, Bindings.lookup]
      cases i with
      | zero =>
        cases hk
        exact if_pos rfl
      | succ i =>
        have hne : n ≠ k := by
          rintro rfl
          exact hnames.1 (List.mem_of_getElem? hk)
        rw [if_neg hne]
        exact ih hnames.2 hk l

theorem lookup_zip_of_not_mem {names : List String} {k : String} (hk : k ∉ names) (l : List α) :
    Bindings.lookup k (names.zip l) = none := by
  refine lookup_eq_none fun h => hk ?_
  obtain ⟨⟨n, a⟩, hmem, rfl⟩ := List.mem_map.mp h
  exact (List.of_mem_zip hmem).1

end Lookup

/-! ## The three passes -/

theorem get?_bindPositional {params : List Param} (hparams : (params.map Param.name).Nodup)
    (args : List Value) (b : Bindings Value) (k : String) :
    (bindPositional b params args).get? k =
      (Bindings.lookup k ((params.map Param.name).zip args)).or (b.get? k) := by
  induction params generalizing args b with
  | nil => rfl
  | cons p params ih =>
    cases args with
    | nil => rfl
    | cons v args =>
      rw [List.map_cons, List.nodup_cons] at hparams
      rw [bindPositional, ih hparams.2, List.map_cons, List.zip_cons_cons, Bindings.lookup]
      split
      · rename_i hk
        subst hk
        rw [lookup_zip_of_not_mem hparams.1, Bindings.get?_insert_self]
        rfl
      · rename_i hk
        rw [Bindings.get?_insert_of_ne b v hk]

/-- **Arguments with names** are accepted if each names a parameter that nothing is bound to yet. -/
theorem bindNamed_eq_ok (function : String) (params : List String) {named : List (String × Value)}
    (hnamed : (named.map Prod.fst).Nodup) (b b' : Bindings Value) :
    bindNamed function params b named = .ok b' ↔
      (∀ k ∈ named.map Prod.fst, k ∈ params ∧ b.contains k = false) ∧ b' = b.insertAll named := by
  induction named generalizing b with
  | nil =>
    constructor
    · rintro ⟨⟩
      exact ⟨by simp, rfl⟩
    · rintro ⟨-, rfl⟩
      rfl
  | cons e named ih =>
    obtain ⟨k, v⟩ := e
    rw [List.map_cons, List.nodup_cons] at hnamed
    rw [bindNamed, List.map_cons, List.forall_mem_cons]
    split
    · rename_i hk
      have hk : k ∉ params := by simpa using hk
      simp [hk]
    · rename_i hk
      have hk : k ∈ params := by simpa using hk
      split
      · rename_i hbound
        simp [hbound]
      · rename_i hfree
        -- The names that come later differ from this one, so binding it does not get in their way.
        have hlater : ∀ n ∈ named.map Prod.fst, (b.insert k v).contains n = b.contains n := by
          intro n hn
          have hne : k ≠ n := fun h => hnamed.1 (h ▸ hn)
          unfold Bindings.contains
          rw [Bindings.get?_insert_of_ne b v hne]
        have hrest : (∀ n ∈ named.map Prod.fst, n ∈ params ∧ (b.insert k v).contains n = false) ↔
            ∀ n ∈ named.map Prod.fst, n ∈ params ∧ b.contains n = false :=
          forall₂_congr fun n hn => by rw [hlater n hn]
        rw [ih hnamed.2, hrest]
        simp [hk, hfree, Bindings.insertAll]

theorem bindNamed_kind {function : String} {params : List String} {b : Bindings Value}
    {named : List (String × Value)} {p : Problem} (h : bindNamed function params b named = .error p) :
    p.kind = .typeError := by
  induction named generalizing b with
  | nil => cases h
  | cons e named ih =>
    obtain ⟨k, v⟩ := e
    rw [bindNamed] at h
    split at h
    · cases h; rfl
    · split at h
      · cases h; rfl
      · exact ih h

theorem get?_bindDefaults {l : List (String × Option Value)} (hl : (l.map Prod.fst).Nodup)
    (b : Bindings Value) (k : String) :
    (bindDefaults b l).1.get? k = (b.get? k).or (Bindings.lookup k l).join := by
  induction l generalizing b with
  | nil => exact (Option.or_none).symm
  | cons e l ih =>
    obtain ⟨k', dflt⟩ := e
    rw [List.map_cons, List.nodup_cons] at hl
    simp only [bindDefaults]
    split
    · rename_i hbound
      rw [ih hl.2, Bindings.lookup]
      split
      · rename_i hk
        subst hk
        obtain ⟨v, hv⟩ := Option.isSome_iff_exists.mp hbound
        rw [hv]
        rfl
      · rfl
    · rename_i hfree
      have hnone : b.get? k' = none := by simpa [Bindings.contains] using hfree
      cases dflt with
      | none =>
        dsimp only
        rw [ih hl.2, Bindings.lookup]
        split
        · rename_i hk
          subst hk
          rw [lookup_eq_none hl.1]
          rfl
        · rfl
      | some v =>
        dsimp only
        rw [ih hl.2, Bindings.lookup]
        split
        · rename_i hk
          subst hk
          rw [Bindings.get?_insert_self, hnone]
          rfl
        · rename_i hk
          rw [Bindings.get?_insert_of_ne b v hk]

/-- **Nothing is missing** if every parameter is bound or has a default. -/
theorem bindDefaults_missing {l : List (String × Option Value)} (hl : (l.map Prod.fst).Nodup)
    (b : Bindings Value) :
    (bindDefaults b l).2 = [] ↔ ∀ e ∈ l, e.2 = none → b.contains e.1 = true := by
  induction l generalizing b with
  | nil => simp [bindDefaults]
  | cons e l ih =>
    obtain ⟨k, dflt⟩ := e
    rw [List.map_cons, List.nodup_cons] at hl
    simp only [bindDefaults, List.forall_mem_cons]
    split
    · rename_i hbound
      simp [ih hl.2, hbound]
    · rename_i hfree
      cases dflt with
      | none => simp [hfree]
      | some v =>
        have hlater : ∀ e ∈ l, (b.insert k v).contains e.1 = b.contains e.1 := by
          intro e he
          have hne : k ≠ e.1 := fun h => hl.1 (List.mem_map.mpr ⟨e, he, h.symm⟩)
          unfold Bindings.contains
          rw [Bindings.get?_insert_of_ne b v hne]
        have hrest : (∀ e ∈ l, e.2 = none → (b.insert k v).contains e.1 = true) ↔
            ∀ e ∈ l, e.2 = none → b.contains e.1 = true :=
          forall₂_congr fun e he => by rw [hlater e he]
        dsimp only
        rw [ih hl.2, hrest]
        simp

/-! ## Arguments that fit -/

namespace Function

/-- The names of the parameters. -/
def names (f : Function) : List String := f.definition.params.map Param.name

/-- **Arguments that a function accepts.** -/
structure Accepts (f : Function) (args : List Value) (named : List (String × Value)) : Prop where
  /-- There are no more arguments without names than parameters. -/
  few : args.length ≤ f.definition.params.length
  /-- Every other argument names a parameter that none of those takes. -/
  known : ∀ k ∈ named.map Prod.fst, ∃ i, args.length ≤ i ∧ f.names[i]? = some k
  /-- Every parameter without default has an argument. -/
  full : ∀ i p, f.definition.params[i]? = some p → p.default = none →
    i < args.length ∨ p.name ∈ named.map Prod.fst

/-- **The names that a call binds:** the parameters and nothing else, each to its argument without name,
else to the one with its name, else to its default. -/
structure Binds (f : Function) (args : List Value) (named : List (String × Value))
    (locals : Bindings Value) : Prop where
  /-- The parameters are bound and nothing else. -/
  names : ∀ k, locals.contains k = true ↔ k ∈ f.names
  /-- Arguments without names, in the order of the parameters. -/
  positional : ∀ (i : Nat) k v, f.names[i]? = some k → args[i]? = some v → locals.get? k = some v
  /-- Arguments with names. -/
  keyword : ∀ (i : Nat) k v, f.names[i]? = some k → args.length ≤ i → (k, v) ∈ named →
    locals.get? k = some v
  /-- Defaults. -/
  dflt : ∀ (i : Nat) k v, f.names[i]? = some k → args.length ≤ i → k ∉ named.map Prod.fst →
    f.defaults[i]? = some (some v) → locals.get? k = some v

/-- What the arguments bind. -/
def given (f : Function) (args : List Value) (named : List (String × Value)) : Bindings Value :=
  (bindPositional .empty f.definition.params args).insertAll named

/-- What the arguments and the defaults bind. -/
def filled (f : Function) (args : List Value) (named : List (String × Value)) : Bindings Value :=
  (bindDefaults (f.given args named) (f.names.zip f.defaults)).1

variable {f : Function} {args : List Value} {named : List (String × Value)} {i : Nat} {k : String}

theorem Made.names_zip (h : f.Made) : (f.names.zip f.defaults).map Prod.fst = f.names := by
  refine List.map_fst_zip (Nat.le_of_eq ?_)
  rw [names, List.length_map]
  exact h.length_eq

theorem Made.nodup_zip (h : f.Made) (hnames : f.names.Nodup) :
    ((f.names.zip f.defaults).map Prod.fst).Nodup := by
  rw [h.names_zip]
  exact hnames

/-- A parameter and its default. -/
theorem Made.default (h : f.Made) {p : Param} (hp : f.definition.params[i]? = some p) :
    ∃ dflt, f.defaults[i]? = some dflt ∧ dflt.isSome = p.default.isSome := by
  obtain ⟨hi, rfl⟩ := List.getElem?_eq_some_iff.mp hp
  have hi' : i < f.defaults.length := h.length_eq ▸ hi
  exact ⟨_, List.getElem?_eq_getElem hi', h.get hi hi'⟩

theorem names_getElem? : f.names[i]? = f.definition.params[i]?.map Param.name := List.getElem?_map

/-- What the first pass binds is an argument without name. -/
theorem get?_first (hnames : f.names.Nodup) (hk : f.names[i]? = some k) :
    (bindPositional .empty f.definition.params args).get? k = args[i]? := by
  rw [get?_bindPositional hnames, Bindings.get?_empty, Option.or_none]
  exact lookup_zip hnames hk args

theorem contains_first (hnames : f.names.Nodup) (hk : f.names[i]? = some k) :
    (bindPositional .empty f.definition.params args).contains k = false ↔ args.length ≤ i := by
  unfold Bindings.contains
  rw [get?_first hnames hk]
  simp

theorem get?_given (hnames : f.names.Nodup) (hnamed : (named.map Prod.fst).Nodup)
    (hk : f.names[i]? = some k) :
    (f.given args named).get? k = (Bindings.lookup k named).or args[i]? := by
  rw [given, get?_insertAll_of_nodup hnamed, get?_first hnames hk]

theorem get?_filled (hf : f.Made) (hnames : f.names.Nodup) (hnamed : (named.map Prod.fst).Nodup)
    (hk : f.names[i]? = some k) :
    (f.filled args named).get? k = ((Bindings.lookup k named).or args[i]?).or f.defaults[i]?.join := by
  rw [filled, get?_bindDefaults (hf.nodup_zip hnames), get?_given hnames hnamed hk, lookup_zip hnames hk]

/-- Nothing but parameters is bound. -/
theorem get?_filled_of_not_mem (hf : f.Made) (hnames : f.names.Nodup) (hnamed : (named.map Prod.fst).Nodup)
    (h : f.Accepts args named) (hk : k ∉ f.names) : (f.filled args named).get? k = none := by
  have hnone : k ∉ named.map Prod.fst := fun hmem => by
    obtain ⟨i, -, hi⟩ := h.known k hmem
    exact hk (List.mem_of_getElem? hi)
  have hfirst : (bindPositional .empty f.definition.params args).get? k = none :=
    by
    rw [get?_bindPositional hnames]
    exact congrArg (·.or none) (lookup_zip_of_not_mem hk args)
  rw [filled, get?_bindDefaults (hf.nodup_zip hnames), given, get?_insertAll_of_nodup hnamed,
    lookup_eq_none hnone, hfirst, lookup_zip_of_not_mem hk]
  rfl

/-- **A parameter has an argument** without name or with its name. -/
theorem contains_given (hnames : f.names.Nodup) (hnamed : (named.map Prod.fst).Nodup)
    (hk : f.names[i]? = some k) :
    (f.given args named).contains k = true ↔ i < args.length ∨ k ∈ named.map Prod.fst := by
  unfold Bindings.contains
  rw [get?_given hnames hnamed hk, Option.isSome_or, Bool.or_eq_true, isSome_lookup, or_comm]
  simp

/-! ## Functions -/

/-- The names of the arguments name free parameters. -/
theorem known_iff (hnames : f.names.Nodup) :
    (∀ k ∈ named.map Prod.fst,
      k ∈ f.names ∧ (bindPositional .empty f.definition.params args).contains k = false) ↔
      ∀ k ∈ named.map Prod.fst, ∃ i, args.length ≤ i ∧ f.names[i]? = some k := by
  refine forall₂_congr fun k _ => ?_
  constructor
  · rintro ⟨hmem, hfree⟩
    obtain ⟨i, hi⟩ := List.getElem?_of_mem hmem
    exact ⟨i, (contains_first hnames hi).mp hfree, hi⟩
  · rintro ⟨i, hle, hi⟩
    exact ⟨List.mem_of_getElem? hi, (contains_first hnames hi).mpr hle⟩

/-- Nothing is missing. -/
theorem missing_iff (hf : f.Made) (hnames : f.names.Nodup) (hnamed : (named.map Prod.fst).Nodup) :
    (bindDefaults (f.given args named) (f.names.zip f.defaults)).2 = [] ↔
      ∀ i p, f.definition.params[i]? = some p → p.default = none →
        i < args.length ∨ p.name ∈ named.map Prod.fst := by
  rw [bindDefaults_missing (hf.nodup_zip hnames)]
  constructor
  · intro h i p hp hnone
    have hk : f.names[i]? = some p.name := by rw [names_getElem?, hp]; rfl
    obtain ⟨dflt, hdflt, hsome⟩ := hf.default hp
    rw [hnone] at hsome
    have hmem : (p.name, dflt) ∈ f.names.zip f.defaults :=
      List.mem_of_getElem? (List.getElem?_zip_eq_some.mpr ⟨hk, hdflt⟩)
    exact (contains_given hnames hnamed hk).mp (h _ hmem (by simpa using hsome))
  · intro h e hmem hnone
    obtain ⟨i, hi⟩ := List.getElem?_of_mem hmem
    obtain ⟨hk, hdflt⟩ := List.getElem?_zip_eq_some.mp hi
    have hparam := hk
    rw [names_getElem?] at hparam
    obtain ⟨p, hp, hname⟩ := Option.map_eq_some_iff.mp hparam
    obtain ⟨dflt, hdflt', hsome⟩ := hf.default hp
    rw [hdflt, Option.some_inj] at hdflt'
    have hnone : p.default = none := by simpa [← hdflt', hnone] using hsome.symm
    rw [← hname] at hk ⊢
    exact (contains_given hnames hnamed hk).mpr (h i p hp hnone)

/-- **Which arguments a function accepts,** and what they bind. -/
theorem bindArguments_eq_ok (hf : f.Made) (hnames : f.names.Nodup) (hnamed : (named.map Prod.fst).Nodup)
    (locals : Bindings Value) :
    bindArguments f args named = .ok locals ↔ f.Accepts args named ∧ locals = f.filled args named := by
  unfold bindArguments
  dsimp only
  split
  · rename_i hmany
    constructor
    · rintro ⟨⟩
    · rintro ⟨h, -⟩
      exact absurd h.few (Nat.not_le.mpr hmany)
  · rename_i hfew
    have hfew := Nat.not_lt.mp hfew
    simp only [Except.bind_eq_ok, bindNamed_eq_ok _ _ hnamed]
    change (∃ b, ((∀ k ∈ named.map Prod.fst, k ∈ f.names ∧ _) ∧ b = f.given args named) ∧ _) ↔ _
    rw [known_iff hnames]
    constructor
    · rintro ⟨b, ⟨hknown, rfl⟩, h⟩
      split at h
      · rename_i hmissing
        cases h
        exact ⟨⟨hfew, hknown, (missing_iff hf hnames hnamed).mp (List.isEmpty_iff.mp hmissing)⟩, rfl⟩
      · cases h
    · rintro ⟨h, rfl⟩
      refine ⟨_, ⟨h.known, rfl⟩, ?_⟩
      have hmissing := (missing_iff hf hnames hnamed).mpr h.full
      change (if (bindDefaults (f.given args named) (f.names.zip f.defaults)).2.isEmpty then _ else _) = _
      rw [hmissing]
      rfl

/-- What accepted arguments bind. -/
theorem Accepts.binds (hf : f.Made) (hnames : f.names.Nodup) (hnamed : (named.map Prod.fst).Nodup)
    (h : f.Accepts args named) : f.Binds args named (f.filled args named) where
  names := by
    intro k
    constructor
    · intro hbound
      by_contra hk
      unfold Bindings.contains at hbound
      rw [get?_filled_of_not_mem hf hnames hnamed h hk] at hbound
      cases hbound
    · intro hmem
      obtain ⟨i, hk⟩ := List.getElem?_of_mem hmem
      have hparam := hk
      rw [names_getElem?] at hparam
      obtain ⟨p, hp, rfl⟩ := Option.map_eq_some_iff.mp hparam
      obtain ⟨dflt, hdflt, hsome⟩ := hf.default hp
      unfold Bindings.contains
      rw [get?_filled hf hnames hnamed hk, Option.isSome_or, Bool.or_eq_true, hdflt]
      cases hd : p.default with
      | some e =>
        rw [hd] at hsome
        obtain ⟨v, rfl⟩ := Option.isSome_iff_exists.mp hsome
        exact .inr rfl
      | none =>
        left
        rw [← get?_given hnames hnamed hk]
        exact (contains_given hnames hnamed hk).mpr (h.full i p hp hd)
  positional := by
    intro i k v hk hv
    -- The names of arguments belong to later parameters.
    have hnone : k ∉ named.map Prod.fst := fun hmem => by
      obtain ⟨j, hj, hkj⟩ := h.known k hmem
      have hij : i = j := (List.getElem?_inj (List.getElem?_eq_some_iff.mp hk).1 hnames).mp (hk.trans hkj.symm)
      have hi : i < args.length := (List.getElem?_eq_some_iff.mp hv).1
      omega
    rw [get?_filled hf hnames hnamed hk, lookup_eq_none hnone, hv]
    rfl
  keyword := by
    intro i k v hk hi hmem
    rw [get?_filled hf hnames hnamed hk, (lookup_eq_some hnamed).mpr hmem]
    rfl
  dflt := by
    intro i k v hk hi hnone hdflt
    rw [get?_filled hf hnames hnamed hk, lookup_eq_none hnone, List.getElem?_eq_none hi, hdflt]
    rfl

end Function

/-- **Arguments that are not accepted** are an error of type. -/
theorem bindArguments_kind {f : Function} {args : List Value} {named : List (String × Value)} {p : Problem}
    (h : bindArguments f args named = .error p) : p.kind = .typeError := by
  unfold bindArguments at h
  dsimp only at h
  split at h
  · cases h
    rfl
  · rcases Except.bind_eq_error.mp h with h | ⟨b, -, h⟩
    · exact bindNamed_kind h
    · split at h
      · cases h
      · cases h
        rfl

/-! ## Calls -/

section

variable (watch : Watch)

/-- Calls bind the arguments before anything else. -/
theorem call_function (fuel : Nat) {f : Function} {r : Ref} {w : World} (hr : w.functions[r]? = some f)
    (args : List Value) (named : List (String × Value)) :
    call watch (fuel + 1) (.function r) args named w =
      match bindArguments f args named with
      | .ok locals =>
        (if f.definition.isAsync then Eval.ofOp (Op.newCoroutine f.definition.name (.call f locals))
          else runFunction watch fuel f locals) w
      | .error p => .done (.error (p.raised w.identities)) { w with identities := w.identities + 1 } := by
  let rest (f : Function) (locals : Bindings Value) : Eval Value :=
    if f.definition.isAsync then Eval.ofOp (Op.newCoroutine f.definition.name (.call f locals))
    else runFunction watch fuel f locals
  have hcall : call watch (fuel + 1) (.function r) args named =
      (do
        let f ← Eval.ofOp (functionAt r)
        let locals ← Eval.ofOp (Op.ofExcept (bindArguments f args named))
        rest f locals) := rfl
  have hat : functionAt r w = .ok (f, w) := by
    change Except.ok ((w.functions[r]?).getD default, w) = _
    rw [hr]
    rfl
  rw [hcall]
  change ((Eval.ofOp (functionAt r) >>= _ : Eval Value)).run w = _
  rw [Eval.bind_of_ok (Eval.ofOp_ok hat)]
  cases hb : bindArguments f args named with
  | ok locals => exact Eval.bind_of_ok (Eval.ofOp_ok (x := Op.ofExcept _) rfl)
  | error p =>
    have hp : p ≠ .endless := by
      rintro rfl
      cases bindArguments_kind hb
    exact Eval.bind_of_error (Eval.ofOp_error (x := Op.ofExcept _) rfl hp)

theorem kind_raised {p : Problem} (h : p.kind = .typeError) (identity : Nat) :
    (p.raised identity).kind = .typeError := by
  cases p <;> first | rfl | cases h

/-- **Arguments bind the parameters as a reader expects.** A function accepts them if and only if there are
no more without names than parameters, each of the others names a parameter that none of those takes, and
every parameter without default gets one. Then the parameters are bound and nothing else, and the body runs
with that, or a coroutine keeps it. If not, the call is an error of type and nothing of the body runs: all that
happens is that the message of the error is made. -/
theorem call_binds {f : Function} (hf : f.Made) (hnames : f.names.Nodup) (args : List Value)
    {named : List (String × Value)} (hnamed : (named.map Prod.fst).Nodup) :
    ((∃ locals, bindArguments f args named = .ok locals) ↔ f.Accepts args named) ∧
      (∀ locals, bindArguments f args named = .ok locals → f.Binds args named locals) ∧
      (∀ p, bindArguments f args named = .error p → p.kind = .typeError) ∧
      ∀ (fuel : Nat) {r : Ref} {w : World}, w.functions[r]? = some f →
        (f.Accepts args named → ∃ locals, f.Binds args named locals ∧
          call watch (fuel + 1) (.function r) args named w =
            (if f.definition.isAsync then Eval.ofOp (Op.newCoroutine f.definition.name (.call f locals))
              else runFunction watch fuel f locals) w) ∧
        (¬f.Accepts args named → ∃ e : Raised, e.kind = .typeError ∧
          call watch (fuel + 1) (.function r) args named w =
            .done (.error e) { w with identities := w.identities + 1 }) := by
  have hiff (locals : Bindings Value) : bindArguments f args named = .ok locals ↔
      f.Accepts args named ∧ locals = f.filled args named :=
    Function.bindArguments_eq_ok hf hnames hnamed locals
  refine ⟨⟨fun ⟨locals, h⟩ => ((hiff locals).mp h).1, fun h => ⟨_, (hiff _).mpr ⟨h, rfl⟩⟩⟩, fun locals h => ?_,
    fun p => bindArguments_kind, fun fuel r w hr => ⟨fun h => ?_, fun h => ?_⟩⟩
  · obtain ⟨haccepts, rfl⟩ := (hiff locals).mp h
    exact haccepts.binds hf hnames hnamed
  · refine ⟨_, h.binds hf hnames hnamed, ?_⟩
    rw [call_function watch fuel hr, (hiff _).mpr ⟨h, rfl⟩]
  · cases hb : bindArguments f args named with
    | ok locals => exact absurd ((hiff locals).mp hb).1 h
    | error p =>
      refine ⟨_, kind_raised (bindArguments_kind hb) w.identities, ?_⟩
      rw [call_function watch fuel hr, hb]

end

/-- A source that defines a function with a default. With a width and a named height the body runs; without a
width nothing of it does. -/
theorem call_binds_area : ∃ code o w f,
    compile "def area(width, height=2): return width\n".toList "<test>" .exec false = .ok code ∧
    evaluate code 0 (World.empty.newSpace .empty).2 = some (o, w) ∧ w.functions[0]? = some f ∧
    f.Made ∧ f.names = ["width", "height"] ∧
      (∃ locals, f.Binds [.int 5] [("height", .int 7)] locals ∧
        call plainly 9 (.function 0) [.int 5] [("height", .int 7)] w = runFunction plainly 8 f locals w) ∧
      ∃ e : Raised, e.kind = .typeError ∧
        call plainly 9 (.function 0) [] [("height", .int 7)] w =
          .done (.error e) { w with identities := w.identities + 1 } := by
  have hfacts : (compile "def area(width, height=2): return width\n".toList "<test>" .exec
      false).toOption.any (fun code => (evaluate code 0 (World.empty.newSpace .empty).2).any fun r =>
        r.2.functions[0]?.any fun f => !f.definition.isAsync &&
          f.definition.params.map (fun p => (p.name, p.default.isSome)) == [("width", false), ("height", true)]) =
      true := by
    decide +kernel
  obtain ⟨code, hcode, hfacts⟩ := (Option.any_eq_true _ _).mp hfacts
  obtain ⟨⟨o, w⟩, ho, hfacts⟩ := (Option.any_eq_true _ _).mp hfacts
  obtain ⟨f, hf, hfacts⟩ := (Option.any_eq_true _ _).mp hfacts
  rw [Bool.and_eq_true, Bool.not_eq_true', beq_iff_eq] at hfacts
  obtain ⟨hsync, hparams⟩ := hfacts
  have hcode : compile "def area(width, height=2): return width\n".toList "<test>" .exec false = .ok code :=
    Except.toOption_eq_some.mp hcode
  have hstart : (World.empty.newSpace .empty).2.ComesAbout := .other .empty rfl
  have hmade : f.Made := (evaluate_comesAbout hcode hstart ho).made hf
  -- The function has two parameters, and the second has a default.
  simp only [List.map_eq_cons_iff, List.map_eq_nil_iff, Prod.mk.injEq] at hparams
  obtain ⟨p, _, hps, ⟨hp, hnone⟩, q, _, rfl, ⟨hq, hsome⟩, rfl⟩ := hparams
  have hnames : f.names = ["width", "height"] := by
    rw [Function.names, hps, List.map_cons, List.map_singleton, hp, hq]
  have hnodup : f.names.Nodup := by
    rw [hnames]
    decide
  have hnamed : ([("height", Value.int 7)].map Prod.fst).Nodup := by simp
  refine ⟨code, o, w, f, hcode, ho, hf, hmade, hnames, ?_, ?_⟩
  · obtain ⟨-, -, -, hcall⟩ := call_binds plainly hmade hnodup [.int 5] hnamed
    have haccepts : f.Accepts [.int 5] [("height", .int 7)] := by
      refine ⟨by simp [hps], ?_, ?_⟩
      · rintro k hk
        cases List.mem_singleton.mp hk
        exact ⟨1, Nat.le_refl 1, by rw [hnames]; rfl⟩
      · rw [hps]
        rintro (_ | _ | _) r hr hrnone
        · exact .inl Nat.zero_lt_one
        · cases hr
          simp [hrnone] at hsome
        · cases hr
    simpa [hsync] using (hcall 8 hf).1 haccepts
  · obtain ⟨-, -, -, hcall⟩ := call_binds plainly hmade hnodup [] hnamed
    refine (hcall 8 hf).2 fun h => ?_
    have hwidth := h.full 0 p (by rw [hps]; rfl) (by simpa using hnone)
    simp [hp] at hwidth

end Transcript.Lang
