import Transcript.Lang.Eval
import Transcript.Proofs.Lang.Equality

/-!
# Dictionaries

A dictionary is a list of entries. Storing, deleting and looking up go through it and compare keys. Where the keys
are nothing, truth values, integers, texts, bytes, ranges and tuples of such, two of them are equal if they are the
same key, in every world, so what is found does not depend on anything else. The story of a dictionary is what is
stored under its keys and deleted from them, from its literal on. It leaves the entries that a map has which keeps
the order of insertion.

Results:
* `World.equalValue_keys`: when keys are equal.
* `putEntry_keyed`, `dropKey_keyed`, `lookupKey_keyed`: what the operations on entries do.
* `LeftBy.stored`, `LeftBy.deleted`: what one event adds to what a history leaves.
* `Story.leftBy`: the entries of a dictionary are left by its story.
* `Op.SparesDicts.augmented`: the operators of augmented assignments leave dictionaries alone.
* `dictionary_serves`: the statements and expressions of programs.
-/

namespace Transcript.Lang

/-! ## Keys -/

/-- **What a key is,** however it is spelled: truth values count as numbers, and it does not matter which
object a text or a tuple is. -/
inductive Key
  | nothing
  | number (n : Int64)
  | text (s : List Char)
  | bytes (b : List UInt8)
  | range (start stop step : Int64)
  | tuple (items : List Key)

namespace Key

mutual

/-- Whether two keys are the same. -/
def decEq : (a b : Key) → Decidable (a = b)
  | .nothing, .nothing => isTrue rfl
  | .number m, .number n => decidable_of_iff (m = n) (Key.number.injEq m n ▸ Iff.rfl)
  | .text s, .text t => decidable_of_iff (s = t) (Key.text.injEq s t ▸ Iff.rfl)
  | .bytes s, .bytes t => decidable_of_iff (s = t) (Key.bytes.injEq s t ▸ Iff.rfl)
  | .range a b c, .range a' b' c' =>
    decidable_of_iff (a = a' ∧ b = b' ∧ c = c') (Key.range.injEq a b c a' b' c' ▸ Iff.rfl)
  | .tuple xs, .tuple ys =>
    match decEqs xs ys with
    | isTrue h => isTrue (congrArg Key.tuple h)
    | isFalse h => isFalse fun heq => h (Key.tuple.inj heq)
  | .nothing, .number _ | .nothing, .text _ | .nothing, .bytes _ | .nothing, .range .. | .nothing, .tuple _
  | .number _, .nothing | .number _, .text _ | .number _, .bytes _ | .number _, .range .. | .number _, .tuple _
  | .text _, .nothing | .text _, .number _ | .text _, .bytes _ | .text _, .range .. | .text _, .tuple _
  | .bytes _, .nothing | .bytes _, .number _ | .bytes _, .text _ | .bytes _, .range .. | .bytes _, .tuple _
  | .range .., .nothing | .range .., .number _ | .range .., .text _ | .range .., .bytes _
  | .range .., .tuple _
  | .tuple _, .nothing | .tuple _, .number _ | .tuple _, .text _ | .tuple _, .bytes _
  | .tuple _, .range .. => isFalse nofun

/-- Whether two lists of keys are the same. -/
def decEqs : (as bs : List Key) → Decidable (as = bs)
  | [], [] => isTrue rfl
  | [], _ :: _ | _ :: _, [] => isFalse nofun
  | a :: as, b :: bs =>
    match decEq a b, decEqs as bs with
    | isTrue h, isTrue h' => isTrue (h ▸ h' ▸ rfl)
    | isFalse h, _ => isFalse fun heq => h (List.cons.inj heq).1
    | _, isFalse h => isFalse fun heq => h (List.cons.inj heq).2

end

instance : DecidableEq Key := decEq

end Key

namespace Value

mutual

/-- The key that a value spells. -/
def key : Value → Key
  | .bool b => .number (if b then 1 else 0)
  | .int n => .number n
  | .str _ s => .text s
  | .bytes b => .bytes b
  | .range start stop step => .range start stop step
  | .tuple _ items => .tuple (keys items)
  | _ => .nothing

/-- The keys that values spell. -/
def keys : List Value → List Key
  | [] => []
  | v :: vs => v.key :: keys vs

end

mutual

/-- **Whether a value spells a key:** nothing, truth values, integers, texts, bytes, ranges and tuples of
such do. -/
def isKey : Value → Bool
  | .none | .bool _ | .int _ | .str .. | .bytes _ | .range .. => true
  | .tuple _ items => areKeys items
  | _ => false

/-- Whether all values of a list spell keys. -/
def areKeys : List Value → Bool
  | [] => true
  | v :: vs => v.isKey && areKeys vs

end

theorem areKeys_iff {vs : List Value} : areKeys vs = true ↔ ∀ v ∈ vs, v.isKey = true := by
  induction vs with
  | nil => simp [areKeys]
  | cons v vs ih => rw [areKeys, Bool.and_eq_true, ih, List.forall_mem_cons]

theorem length_eq_of_keys {xs ys : List Value} (h : keys xs = keys ys) : xs.length = ys.length := by
  have hlength (vs : List Value) : (keys vs).length = vs.length := by
    induction vs with
    | nil => rfl
    | cons v vs ih => exact congrArg (· + 1) ih
  rw [← hlength xs, h, hlength]

end Value

/-- Whether lists of values spell the same keys is found one by one. -/
theorem allPairs?_keys {test : Value → Value → Option Bool} {xs ys : List Value}
    (h : ∀ x ∈ xs, ∀ y ∈ ys, test x y = some (decide (x.key = y.key))) :
    allPairs? test xs ys = some (decide (Value.keys xs = Value.keys ys)) := by
  induction xs generalizing ys with
  | nil => cases ys <;> rfl
  | cons x xs ih =>
    cases ys with
    | nil => rfl
    | cons y ys =>
      rw [allPairs?, h x List.mem_cons_self y List.mem_cons_self]
      by_cases hxy : x.key = y.key
      · have hrest := ih fun x' hx' y' hy' => h x' (List.mem_cons_of_mem x hx') y' (List.mem_cons_of_mem y hy')
        simpa [Value.keys, hxy] using hrest
      · simp [Value.keys, hxy]

/-- Keys are equal, with enough levels for them, if they are the same. -/
theorem equal?_keys {n : Nat} (w : World) {a b : Value} (ha : a.isKey = true) (hb : b.isKey = true)
    (hn : a.depth ≤ n) : Lang.equal? n w a b = some (decide (a.key = b.key)) := by
  induction n generalizing a b with
  | zero => exact absurd a.depth_pos (Nat.not_lt.mpr hn)
  | succ n ih =>
    unfold Lang.equal?
    cases a
    case tuple i xs =>
      cases b
      case tuple j ys =>
        have hxs := Value.areKeys_iff.mp ha
        have hys := Value.areKeys_iff.mp hb
        have hdepth : ∀ x ∈ xs, x.depth ≤ n := fun x hx =>
          Nat.le_trans (Value.depth_le_depths hx) (Nat.le_of_succ_le_succ hn)
        have hpairs := allPairs?_keys fun x hx y hy => ih (hxs x hx) (hys y hy) (hdepth x hx)
        dsimp only
        unfold equal?.equalItems
        simp only [Bool.false_eq_true, if_false, Value.key, Key.tuple.injEq]
        split
        · rename_i hlength
          have hne : Value.keys xs ≠ Value.keys ys := fun h => hlength (Value.length_eq_of_keys h)
          simp [hne]
        · exact hpairs
      all_goals first
        | exact absurd hb Bool.false_ne_true
        | simp [Value.key, equalNumbers, Value.asInt?, Value.asFloat?]
    -- The other keys have no items: whether they are equal is found at once.
    all_goals first
      | exact absurd ha Bool.false_ne_true
      | cases b <;> first
        | exact absurd hb Bool.false_ne_true
        | simp [Value.key, equalNumbers, Value.asInt?, Value.asFloat?, beq_eq_decide, Bool.and_assoc]

/-- **Keys are equal if they are the same,** in every world. -/
theorem World.equalValue_keys (w : World) {a b : Value} (ha : a.isKey = true) (hb : b.isKey = true) :
    w.equal? a b = some (decide (a.key = b.key)) :=
  World.equalValue_eq_some.mpr ⟨a.depth, equal?_keys w ha hb (Nat.le_refl _)⟩

theorem equal_keys (w : World) {a b : Value} (ha : a.isKey = true) (hb : b.isKey = true) :
    equal a b w = .ok (decide (a.key = b.key), w) :=
  equal_eq_ok.mpr ⟨w.equalValue_keys ha hb, rfl⟩

/-! ## Entries -/

/-- The entries of a dictionary. -/
abbrev Entries := List (Value × Value)

namespace Entries

/-- Whether everything is stored under a key. -/
def AreKeyed (es : Entries) : Prop := ∀ e ∈ es, e.1.isKey = true

/-- The value under a key. -/
def valueOf (κ : Key) : Entries → Option Value
  | [] => none
  | e :: es => if e.1.key = κ then some e.2 else valueOf κ es

/-- The entries with a value put under a key. -/
def put (k v : Value) : Entries → Entries
  | [] => [(k, v)]
  | e :: es => if e.1.key = k.key then (e.1, v) :: es else e :: put k v es

/-- The entries without a key. -/
def without (κ : Key) (es : Entries) : Entries := es.filter fun e => !decide (e.1.key = κ)

variable {es : Entries} {k v : Value} {κ : Key}

theorem without_cons (e : Value × Value) (es : Entries) :
    without κ (e :: es) = if e.1.key = κ then without κ es else e :: without κ es := by
  unfold without
  by_cases h : e.1.key = κ
  · simp [h]
  · simp [h]

theorem valueOf_eq_none : valueOf κ es = none ↔ ∀ e ∈ es, e.1.key ≠ κ := by
  induction es with
  | nil => simp [valueOf]
  | cons e es ih =>
    unfold valueOf
    rw [List.forall_mem_cons]
    split
    · rename_i h
      simp [h]
    · rename_i h
      simp [h, ih]

theorem valueOf_put_self (k v : Value) (es : Entries) : valueOf k.key (put k v es) = some v := by
  induction es with
  | nil => simp [put, valueOf]
  | cons e es ih =>
    unfold put
    split
    · rename_i h
      simp [valueOf, h]
    · rename_i h
      simp [valueOf, h, ih]

theorem valueOf_put_of_ne (h : k.key ≠ κ) (v : Value) (es : Entries) :
    valueOf κ (put k v es) = valueOf κ es := by
  induction es with
  | nil => simp [put, valueOf, h]
  | cons e es ih =>
    unfold put
    split
    · rename_i he
      rw [← he] at h
      simp [valueOf, h]
    · simp [valueOf, ih]

theorem valueOf_without_self (κ : Key) (es : Entries) : valueOf κ (without κ es) = none := by
  refine valueOf_eq_none.mpr fun e he => ?_
  have hkept := (List.mem_filter.mp he).2
  simpa using hkept

theorem valueOf_without_of_ne {κ' : Key} (h : κ ≠ κ') (es : Entries) :
    valueOf κ' (without κ es) = valueOf κ' es := by
  induction es with
  | nil => rfl
  | cons e es ih =>
    rw [without_cons]
    split
    · rename_i he
      have hne : e.1.key ≠ κ' := fun heq => h (he.symm.trans heq)
      rw [ih, valueOf, if_neg hne]
    · rw [valueOf, valueOf, ih]

/-- A key that is not there comes last. -/
theorem put_of_none (h : valueOf k.key es = none) : put k v es = es ++ [(k, v)] := by
  induction es with
  | nil => rfl
  | cons e es ih =>
    obtain ⟨he, hes⟩ := List.forall_mem_cons.mp (valueOf_eq_none.mp h)
    rw [put, if_neg he, ih (valueOf_eq_none.mpr hes)]
    rfl

/-- A key that is there keeps its place and its spelling. -/
theorem put_of_ne_none (h : valueOf k.key es ≠ none) : (put k v es).map Prod.fst = es.map Prod.fst := by
  induction es with
  | nil => exact absurd rfl h
  | cons e es ih =>
    unfold put
    split
    · rfl
    · rename_i he
      rw [valueOf, if_neg he] at h
      exact congrArg (e.1 :: ·) (ih h)

/-- Taking away a key that is not there changes nothing. -/
theorem length_without : (without κ es).length = es.length ↔ valueOf κ es = none := by
  rw [valueOf_eq_none, without, List.length_filter_eq_length_iff]
  simp

theorem AreKeyed.put (h : AreKeyed es) (hk : k.isKey = true) : AreKeyed (put k v es) := by
  induction es with
  | nil => exact List.forall_mem_singleton.mpr hk
  | cons e es ih =>
    obtain ⟨he, hes⟩ := List.forall_mem_cons.mp h
    unfold Entries.put
    split
    · exact List.forall_mem_cons.mpr ⟨he, hes⟩
    · exact List.forall_mem_cons.mpr ⟨he, ih hes⟩

theorem AreKeyed.without (h : AreKeyed es) : AreKeyed (without κ es) :=
  fun e he => h e (List.mem_of_mem_filter he)

end Entries

open Entries

section Operations

variable {es : Entries} {k : Value} (w : World)

/-- Looking up finds what is under the key. -/
theorem lookupKey_keyed (hes : AreKeyed es) (hk : k.isKey = true) :
    lookupKey k es w = .ok (valueOf k.key es, w) := by
  induction es with
  | nil => rfl
  | cons e es ih =>
    obtain ⟨he, hes⟩ := List.forall_mem_cons.mp hes
    rw [lookupKey, op_bind (equal_keys w he hk), valueOf]
    by_cases h : e.1.key = k.key
    · rw [if_pos (decide_eq_true h), if_pos h]
      rfl
    · rw [if_neg (by simpa using h), if_neg h]
      exact ih hes

theorem putEntry_keyed (hes : AreKeyed es) (hk : k.isKey = true) (v : Value) :
    putEntry k v es w = .ok (put k v es, w) := by
  induction es with
  | nil => rfl
  | cons e es ih =>
    obtain ⟨he, hes⟩ := List.forall_mem_cons.mp hes
    rw [putEntry, op_bind (equal_keys w he hk), put]
    by_cases h : e.1.key = k.key
    · rw [if_pos (decide_eq_true h), if_pos h]
      rfl
    · rw [if_neg (by simpa using h), if_neg h, op_bind (ih hes)]
      rfl

theorem dropKey_keyed (hes : AreKeyed es) (hk : k.isKey = true) :
    dropKey k es w = .ok (without k.key es, w) := by
  induction es with
  | nil => rfl
  | cons e es ih =>
    obtain ⟨he, hes⟩ := List.forall_mem_cons.mp hes
    rw [dropKey, op_bind (equal_keys w he hk), op_bind (ih hes), without_cons]
    by_cases h : e.1.key = k.key
    · rw [if_pos (decide_eq_true h), if_pos h]
      rfl
    · rw [if_neg (by simpa using h), if_neg h]
      rfl

theorem anyEqual_keyed (hes : AreKeyed es) (hk : k.isKey = true) :
    anyEqual k (es.map Prod.fst) w = .ok ((valueOf k.key es).isSome, w) := by
  induction es with
  | nil => rfl
  | cons e es ih =>
    obtain ⟨he, hes⟩ := List.forall_mem_cons.mp hes
    rw [List.map_cons, anyEqual, op_bind (equal_keys w he hk), valueOf]
    by_cases h : e.1.key = k.key
    · rw [if_pos (decide_eq_true h), if_pos h]
      rfl
    · rw [if_neg (by simpa using h), if_neg h]
      exact ih hes

end Operations

/-! ## Histories -/

/-- **What is done to a dictionary.** -/
inductive DictEvent
  /-- A value is stored under a key. -/
  | stored (key value : Value)
  /-- A key is deleted. -/
  | deleted (key : Value)

/-- **The value last stored under a key** that is not deleted since; the latest event comes first. -/
def lastStored (κ : Key) : List DictEvent → Option Value
  | [] => none
  | .stored k v :: past => if k.key = κ then some v else lastStored κ past
  | .deleted k :: past => if k.key = κ then none else lastStored κ past

/-- **A key was first stored after so many events,** spelled like this: it was not there then, and it has not
been deleted since. -/
def InsertedAt (history : List DictEvent) (k : Value) (n : Nat) : Prop :=
  ∃ since v past, history = since ++ .stored k v :: past ∧ past.length = n ∧
    lastStored k.key past = none ∧ ∀ k', .deleted k' ∈ since → k'.key ≠ k.key

/-- **Entries that a history leaves.** -/
structure LeftBy (history : List DictEvent) (es : Entries) : Prop where
  /-- Everything is stored under a key. -/
  keyed : AreKeyed es
  /-- No two keys are the same. -/
  distinct : es.Pairwise fun e e' => e.1.key ≠ e'.1.key
  /-- Under every key is the value that was last stored there. -/
  values : ∀ κ, valueOf κ es = lastStored κ history
  /-- Every key is spelled as it was when it was first stored since it was last deleted. -/
  spelled : ∀ e ∈ es, ∃ n, InsertedAt history e.1 n
  /-- The keys are in the order in which that happened. -/
  ordered : es.Pairwise fun e e' => ∃ m n, InsertedAt history e.1 m ∧ InsertedAt history e'.1 n ∧ m < n

theorem leftBy_nil : LeftBy [] [] :=
  ⟨List.forall_mem_nil _, .nil, fun _ => rfl, List.forall_mem_nil _, .nil⟩

section History

variable {past : List DictEvent} {k v k' : Value} {n : Nat}

theorem InsertedAt.stored (h : InsertedAt past k n) (k' v' : Value) :
    InsertedAt (.stored k' v' :: past) k n := by
  obtain ⟨since, v, before, rfl, hn, hnone, hsince⟩ := h
  refine ⟨.stored k' v' :: since, v, before, rfl, hn, hnone, fun k'' hmem => ?_⟩
  rcases List.mem_cons.mp hmem with h | h
  · cases h
  · exact hsince k'' h

theorem InsertedAt.deleted (h : InsertedAt past k n) (hne : k'.key ≠ k.key) :
    InsertedAt (.deleted k' :: past) k n := by
  obtain ⟨since, v, before, rfl, hn, hnone, hsince⟩ := h
  refine ⟨.deleted k' :: since, v, before, rfl, hn, hnone, fun k'' hmem => ?_⟩
  rcases List.mem_cons.mp hmem with h | h
  · cases h
    exact hne
  · exact hsince k'' h

theorem InsertedAt.lt (h : InsertedAt past k n) : n < past.length := by
  obtain ⟨since, v, before, rfl, rfl, -, -⟩ := h
  simp
  omega

theorem insertedAt_new (h : lastStored k.key past = none) : InsertedAt (.stored k v :: past) k past.length :=
  ⟨[], v, past, rfl, rfl, h, fun _ hmem => nomatch hmem⟩

variable {es : Entries}

/-- **Storing** adds to what a history leaves. -/
theorem LeftBy.stored (h : LeftBy past es) (hk : k.isKey = true) (v : Value) :
    LeftBy (.stored k v :: past) (put k v es) := by
  have hvalues (κ : Key) : valueOf κ (put k v es) = lastStored κ (.stored k v :: past) := by
    rw [lastStored]
    split
    · rename_i hκ
      subst hκ
      exact valueOf_put_self k v es
    · rename_i hκ
      rw [valueOf_put_of_ne hκ, h.values]
  cases hfound : valueOf k.key es with
  | none =>
    have habsent := valueOf_eq_none.mp hfound
    have hnew : InsertedAt (.stored k v :: past) k past.length := insertedAt_new (h.values k.key ▸ hfound)
    refine ⟨h.keyed.put hk, ?_, hvalues, ?_, ?_⟩
    all_goals rw [put_of_none hfound]
    · exact List.pairwise_append.mpr ⟨h.distinct, List.pairwise_singleton _ _, fun e he e' he' =>
        List.mem_singleton.mp he' ▸ habsent e he⟩
    · intro e he
      rcases List.mem_append.mp he with he | he
      · obtain ⟨n, hn⟩ := h.spelled e he
        exact ⟨n, hn.stored k v⟩
      · cases List.mem_singleton.mp he
        exact ⟨_, hnew⟩
    · refine List.pairwise_append.mpr ⟨?_, List.pairwise_singleton _ _, fun e he e' he' => ?_⟩
      · exact h.ordered.imp fun ⟨m, n, hm, hn, hlt⟩ => ⟨m, n, hm.stored k v, hn.stored k v, hlt⟩
      · cases List.mem_singleton.mp he'
        obtain ⟨m, hm⟩ := h.spelled e he
        exact ⟨m, past.length, hm.stored k v, hnew, hm.lt⟩
  | some u =>
    -- Only the keys count for what is left to show, and they have not changed.
    have hmap : (put k v es).map Prod.fst = es.map Prod.fst := put_of_ne_none (by rw [hfound]; exact nofun)
    have hpairwise {R : Value → Value → Prop} (hR : es.Pairwise fun e e' => R e.1 e'.1) :
        (put k v es).Pairwise fun e e' => R e.1 e'.1 := by
      rw [← List.pairwise_map (f := Prod.fst)] at hR ⊢
      exact hmap ▸ hR
    refine ⟨h.keyed.put hk, hpairwise (R := fun a b => a.key ≠ b.key) h.distinct, hvalues, fun e he => ?_,
      hpairwise (R := fun a b => ∃ m n, InsertedAt _ a m ∧ InsertedAt _ b n ∧ m < n) ?_⟩
    · have hmem : e.1 ∈ es.map Prod.fst := hmap ▸ List.mem_map_of_mem he
      obtain ⟨e', he', heq⟩ := List.mem_map.mp hmem
      obtain ⟨n, hn⟩ := h.spelled e' he'
      exact ⟨n, heq ▸ hn.stored k v⟩
    · exact h.ordered.imp fun ⟨m, n, hm, hn, hlt⟩ => ⟨m, n, hm.stored k v, hn.stored k v, hlt⟩

/-- **Deleting** takes away from what a history leaves. -/
theorem LeftBy.deleted (h : LeftBy past es) (k : Value) :
    LeftBy (.deleted k :: past) (without k.key es) := by
  have hkept {e : Value × Value} (he : e ∈ without k.key es) : k.key ≠ e.1.key := fun heq =>
    valueOf_eq_none.mp (valueOf_without_self k.key es) e he heq.symm
  refine ⟨h.keyed.without, h.distinct.filter _, fun κ => ?_, fun e he => ?_, ?_⟩
  · rw [lastStored]
    split
    · rename_i hκ
      subst hκ
      exact valueOf_without_self k.key es
    · rename_i hκ
      rw [valueOf_without_of_ne hκ, h.values]
  · obtain ⟨n, hn⟩ := h.spelled e (List.mem_of_mem_filter he)
    exact ⟨n, hn.deleted (hkept he)⟩
  · refine (h.ordered.filter _).imp_of_mem fun he he' ⟨m, n, hm, hn, hlt⟩ => ?_
    exact ⟨m, n, hm.deleted (hkept he), hn.deleted (hkept he'), hlt⟩

/-- The history of a dictionary that is written as a literal. -/
def literalHistory (pairs : List (Value × Value)) : List DictEvent :=
  (pairs.map fun e => .stored e.1 e.2).reverse

/-- What several items leave that are stored one after the other. -/
theorem LeftBy.foldl (h : LeftBy past es) {pairs : List (Value × Value)} (hpairs : AreKeyed pairs) :
    LeftBy (literalHistory pairs ++ past) (pairs.foldl (fun es e => put e.1 e.2 es) es) := by
  induction pairs generalizing past es with
  | nil => exact h
  | cons e pairs ih =>
    obtain ⟨he, hpairs⟩ := List.forall_mem_cons.mp hpairs
    have hrest := ih (h.stored he e.2) hpairs
    rwa [literalHistory, List.map_cons, List.reverse_cons, List.append_assoc]

end History

/-! ## Operations on a dictionary -/

section Dictionary

variable {w : World} {r : Ref} {k : Value}

@[simp] theorem dict_setDict_self (hr : r < w.dicts.size) (es : Entries) : (w.setDict r es).dict r = es := by
  simp [World.setDict, World.dict, hr]

theorem size_setDict (es : Entries) : (w.setDict r es).dicts.size = w.dicts.size :=
  Array.size_setIfInBounds

theorem setItem_keyed (hes : AreKeyed (w.dict r)) (hk : k.isKey = true) (v : Value) :
    setItem (.dict r) k v w = .ok ((), w.setDict r (put k v (w.dict r))) := by
  change (putEntry k v (w.dict r) >>= fun entries => modify (·.setDict r entries)) w = _
  rw [op_bind (putEntry_keyed w hes hk v)]
  rfl

theorem itemAt_keyed (hes : AreKeyed (w.dict r)) (hk : k.isKey = true) :
    itemAt (.dict r) k w =
      match valueOf k.key (w.dict r) with
      | some v => .ok (v, w)
      | none => .error (.missingKey k) := by
  change (lookupKey k (w.dict r) >>= fun o => match o with
    | some v => pure v
    | none => Op.fail (.missingKey k)) w = _
  rw [op_bind (lookupKey_keyed w hes hk)]
  cases valueOf k.key (w.dict r) <;> rfl

theorem deleteItem_keyed (hes : AreKeyed (w.dict r)) (hk : k.isKey = true) :
    deleteItem (.dict r) k w =
      match valueOf k.key (w.dict r) with
      | some _ => .ok ((), w.setDict r (without k.key (w.dict r)))
      | none => .error (.missingKey k) := by
  change (dropKey k (w.dict r) >>= fun left => do
    if left.length = (w.dict r).length then Op.fail (.missingKey k)
    modify (·.setDict r left)) w = _
  rw [op_bind (dropKey_keyed w hes hk)]
  cases hfound : valueOf k.key (w.dict r) with
  | none =>
    rw [if_pos (length_without.mpr hfound)]
    rfl
  | some v =>
    rw [if_neg fun h => nomatch hfound.symm.trans (length_without.mp h)]
    rfl

end Dictionary

/-! ## Augmented values -/

/-- An operation that leaves all dictionaries alone. -/
def Op.SparesDicts {α : Type} (x : Op α) : Prop := ∀ w a w', x w = .ok (a, w') → w'.dicts = w.dicts

namespace Op.SparesDicts

variable {α β : Type}

theorem pure (a : α) : SparesDicts (Pure.pure a : Op α) := by
  intro w b w' h
  cases h
  rfl

theorem bind {x : Op α} {f : α → Op β} (hx : SparesDicts x) (hf : ∀ a, SparesDicts (f a)) :
    SparesDicts (x >>= f) := by
  intro w b w'' h
  obtain ⟨⟨a, w'⟩, hxa, hfa⟩ := Except.bind_eq_ok.mp h
  exact (hf a w' b w'' hfa).trans (hx w a w' hxa)

theorem sequential : Sequential Op fun _ x => SparesDicts x := ⟨pure, bind⟩

theorem fail (p : Problem) : SparesDicts (Op.fail p : Op α) := fun _ _ _ h => nomatch h

theorem ofExcept (x : Except Problem α) : SparesDicts (Op.ofExcept x) := by
  cases x with
  | ok a => exact pure a
  | error p => exact fail p

theorem get : SparesDicts (MonadState.get : Op World) := by
  intro w a w' h
  cases h
  rfl

theorem newText (s : List Char) : SparesDicts (Op.newText s) := by
  intro w a w' h
  cases h
  rfl

theorem newTuple (vs : List Value) : SparesDicts (Op.newTuple vs) := by
  intro w a w' h
  cases h
  rfl

theorem newList (vs : List Value) : SparesDicts (Op.newList vs) := by
  intro w a w' h
  cases h
  rfl

theorem repeatCount (n : Int64) (length : Nat) (what : String) :
    SparesDicts (Lang.repeatCount n length what) := by
  unfold Lang.repeatCount
  dsimp only
  split
  · exact pure _
  · exact fail _

theorem binary (op : BinaryOp) (left right : Value) : SparesDicts (Lang.binary op left right) := by
  have hlist (vs : List Value) (n : Int64) : SparesDicts (repeatList vs n) :=
    bind (repeatCount _ _ _) fun _ => newList _
  have htext (s : List Char) (n : Int64) : SparesDicts (repeatText s n) :=
    bind (repeatCount _ _ _) fun _ => newText _
  unfold Lang.binary
  split
  · exact ofExcept _
  · split
    · exact ofExcept _
    · split
      · exact newText _
      · exact pure _
      · exact bind get fun _ => bind get fun _ => newList _
      · exact newTuple _
      · split
        · exact htext _ _
        · exact htext _ _
        · exact bind get fun _ => hlist _ _
        · exact bind get fun _ => hlist _ _
        · exact fail _
      · exact fail _

theorem iterate (v : Value) : SparesDicts (Lang.iterate v) := by
  unfold Lang.iterate
  split
  · exact bind get fun _ => pure _
  · exact pure _
  · exact sequential.mapM (fun _ => newText _) _
  · exact pure _
  · exact bind get fun _ => pure _
  · exact pure _
  · exact fail _

/-- **Augmented values** are computed without a change of a dictionary. -/
theorem augmented (op : BinaryOp) (current operand : Value) :
    SparesDicts (Lang.augmented op current operand) := by
  unfold Lang.augmented
  split
  · refine bind (iterate _) fun extra => bind ?_ fun _ => pure _
    intro w a w' h
    cases h
    rfl
  · exact binary _ _ _

end Op.SparesDicts

/-! ## Programs -/

/-- **An expression has a value.** -/
def Evaluates (fuel : Nat) (f : Frame) (e : Expr) (w : World) (v : Value) (w' : World) : Prop :=
  (eval plainly fuel f e).run w = .done (.ok v) w'

/-- **The items of a literal** have these keys and values, one after the other. -/
inductive EvaluatesPairs (fuel : Nat) (f : Frame) :
    List (Expr × Expr) → World → List (Value × Value) → World → Prop
  | nil (w : World) : EvaluatesPairs fuel f [] w [] w
  | cons {key value : Expr} {items : List (Expr × Expr)} {k v : Value} {pairs : List (Value × Value)}
      {w w₁ w₂ w₃ : World} (hk : Evaluates fuel f key w k w₁) (hv : Evaluates fuel f value w₁ v w₂)
      (h : EvaluatesPairs fuel f items w₂ pairs w₃) :
      EvaluatesPairs fuel f ((key, value) :: items) w ((k, v) :: pairs) w₃

/-- A world that differs from another one, but not in a dictionary. -/
structure World.SparesDict (r : Ref) (w w' : World) : Prop where
  /-- Its entries are the same. -/
  dict : w'.dict r = w.dict r
  /-- No dictionary is lost. -/
  size : w.dicts.size ≤ w'.dicts.size

/-- **The story of a dictionary,** from its literal on, with the latest event first. Meanwhile anything may
happen that does not concern it. -/
inductive Story (r : Ref) : List DictEvent → World → Prop
  /-- A literal makes it. -/
  | literal {fuel : Nat} {f : Frame} {items : List (Expr × Expr)} {pairs : List (Value × Value)} {w w' w'' : World}
      (hpairs : EvaluatesPairs fuel f items w pairs w') (hkeys : AreKeyed pairs)
      (h : Evaluates (fuel + 1) f (.dict items) w (.dict r) w'') : Story r (literalHistory pairs) w''
  /-- Something else happens. -/
  | meanwhile {past : List DictEvent} {w w' : World} (h : Story r past w) (hw : w.SparesDict r w') :
      Story r past w'
  /-- A value is stored. -/
  | stored {past : List DictEvent} {k v : Value} {w w' : World} (h : Story r past w) (hk : k.isKey = true)
      (hw : setItem (.dict r) k v w = .ok ((), w')) : Story r (.stored k v :: past) w'
  /-- A key is deleted. -/
  | deleted {past : List DictEvent} {k : Value} {w w' : World} (h : Story r past w) (hk : k.isKey = true)
      (hw : deleteItem (.dict r) k w = .ok ((), w')) : Story r (.deleted k :: past) w'

section Literal

variable {fuel : Nat} {f : Frame} {items : List (Expr × Expr)} {pairs : List (Value × Value)} {w w' : World}

/-- What becomes of the items of a literal. -/
def putItem (fuel : Nat) (f : Frame) (es : Entries) (item : Expr × Expr) : Eval Entries := do
  let k ← eval plainly fuel f item.1
  let v ← eval plainly fuel f item.2
  Eval.ofOp (putEntry k v es)

theorem foldlM_putItem (h : EvaluatesPairs fuel f items w pairs w') (hpairs : AreKeyed pairs) {es : Entries}
    (hes : AreKeyed es) :
    (items.foldlM (putItem fuel f) es).run w =
      .done (.ok (pairs.foldl (fun es e => put e.1 e.2 es) es)) w' := by
  induction h generalizing es with
  | nil w => rfl
  | @cons key value items k v pairs w w₁ w₂ w₃ hk hv _ ih =>
    obtain ⟨he, hpairs⟩ := List.forall_mem_cons.mp hpairs
    have hput : (putItem fuel f es (key, value)).run w = .done (.ok (put k v es)) w₂ := by
      unfold putItem
      rw [Eval.bind_of_ok hk, Eval.bind_of_ok hv]
      exact Eval.ofOp_ok (putEntry_keyed w₂ hes he v)
    rw [List.foldlM_cons, Eval.bind_of_ok hput]
    exact ih hpairs (hes.put he)

/-- **A literal** makes a dictionary of its items. -/
theorem evaluates_literal (h : EvaluatesPairs fuel f items w pairs w') (hpairs : AreKeyed pairs) :
    Evaluates (fuel + 1) f (.dict items) w (.dict w'.dicts.size)
      { w' with dicts := w'.dicts.push (pairs.foldl (fun es e => put e.1 e.2 es) []) } := by
  change (items.foldlM (putItem fuel f) [] >>= fun es => Eval.ofOp (Op.newDict es)).run w = _
  rw [Eval.bind_of_ok (foldlM_putItem h hpairs (List.forall_mem_nil _))]
  exact Eval.ofOp_ok rfl

end Literal

/-- **The entries of a dictionary** are left by its story. -/
theorem Story.leftBy {r : Ref} {history : List DictEvent} {w : World} (h : Story r history w) :
    LeftBy history (w.dict r) ∧ r < w.dicts.size := by
  induction h with
  | @literal fuel f items pairs w w' w'' hpairs hkeys h =>
    have hleft := leftBy_nil.foldl hkeys
    rw [List.append_nil] at hleft
    cases (evaluates_literal hpairs hkeys).symm.trans h
    exact ⟨by simpa [World.dict] using hleft, by simp⟩
  | meanwhile _ hw ih => exact ⟨hw.dict ▸ ih.1, Nat.lt_of_lt_of_le ih.2 hw.size⟩
  | @stored past k v w w' _ hk hw ih =>
    rw [setItem_keyed ih.1.keyed hk] at hw
    cases hw
    rw [dict_setDict_self ih.2, size_setDict]
    exact ⟨ih.1.stored hk v, ih.2⟩
  | @deleted past k w w' _ hk hw ih =>
    rw [deleteItem_keyed ih.1.keyed hk] at hw
    split at hw
    · cases hw
      rw [dict_setDict_self ih.2, size_setDict]
      exact ⟨ih.1.deleted k, ih.2⟩
    · cases hw

/-! ## Statements about a dictionary -/

section Statements

variable {fuel : Nat} {f : Frame} {e i value : Expr} {w w₁ w₂ w₃ : World} {r : Ref} {k v : Value} {line : Nat}

/-- A world in which an exception has been made. -/
def World.afterRaising (w : World) : World := { w with identities := w.identities + 1 }

/-- The exception for a key that is not there. -/
def missing (k : Value) : Raised := ⟨.keyError, [k]⟩

theorem eval_subscript (he : Evaluates fuel f e w (.dict r) w₁) (hi : Evaluates fuel f i w₁ k w₂) :
    (eval plainly (fuel + 1) f (.subscript e i)).run w = (Eval.ofOp (itemAt (.dict r) k)).run w₂ := by
  have hsubscript : eval plainly (fuel + 1) f (.subscript e i) =
      (do
        let v ← eval plainly fuel f e
        let index ← eval plainly fuel f i
        Eval.ofOp (itemAt v index)) := by
    cases i with
    | slice lower upper =>
      cases fuel with
      | zero => cases hi
      | succ fuel => cases hi
    | _ => rfl
  rw [hsubscript, Eval.bind_of_ok he, Eval.bind_of_ok hi]

/-- A call of a method, with its arguments. -/
theorem eval_method {m : Method} (hm : m ∈ Method.ofDict) {args : List Expr} {vs : List Value}
    (he : Evaluates fuel f e w (.dict r) w₁)
    (hargs : (args.mapM (eval plainly (fuel + 1) f)).run w₁ = .done (.ok vs) w₂)
    (hcall : callDict r m ⟨m.name, vs, []⟩ w₂ = .ok (v, w₃)) :
    Evaluates (fuel + 2) f (.call (.attribute e m.name) args []) w v w₃ := by
  have hattribute : attributeOf (.dict r) m.name w₁ = .ok (.method (.dict r) m, w₁) := by
    simp only [Method.ofDict, List.mem_cons, List.not_mem_nil, or_false] at hm
    rcases hm with rfl | rfl | rfl | rfl <;> rfl
  have hmethod : Evaluates (fuel + 1) f (.attribute e m.name) w (.method (.dict r) m) w₁ := by
    change (eval plainly fuel f e >>= fun v => Eval.ofOp (attributeOf v m.name)).run w = _
    rw [Eval.bind_of_ok he]
    exact Eval.ofOp_ok hattribute
  have hcalled : callMethod (.dict r) m vs [] w₂ = .ok (.ok v, w₃) := by
    change (callDict r m ⟨m.name, vs, []⟩ >>= fun v => (pure (.ok v) : Op Ending)) w₂ = _
    rw [op_bind hcall]
    rfl
  change (eval plainly (fuel + 1) f (.attribute e m.name) >>= fun g =>
    args.mapM (eval plainly (fuel + 1) f) >>= fun args => call plainly (fuel + 1) g args []).run w = _
  rw [Eval.bind_of_ok hmethod, Eval.bind_of_ok hargs]
  change (Eval.ofOp (callMethod (.dict r) m vs []) >>= fun o => Eval.ofEnding o).run w₂ = _
  rw [Eval.bind_of_ok (Eval.ofOp_ok hcalled)]
  rfl

/-- An expression in a statement. -/
theorem exec_bind {β : Type} (h : Evaluates fuel f e w v w₁) (g : Value → Exec β) :
    (Exec.ofEval (eval plainly fuel · e) >>= g).run.run f w = (g v).run.run f w₁ :=
  Exec.bind_of_ok (Exec.ofEval_ok (x := (eval plainly fuel · e)) h)

theorem forM_singleton (g : Target → Exec Unit) (t : Target) : [t].forM g = g t := by
  change (g t >>= fun _ => pure ()) = g t
  exact bind_pure_unit

theorem exec_assign (hvalue : Evaluates (fuel + 1) f value w v w₁) (he : Evaluates fuel f e w₁ (.dict r) w₂)
    (hi : Evaluates fuel f i w₂ k w₃) :
    (exec plainly (fuel + 2) (.mk line (.assign [.subscript e i] value))).run.run f w =
      (Exec.ofOp (setItem (.dict r) k v)).run.run f w₃ := by
  have hassign : exec plainly (fuel + 2) (.mk line (.assign [.subscript e i] value)) =
      (do
        let v ← Exec.ofEval (eval plainly (fuel + 1) · value)
        let container ← Exec.ofEval (eval plainly fuel · e)
        let index ← Exec.ofEval (eval plainly fuel · i)
        Exec.ofOp (setItem container index v)) := by
    change (Exec.ofEval (eval plainly (fuel + 1) · value) >>= fun v =>
      [Target.subscript e i].forM fun t => assign plainly (fuel + 1) t v) = _
    simp only [forM_singleton]
    rfl
  rw [hassign, exec_bind hvalue, exec_bind he, exec_bind hi]

theorem exec_delete (he : Evaluates fuel f e w (.dict r) w₁) (hi : Evaluates fuel f i w₁ k w₂) :
    (exec plainly (fuel + 2) (.mk line (.delete [.subscript e i]))).run.run f w =
      (Exec.ofOp (deleteItem (.dict r) k)).run.run f w₂ := by
  have hdelete : exec plainly (fuel + 2) (.mk line (.delete [.subscript e i])) =
      (do
        let container ← Exec.ofEval (eval plainly fuel · e)
        let index ← Exec.ofEval (eval plainly fuel · i)
        Exec.ofOp (deleteItem container index)) := by
    change [Target.subscript e i].forM (delete plainly (fuel + 1)) = _
    rw [forM_singleton]
    rfl
  rw [hdelete, exec_bind he, exec_bind hi]

theorem exec_augment {op : BinaryOp} (he : Evaluates fuel f e w (.dict r) w₁)
    (hi : Evaluates fuel f i w₁ k w₂) :
    (exec plainly (fuel + 2) (.mk line (.augment (.subscript e i) op value))).run.run f w =
      (do
        let current ← Exec.ofOp (itemAt (.dict r) k)
        let operand ← Exec.ofEval (eval plainly fuel · value)
        let updated ← Exec.ofOp (augmented op current operand)
        Exec.ofOp (setItem (.dict r) k updated) : Exec Unit).run.run f w₂ := by
  change (Exec.ofEval (eval plainly fuel · e) >>= fun container =>
    Exec.ofEval (eval plainly fuel · i) >>= fun index => do
      let current ← Exec.ofOp (itemAt container index)
      let operand ← Exec.ofEval (eval plainly fuel · value)
      let updated ← Exec.ofOp (augmented op current operand)
      Exec.ofOp (setItem container index updated) : Exec Unit).run.run f w = _
  rw [exec_bind he, exec_bind hi]

/-- Comparing by membership. -/
theorem eval_member (hi : Evaluates (fuel + 2) f i w k w₁) (he : Evaluates (fuel + 1) f e w₁ (.dict r) w₂)
    {b : Bool} (hb : contains (.dict r) k w₂ = .ok (b, w₂)) :
    Evaluates (fuel + 3) f (.compare i [(.member, e)]) w (.bool b) w₂ := by
  change (eval plainly (fuel + 2) f i >>= fun left => eval plainly (fuel + 1) f e >>= fun right => do
    if ← Eval.ofOp (compareWith .member left right) then evalChain plainly (fuel + 1) f right []
    else pure (.bool false)).run w = _
  rw [Eval.bind_of_ok hi, Eval.bind_of_ok he, Eval.bind_of_ok (Eval.ofOp_ok (x := compareWith .member k (.dict r)) hb)]
  cases b <;> rfl

end Statements

/-! ## What programs see -/

/-- **A dictionary serves its story.** -/
structure Served (r : Ref) (history : List DictEvent) (w : World) : Prop where
  /-- Its entries are what the history leaves. -/
  left : LeftBy history (w.dict r)
  /-- No two of its keys are equal. -/
  unequal : (w.dict r).Pairwise fun e e' => w.equal? e.1 e'.1 = some false
  /-- `d[k]` is the value last stored under the key, or raises that there is none. -/
  item : ∀ {fuel : Nat} {f : Frame} {e i : Expr} {w₀ w₁ : World} {k : Value},
    Evaluates fuel f e w₀ (.dict r) w₁ → Evaluates fuel f i w₁ k w → k.isKey = true →
      (eval plainly (fuel + 1) f (.subscript e i)).run w₀ =
        match lastStored k.key history with
        | some v => .done (.ok v) w
        | none => .done (.error (missing k)) w.afterRaising
  /-- `d.get(k)` and `d.get(k, v)` have a default. -/
  get : ∀ {fuel : Nat} {f : Frame} {e : Expr} {args : List Expr} {w₀ w₁ : World} {k : Value} {dflt : Option Value},
    Evaluates fuel f e w₀ (.dict r) w₁ →
    (args.mapM (eval plainly (fuel + 1) f)).run w₁ = .done (.ok (k :: dflt.toList)) w → k.isKey = true →
      Evaluates (fuel + 2) f (.call (.attribute e "get") args []) w₀
        ((lastStored k.key history).getD (dflt.getD .none)) w
  /-- `k in d` tells whether there is a value. -/
  member : ∀ {fuel : Nat} {f : Frame} {e i : Expr} {w₀ w₁ : World} {k : Value},
    Evaluates (fuel + 2) f i w₀ k w₁ → Evaluates (fuel + 1) f e w₁ (.dict r) w → k.isKey = true →
      Evaluates (fuel + 3) f (.compare i [(.member, e)]) w₀ (.bool (lastStored k.key history).isSome) w
  /-- `d.keys()` lists the keys. -/
  keys : ∀ {fuel : Nat} {f : Frame} {e : Expr} {w₀ : World}, Evaluates fuel f e w₀ (.dict r) w →
    Evaluates (fuel + 2) f (.call (.attribute e "keys") [] []) w₀ (.list w.lists.size)
      { w with lists := w.lists.push ((w.dict r).map Prod.fst) }
  /-- `d.values()` lists the values. -/
  values : ∀ {fuel : Nat} {f : Frame} {e : Expr} {w₀ : World}, Evaluates fuel f e w₀ (.dict r) w →
    Evaluates (fuel + 2) f (.call (.attribute e "values") [] []) w₀ (.list w.lists.size)
      { w with lists := w.lists.push ((w.dict r).map Prod.snd) }
  /-- `d.items()` lists both. -/
  items : ∀ {fuel : Nat} {f : Frame} {e : Expr} {w₀ : World}, Evaluates fuel f e w₀ (.dict r) w →
    ∃ ts n, Evaluates (fuel + 2) f (.call (.attribute e "items") [] []) w₀ (.list w.lists.size)
      { w with identities := n, lists := w.lists.push ts } ∧
      List.Forall₂ (fun t e => ∃ id, t = .tuple id [e.1, e.2]) ts (w.dict r)
  /-- `for x in d` goes through the keys. -/
  each : ∀ {fuel : Nat} {f : Frame} {e : Expr} {target : Target} {body : List Stmt} {line : Nat} {w₀ : World},
    Evaluates fuel f e w₀ (.dict r) w →
      (exec plainly (fuel + 1) (.mk line (.each target e body))).run.run f w₀ =
        (execEach plainly fuel target body ((w.dict r).map Prod.fst)).run.run f w
  /-- `d[k] = v` goes on with the story. -/
  assign : ∀ {fuel : Nat} {f : Frame} {e i value : Expr} {line : Nat} {w₀ w₁ w₂ : World} {k v : Value},
    Evaluates (fuel + 1) f value w₀ v w₁ → Evaluates fuel f e w₁ (.dict r) w₂ → Evaluates fuel f i w₂ k w →
    k.isKey = true →
      ∃ w', (exec plainly (fuel + 2) (.mk line (.assign [.subscript e i] value))).run.run f w₀ =
        .done (.ok (), f) w' ∧ Story r (.stored k v :: history) w'
  /-- `del d[k]` does so if there is a value, and else raises that there is none. -/
  delete : ∀ {fuel : Nat} {f : Frame} {e i : Expr} {line : Nat} {w₀ w₁ : World} {k : Value},
    Evaluates fuel f e w₀ (.dict r) w₁ → Evaluates fuel f i w₁ k w → k.isKey = true →
      if lastStored k.key history = none then
        (exec plainly (fuel + 2) (.mk line (.delete [.subscript e i]))).run.run f w₀ =
          .done (.error (.raised (missing k)), f) w.afterRaising
      else
        ∃ w', (exec plainly (fuel + 2) (.mk line (.delete [.subscript e i]))).run.run f w₀ =
          .done (.ok (), f) w' ∧ Story r (.deleted k :: history) w'
  /-- `d[k] += v` raises that there is no value, or stores what the operator makes of it. The operand may go on
  with the story before that. -/
  augment : ∀ {fuel : Nat} {f : Frame} {e i value : Expr} {op : BinaryOp} {line : Nat} {w₀ w₁ : World} {k : Value},
    Evaluates fuel f e w₀ (.dict r) w₁ → Evaluates fuel f i w₁ k w → k.isKey = true →
      match lastStored k.key history with
      | none =>
        (exec plainly (fuel + 2) (.mk line (.augment (.subscript e i) op value))).run.run f w₀ =
          .done (.error (.raised (missing k)), f) w.afterRaising
      | some current =>
        ∀ {later : List DictEvent} {v : Value} {w₂ : World}, Evaluates fuel f value w v w₂ → Story r later w₂ →
          (∀ u w₃, augmented op current v w₂ = .ok (u, w₃) →
            ∃ w', (exec plainly (fuel + 2) (.mk line (.augment (.subscript e i) op value))).run.run f w₀ =
              .done (.ok (), f) w' ∧ Story r (.stored k u :: later) w') ∧
          ∀ p, augmented op current v w₂ = .error p → p ≠ .endless →
            (exec plainly (fuel + 2) (.mk line (.augment (.subscript e i) op value))).run.run f w₀ =
              .done (.error (.raised (p.raised w₂.identities)), f) w₂.afterRaising

section Serving

variable {r : Ref} {history : List DictEvent} {w : World} {k : Value}

theorem Story.itemAt_eq (h : Story r history w) (hk : k.isKey = true) :
    itemAt (.dict r) k w =
      match lastStored k.key history with
      | some v => .ok (v, w)
      | none => .error (.missingKey k) := by
  obtain ⟨hleft, -⟩ := h.leftBy
  rw [itemAt_keyed hleft.keyed hk, hleft.values]

theorem Story.deleteItem_eq (h : Story r history w) (hk : k.isKey = true) :
    deleteItem (.dict r) k w =
      match lastStored k.key history with
      | some _ => .ok ((), w.setDict r (without k.key (w.dict r)))
      | none => .error (.missingKey k) := by
  obtain ⟨hleft, -⟩ := h.leftBy
  rw [deleteItem_keyed hleft.keyed hk, hleft.values]

/-- The items of a dictionary are made one after the other. -/
theorem mapM_newTuple (es : Entries) (w : World) :
    ∃ ts n, es.mapM (fun e => Op.newTuple [e.1, e.2]) w = .ok (ts, { w with identities := n }) ∧
      List.Forall₂ (fun t e => ∃ id, t = .tuple id [e.1, e.2]) ts es := by
  induction es generalizing w with
  | nil => exact ⟨[], w.identities, rfl, .nil⟩
  | cons e es ih =>
    obtain ⟨ts, n, hts, hall⟩ := ih { w with identities := w.identities + 1 }
    refine ⟨.tuple w.identities [e.1, e.2] :: ts, n, ?_, .cons ⟨_, rfl⟩ hall⟩
    have hfirst : Op.newTuple [e.1, e.2] w =
        .ok (.tuple w.identities [e.1, e.2], { w with identities := w.identities + 1 }) := rfl
    rw [List.mapM_cons, op_bind hfirst, op_bind hts]
    rfl

/-- **A story is served.** -/
theorem Story.served (h : Story r history w) : Served r history w where
  left := h.leftBy.1
  unequal := by
    obtain ⟨hleft, -⟩ := h.leftBy
    refine hleft.distinct.imp_of_mem fun he he' hne => ?_
    rw [w.equalValue_keys (hleft.keyed _ he) (hleft.keyed _ he'), decide_eq_false hne]
  item := by
    intro fuel f e i w₀ w₁ k he hi hk
    rw [eval_subscript he hi]
    have hitem := h.itemAt_eq hk
    split at hitem
    · rename_i v hv
      exact Eval.ofOp_ok hitem
    · exact Eval.ofOp_error hitem nofun
  get := by
    intro fuel f e args w₀ w₁ k dflt he hargs hk
    obtain ⟨hleft, -⟩ := h.leftBy
    have hfound := lookupKey_keyed w hleft.keyed hk
    rw [hleft.values] at hfound
    refine eval_method (m := .get) (by decide) he hargs ?_
    have hcheck : (Arguments.mk "get" (k :: dflt.toList) []).check 1 2 [] w = .ok ((), w) := by
      cases dflt <;> rfl
    have hsecond : (Arguments.mk "get" (k :: dflt.toList) []).nth 1 = dflt.getD .none := by
      cases dflt <;> rfl
    have hget : (MonadState.get : Op World) w = .ok (w, w) := rfl
    change ((Arguments.mk "get" (k :: dflt.toList) []).check 1 2 [] >>= fun _ =>
      (MonadState.get : Op World) >>= fun w => lookupKey k (w.dict r) >>= fun o =>
        pure (o.getD ((Arguments.mk "get" (k :: dflt.toList) []).nth 1)) : Op Value) w = _
    rw [op_bind hcheck, op_bind hget, op_bind hfound, hsecond]
    rfl
  member := by
    intro fuel f e i w₀ w₁ k hi he hk
    obtain ⟨hleft, -⟩ := h.leftBy
    refine eval_member hi he ?_
    rw [← hleft.values]
    exact anyEqual_keyed w hleft.keyed hk
  keys he := eval_method (m := .keys) (by decide) he rfl rfl
  values he := eval_method (m := .values) (by decide) he rfl rfl
  items := by
    intro fuel f e w₀ he
    obtain ⟨ts, n, hts, hall⟩ := mapM_newTuple (w.dict r) w
    refine ⟨ts, n, eval_method (m := .items) (by decide) he rfl ?_, hall⟩
    change ((w.dict r).mapM (fun e => Op.newTuple [e.1, e.2]) >>= Op.newList) w = _
    rw [op_bind hts]
    rfl
  each := by
    intro fuel f e target body line w₀ he
    change (Exec.ofEval (eval plainly fuel · e) >>= fun v => Exec.ofOp (iterate v) >>= fun vs =>
      execEach plainly fuel target body vs).run.run f w₀ = _
    have hkeys : iterate (.dict r) w = .ok ((w.dict r).map Prod.fst, w) := rfl
    rw [exec_bind he]
    exact Exec.bind_of_ok (Exec.ofOp_ok hkeys)
  assign := by
    intro fuel f e i value line w₀ w₁ w₂ k v hvalue he hi hk
    obtain ⟨hleft, -⟩ := h.leftBy
    have hset := setItem_keyed hleft.keyed hk v
    refine ⟨_, ?_, h.stored hk hset⟩
    rw [exec_assign hvalue he hi]
    exact Exec.ofOp_ok hset
  delete := by
    intro fuel f e i line w₀ w₁ k he hi hk
    rw [exec_delete he hi]
    have hdelete := h.deleteItem_eq hk
    split
    · rename_i hnone
      rw [hnone] at hdelete
      exact Exec.ofOp_error hdelete nofun
    · rename_i hsome
      obtain ⟨v, hv⟩ := Option.ne_none_iff_exists'.mp hsome
      rw [hv] at hdelete
      exact ⟨_, Exec.ofOp_ok hdelete, h.deleted hk hdelete⟩
  augment := by
    intro fuel f e i value op line w₀ w₁ k he hi hk
    rw [exec_augment he hi]
    have hitem := h.itemAt_eq hk
    cases hstored : lastStored k.key history with
    | none =>
      rw [hstored] at hitem
      exact Exec.bind_of_error (Exec.ofOp_error hitem nofun)
    | some current =>
      rw [hstored] at hitem
      intro later v w₂ hvalue hlater
      have hfound : (Exec.ofOp (itemAt (.dict r) k)).run.run f w = .done (.ok current, f) w := Exec.ofOp_ok hitem
      rw [Exec.bind_of_ok hfound, exec_bind hvalue]
      refine ⟨fun u w₃ hu => ?_, fun p hp hne => Exec.bind_of_error (Exec.ofOp_error hp hne)⟩
      have hdicts := Op.SparesDicts.augmented op current v w₂ u w₃ hu
      have hstory : Story r later w₃ := hlater.meanwhile ⟨by unfold World.dict; rw [hdicts], by rw [hdicts]⟩
      obtain ⟨hleft, -⟩ := hstory.leftBy
      have hset := setItem_keyed hleft.keyed hk u
      have hupdated : (Exec.ofOp (augmented op current v)).run.run f w₂ = .done (.ok u, f) w₃ := Exec.ofOp_ok hu
      rw [Exec.bind_of_ok hupdated]
      exact ⟨_, Exec.ofOp_ok hset, hstory.stored hk hset⟩

end Serving

/-- **Dictionaries are finite maps in the order of insertion.** A literal whose keys are keys begins a story, and
the dictionary serves whatever story follows: its keys are pairwise unequal, stand in the order of their first
insertion since they were last deleted, in that spelling, and each has the value last stored under an equal key;
every item assignment and deletion goes on with the story, every lookup answers from it, and a lookup or deletion
of a key that is not there raises an exception and leaves the dictionary as it is. -/
theorem dictionary_serves :
    (∀ {fuel : Nat} {f : Frame} {items : List (Expr × Expr)} {pairs : List (Value × Value)} {w w' : World},
      EvaluatesPairs fuel f items w pairs w' → AreKeyed pairs →
        ∃ w'', Evaluates (fuel + 1) f (.dict items) w (.dict w'.dicts.size) w'' ∧
          Story w'.dicts.size (literalHistory pairs) w'') ∧
      ∀ {r : Ref} {history : List DictEvent} {w : World}, Story r history w → Served r history w := by
  refine ⟨fun hpairs hkeys => ?_, Story.served⟩
  have hliteral := evaluates_literal hpairs hkeys
  exact ⟨_, hliteral, .literal hpairs hkeys hliteral⟩

/-- `d = {True: 2, 7: 8}` and `d[1] = 3` leave `{True: 3, 7: 8}`, and `d[0]` raises. -/
theorem dictionary_serves_numbers :
    let w : World := { World.empty with dicts := #[[(.bool true, .int 3), (.int 7, .int 8)]] }
    Served 0 [.stored (.int 1) (.int 3), .stored (.int 7) (.int 8), .stored (.bool true) (.int 2)] w ∧
      ∀ fuel f e i, Evaluates fuel f e w (.dict 0) w → Evaluates fuel f i w (.int 0) w →
        (eval plainly (fuel + 1) f (.subscript e i)).run w =
          .done (.error ⟨.keyError, [.int 0]⟩) w.afterRaising := by
  have hitems : EvaluatesPairs 1 (.ofModule 0 false false)
      [(.constant (.bool true), .constant (.int 2)), (.constant (.int 7), .constant (.int 8))] World.empty
      [(.bool true, .int 2), (.int 7, .int 8)] World.empty :=
    .cons rfl rfl (.cons rfl rfl (.nil _))
  have hkeys : AreKeyed [(.bool true, .int 2), (.int 7, .int 8)] := by
    unfold AreKeyed
    decide
  have hliteral : Story 0 [.stored (.int 7) (.int 8), .stored (.bool true) (.int 2)]
      { World.empty with dicts := #[[(.bool true, .int 2), (.int 7, .int 8)]] } :=
    .literal hitems hkeys (evaluates_literal hitems hkeys)
  have hstory := hliteral.stored (k := .int 1) (v := .int 3) rfl (setItem_keyed hliteral.leftBy.1.keyed rfl _)
  have hserved := dictionary_serves.2 hstory
  exact ⟨hserved, fun fuel f e i he hi => hserved.item he hi rfl⟩

end Transcript.Lang
