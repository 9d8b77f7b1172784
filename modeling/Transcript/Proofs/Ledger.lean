import Transcript.Tally
import Mathlib.Algebra.BigOperators.Group.Multiset.Basic

/-!
# Ledgers add up

Results go into a ledger one by one, or together with others that another ledger has collected before. What
an entry holds in the end is the sum of all results that have gone in under its name, and there is an entry
for each name that they have. So the order does not count, nor what was collected where.

Results:
* `Ledger.totals_record`: the totals grow by what is recorded.
* `Ledger.AddsUp.record`, `Ledger.AddsUp.merge`: results that go into a ledger are added up.
* `Ledger.AddsUp.eq`: a ledger is determined by the results that have gone into it.
* `Ledger.AddsUp.forall`: what holds of all results holds of all entries, if sums keep it.
* `Ledger.toNat_sum`: a count of a sum of results is the sum of their counts, if that one fits.
* `Ledger.addsUp_after`: each of several ledgers that exchange their entries adds up what has gone into it.
* `order_immaterial`: the order and the grouping of results do not count.
-/

namespace Transcript

namespace Tally

instance : Zero Tally := ⟨zero⟩

instance : Add Tally := ⟨add⟩

instance : AddCommMonoid Tally where
  add_assoc := add_assoc
  zero_add := zero_add
  add_zero a := (add_comm a zero).trans (zero_add a)
  add_comm := add_comm
  nsmul := nsmulRec

end Tally

namespace Ledger

/-! ## Totals -/

theorem totals_eq_sum (l : Ledger) : l.totals = (l.entries.map Prod.snd).sum := by
  have hfold (t : Tally) (entries : List (String × Tally)) :
      entries.foldl (fun sum e => sum.add e.2) t = t + (entries.map Prod.snd).sum := by
    induction entries generalizing t with
    | nil => exact (add_zero t).symm
    | cons e es ih =>
      rw [List.foldl_cons, ih, List.map_cons, List.sum_cons, ← add_assoc]
      rfl
  exact (hfold .zero l.entries).trans (zero_add _)

/-- The sum grows by what is added to the entry of a name. -/
theorem sum_put {entries : List (String × Tally)} (h : entries.Pairwise fun a b => a.1 < b.1) (name : String)
    (t : Tally) :
    ((Bindings.put name (((Bindings.lookup name entries).getD .zero).add t) entries).map Prod.snd).sum =
      (entries.map Prod.snd).sum + t := by
  induction entries with
  | nil =>
    change Tally.zero.add t + 0 = 0 + t
    rw [Tally.zero_add, add_zero, zero_add]
  | cons e es ih =>
    obtain ⟨first, s⟩ := e
    obtain ⟨hfirst, hes⟩ := List.pairwise_cons.mp h
    unfold Bindings.put
    split
    · rename_i hlt
      have hnone : Bindings.lookup name ((first, s) :: es) = none := by
        refine Bindings.lookup_eq_none_of_lt fun e he => ?_
        rcases List.mem_cons.mp he with rfl | he
        · exact hlt
        · exact String.lt_trans hlt (hfirst e he)
      rw [hnone, List.map_cons, List.sum_cons, Option.getD_none, Tally.zero_add]
      exact add_comm t _
    · split
      · rename_i heq
        subst heq
        have hsome : Bindings.lookup name ((name, s) :: es) = some s := if_pos rfl
        rw [hsome, List.map_cons, List.map_cons, List.sum_cons, List.sum_cons]
        exact add_right_comm s t _
      · rename_i hne
        have hlookup : Bindings.lookup name ((first, s) :: es) = Bindings.lookup name es :=
          if_neg (Ne.symm hne)
        rw [hlookup, List.map_cons, List.map_cons, List.sum_cons, List.sum_cons, ih hes, add_assoc]

/-- **The totals grow by what is recorded.** -/
theorem totals_record (l : Ledger) (name : String) (t : Tally) :
    (l.record name t).totals = l.totals.add t := by
  rw [totals_eq_sum, totals_eq_sum]
  exact sum_put l.sorted name t

/-! ## Entries -/

/-- **What the results of a name add up to,** if there are any. -/
def share (results : Multiset (String × Tally)) (name : String) : Option Tally :=
  if name ∈ results.map Prod.fst then some ((results.filter (·.1 = name)).map Prod.snd).sum else none

/-- What two parts of some results add up to. -/
def join : Option Tally → Option Tally → Option Tally := Option.merge (· + ·)

theorem join_none (o : Option Tally) : join o none = o := by
  cases o <;> rfl

theorem join_some (o : Option Tally) (t : Tally) : join o (some t) = some (o.getD 0 + t) := by
  cases o with
  | none => exact congrArg some (zero_add t).symm
  | some s => rfl

theorem share_of_mem {results : Multiset (String × Tally)} {name : String} (h : name ∈ results.map Prod.fst) :
    share results name = some ((results.filter (·.1 = name)).map Prod.snd).sum := if_pos h

theorem share_of_not_mem {results : Multiset (String × Tally)} {name : String}
    (h : name ∉ results.map Prod.fst) : share results name = none := if_neg h

/-- Results of other names do not count. -/
theorem filter_of_not_mem {results : Multiset (String × Tally)} {name : String}
    (h : name ∉ results.map Prod.fst) : results.filter (·.1 = name) = 0 :=
  Multiset.filter_eq_nil.mpr fun _ he hname => h (Multiset.mem_map.mpr ⟨_, he, hname⟩)

/-- **Two parts of some results** add up to what all of them do. -/
theorem share_add (results more : Multiset (String × Tally)) (name : String) :
    share (results + more) name = join (share results name) (share more name) := by
  by_cases h : name ∈ results.map Prod.fst
  · have hall : name ∈ (results + more).map Prod.fst := by
      rw [Multiset.map_add]
      exact Multiset.mem_add.mpr (.inl h)
    rw [share_of_mem h, share_of_mem hall, Multiset.filter_add, Multiset.map_add, Multiset.sum_add]
    by_cases h' : name ∈ more.map Prod.fst
    · rw [share_of_mem h']
      rfl
    · rw [share_of_not_mem h', filter_of_not_mem h', join_none]
      exact congrArg some (add_zero _)
  · rw [share_of_not_mem h]
    by_cases h' : name ∈ more.map Prod.fst
    · have hall : name ∈ (results + more).map Prod.fst := by
        rw [Multiset.map_add]
        exact Multiset.mem_add.mpr (.inr h')
      rw [share_of_mem h', share_of_mem hall, Multiset.filter_add, filter_of_not_mem h, Multiset.zero_add]
      rfl
    · have hall : name ∉ (results + more).map Prod.fst := by
        rw [Multiset.map_add]
        exact fun hmem => (Multiset.mem_add.mp hmem).elim h h'
      rw [share_of_not_mem h', share_of_not_mem hall]
      rfl

theorem share_singleton (name : String) (t : Tally) : share {(name, t)} name = some t := by
  have hmem : name ∈ ({(name, t)} : Multiset (String × Tally)).map Prod.fst := by
    rw [Multiset.map_singleton]
    exact Multiset.mem_singleton_self name
  have hfilter : ({(name, t)} : Multiset (String × Tally)).filter (·.1 = name) = {(name, t)} :=
    Multiset.filter_eq_self.mpr fun e he => congrArg Prod.fst (Multiset.mem_singleton.mp he)
  rw [share_of_mem hmem, hfilter, Multiset.map_singleton, Multiset.sum_singleton]

theorem share_singleton_of_ne {name other : String} (h : other ≠ name) (t : Tally) :
    share {(name, t)} other = none := by
  refine share_of_not_mem fun hmem => h ?_
  rw [Multiset.map_singleton] at hmem
  exact Multiset.mem_singleton.mp hmem

/-! ## Results that go into a ledger -/

/-- **A ledger that results add up to:** for each name there is an entry with the sum of its results, and there
are no other entries. -/
def AddsUp (l : Ledger) (results : Multiset (String × Tally)) : Prop :=
  ∀ name, Bindings.get? l name = share results name

variable {l l' : Ledger} {results more : Multiset (String × Tally)}

/-- **A ledger is determined** by the results that have gone into it. -/
theorem AddsUp.eq (h : l.AddsUp results) (h' : l'.AddsUp results) : l = l' :=
  Bindings.ext_get? fun name => (h name).trans (h' name).symm

theorem AddsUp.empty : AddsUp .empty 0 := fun _ => rfl

/-- Results that are recorded are added up with those before. -/
theorem AddsUp.record (h : l.AddsUp results) (name : String) (t : Tally) :
    (l.record name t).AddsUp (results + {(name, t)}) := by
  intro other
  rw [share_add, ← h other]
  by_cases hname : name = other
  · subst hname
    rw [share_singleton, join_some]
    exact get?_record_self l name t
  · rw [share_singleton_of_ne (Ne.symm hname), join_none]
    exact Bindings.get?_insert_of_ne l _ hname

/-- Results that are recorded one after the other are added up with those before. -/
theorem AddsUp.foldl (h : l.AddsUp results) (entries : List (String × Tally)) :
    AddsUp (entries.foldl (fun l (name, t) => l.record name t) l) (results + entries) := by
  induction entries generalizing l results with
  | nil =>
    rw [Multiset.coe_nil, Multiset.add_zero]
    exact h
  | cons e es ih =>
    obtain ⟨name, t⟩ := e
    rw [List.foldl_cons, ← Multiset.cons_coe, ← Multiset.singleton_add, ← Multiset.add_assoc]
    exact ih (h.record name t)

/-- The entries of a ledger are results that it adds up to. -/
theorem addsUp_entries (l : Ledger) : l.AddsUp l.entries := by
  obtain ⟨entries, hsorted⟩ := l
  intro name
  change Bindings.lookup name entries = share entries name
  induction entries with
  | nil => rfl
  | cons e es ih =>
    obtain ⟨first, t⟩ := e
    obtain ⟨hfirst, hes⟩ := List.pairwise_cons.mp hsorted
    rw [← Multiset.cons_coe, ← Multiset.singleton_add, share_add, ← ih hes]
    by_cases hname : first = name
    · subst hname
      have hsome : Bindings.lookup first ((first, t) :: es) = some t := if_pos rfl
      rw [hsome, share_singleton, Bindings.lookup_eq_none_of_lt hfirst, join_none]
    · have hlookup : Bindings.lookup name ((first, t) :: es) = Bindings.lookup name es := if_neg hname
      rw [hlookup, share_singleton_of_ne (Ne.symm hname)]
      cases Bindings.lookup name es with
      | none => rfl
      | some s => rfl

/-- **Ledgers that are merged** are added up. -/
theorem AddsUp.merge (h : l.AddsUp results) (h' : l'.AddsUp more) : (l.merge l').AddsUp (results + more) := by
  intro name
  have hmerged := h.foldl l'.entries name
  rw [share_add, ← addsUp_entries l' name, h' name, ← share_add] at hmerged
  exact hmerged

theorem exists_addsUp (results : Multiset (String × Tally)) :
    ∃ l : Ledger, l.AddsUp results ∧ l.totals = (results.map Prod.snd).sum := by
  induction results using Multiset.induction with
  | empty => exact ⟨.empty, .empty, rfl⟩
  | cons e results ih =>
    obtain ⟨l, hl, htotals⟩ := ih
    refine ⟨l.record e.1 e.2, ?_, ?_⟩
    · rw [← Multiset.singleton_add, Multiset.add_comm]
      exact hl.record e.1 e.2
    · rw [totals_record, htotals, Multiset.map_cons, Multiset.sum_cons]
      exact add_comm _ e.2

/-- **The totals** are the sum of all results. -/
theorem AddsUp.totals (h : l.AddsUp results) : l.totals = (results.map Prod.snd).sum := by
  obtain ⟨l', hl', htotals⟩ := exists_addsUp results
  rw [h.eq hl', htotals]

/-- **What holds of all results and is kept by sums** holds of all entries and of the totals. -/
theorem AddsUp.forall {P : Tally → Prop} (h : l.AddsUp results) (hzero : P 0)
    (hadd : ∀ s t, P s → P t → P (s + t)) (hresults : ∀ e ∈ results, P e.2) :
    (∀ name t, Bindings.get? l name = some t → P t) ∧ P l.totals := by
  have hsum {part : Multiset (String × Tally)} (hpart : part ≤ results) : P (part.map Prod.snd).sum := by
    refine Multiset.sum_induction P _ hadd hzero fun t ht => ?_
    obtain ⟨e, he, rfl⟩ := Multiset.mem_map.mp ht
    exact hresults e (Multiset.mem_of_le hpart he)
  refine ⟨fun name t hget => ?_, ?_⟩
  · rw [h name] at hget
    unfold share at hget
    split at hget
    · cases hget
      exact hsum (Multiset.filter_le _ _)
    · cases hget
  · rw [h.totals]
    exact hsum (le_refl _)

theorem totals_merge (l l' : Ledger) : (l.merge l').totals = l.totals + l'.totals := by
  rw [((addsUp_entries l).merge (addsUp_entries l')).totals, (addsUp_entries l).totals, (addsUp_entries l').totals,
    Multiset.map_add, Multiset.sum_add]

/-- **The entries of a merged ledger.** -/
theorem get?_merge (l l' : Ledger) (name : String) :
    Bindings.get? (l.merge l') name = join (Bindings.get? l name) (Bindings.get? l' name) := by
  have h := (addsUp_entries l).merge (addsUp_entries l') name
  rwa [share_add, ← addsUp_entries l name, ← addsUp_entries l' name] at h

theorem merge_comm (l l' : Ledger) : l.merge l' = l'.merge l := by
  have h := (addsUp_entries l).merge (addsUp_entries l')
  rw [Multiset.add_comm] at h
  exact h.eq ((addsUp_entries l').merge (addsUp_entries l))

theorem merge_assoc (l l' l'' : Ledger) : (l.merge l').merge l'' = l.merge (l'.merge l'') := by
  have h := ((addsUp_entries l).merge (addsUp_entries l')).merge (addsUp_entries l'')
  rw [Multiset.add_assoc] at h
  exact h.eq ((addsUp_entries l).merge ((addsUp_entries l').merge (addsUp_entries l'')))

/-! ## Sums that fit -/

/-- **The sum of a count over some results,** which may be more than a machine word can hold. -/
def exactly (count : Tally → UInt64) (results : Multiset (String × Tally)) : Nat :=
  (results.map fun e => (count e.2).toNat).sum

/-- **A count of a sum** of results is the sum of their counts, if that one fits. -/
theorem toNat_sum {count : Tally → UInt64} (hzero : count 0 = 0)
    (hadd : ∀ s t, count (s + t) = count s + count t) {results : Multiset (String × Tally)}
    (hfits : exactly count results < UInt64.size) :
    (count (results.map Prod.snd).sum).toNat = exactly count results := by
  induction results using Multiset.induction with
  | empty =>
    rw [Multiset.map_zero, Multiset.sum_zero, hzero]
    rfl
  | cons e results ih =>
    have hexactly : exactly count (e ::ₘ results) = (count e.2).toNat + exactly count results := by
      simp [exactly]
    rw [hexactly] at hfits ⊢
    have hrest := ih (Nat.lt_of_le_of_lt (Nat.le_add_left _ _) hfits)
    rw [Multiset.map_cons, Multiset.sum_cons, hadd, UInt64.toNat_add, hrest]
    exact Nat.mod_eq_of_lt hfits

/-! ## Several ledgers -/

/-- **What is done to one of several ledgers.** -/
inductive Act (ι : Type)
  /-- Results are recorded under a name. -/
  | record (i : ι) (name : String) (t : Tally)
  /-- The entries of another one are added. -/
  | merge (i j : ι)
  /-- All entries are forgotten. -/
  | reset (i : ι)

section

variable {ι : Type} [DecidableEq ι]

/-- What becomes of the ledgers. -/
def Act.apply (ls : ι → Ledger) : Act ι → ι → Ledger
  | .record i name t => Function.update ls i ((ls i).record name t)
  | .merge i j => Function.update ls i ((ls i).merge (ls j))
  | .reset i => Function.update ls i (ls i).reset

/-- What becomes of the results that have gone into each ledger, on their own or with another one. -/
def Act.gather (results : ι → Multiset (String × Tally)) : Act ι → ι → Multiset (String × Tally)
  | .record i name t => Function.update results i (results i + {(name, t)})
  | .merge i j => Function.update results i (results i + results j)
  | .reset i => Function.update results i 0

/-- **The ledgers after some acts.** -/
def after (ls : ι → Ledger) (acts : List (Act ι)) : ι → Ledger := acts.foldl Act.apply ls

theorem after_cons (ls : ι → Ledger) (a : Act ι) (acts : List (Act ι)) :
    after ls (a :: acts) = after (a.apply ls) acts := rfl

/-- **The results that have gone into each ledger** after some acts. The entries that it had before count, too. -/
def gathered (ls : ι → Ledger) (acts : List (Act ι)) : ι → Multiset (String × Tally) :=
  acts.foldl Act.gather fun i => ((ls i).entries : Multiset (String × Tally))

/-- What is put in one place of two families keeps a relation of them. -/
theorem forall_update {α β : Type} {R : α → β → Prop} {f : ι → α} {g : ι → β} (h : ∀ i, R (f i) (g i)) {i : ι} {a : α}
    {b : β} (hab : R a b) (j : ι) : R (Function.update f i a j) (Function.update g i b j) := by
  unfold Function.update
  split
  · rename_i hj
    subst hj
    exact hab
  · exact h j

theorem mem_update {results : ι → Multiset (String × Tally)} {i j : ι} {part : Multiset (String × Tally)}
    {e : String × Tally} (h : e ∈ Function.update results i part j) : e ∈ part ∨ e ∈ results j := by
  by_cases hj : j = i
  · subst hj
    rw [Function.update_self] at h
    exact .inl h
  · rw [Function.update_of_ne hj] at h
    exact .inr h

theorem Act.addsUp {ls : ι → Ledger} {results : ι → Multiset (String × Tally)} (h : ∀ i, (ls i).AddsUp (results i))
    (a : Act ι) : ∀ i, (a.apply ls i).AddsUp (a.gather results i) := by
  cases a with
  | record i name t => exact forall_update h ((h i).record name t)
  | merge i j => exact forall_update h ((h i).merge (h j))
  | reset i => exact forall_update h .empty

/-- **Each ledger adds up** what has gone into it. -/
theorem addsUp_after (ls : ι → Ledger) (acts : List (Act ι)) (i : ι) :
    (after ls acts i).AddsUp (gathered ls acts i) := by
  have hfold {ls : ι → Ledger} {results : ι → Multiset (String × Tally)}
      (h : ∀ i, (ls i).AddsUp (results i)) :
      ∀ i, AddsUp (acts.foldl Act.apply ls i) (acts.foldl Act.gather results i) := by
    induction acts generalizing ls results with
    | nil => exact h
    | cons a acts ih => exact ih (a.addsUp h)
  exact hfold (fun i => addsUp_entries (ls i)) i

/-- **A ledger that is merged into itself** again and again: all its counts are doubled each time. -/
theorem after_doublings (ls : ι → Ledger) (i : ι) (n : Nat) :
    (∀ name, Bindings.get? (after ls (List.replicate n (.merge i i)) i) name =
        (Bindings.get? (ls i) name).map (fun t => t + t)^[n]) ∧
      (after ls (List.replicate n (.merge i i)) i).totals = (fun t => t + t)^[n] (ls i).totals := by
  induction n generalizing ls with
  | zero => exact ⟨fun name => Option.map_id_apply.symm, rfl⟩
  | succ n ih =>
    obtain ⟨hget, htotals⟩ := ih ((Act.merge i i).apply ls)
    have hmerged : (Act.merge i i).apply ls i = (ls i).merge (ls i) := Function.update_self ..
    rw [hmerged] at hget htotals
    refine ⟨fun name => (hget name).trans ?_, htotals.trans (congrArg _ (totals_merge _ _))⟩
    rw [get?_merge]
    cases Bindings.get? (ls i) name <;> rfl

/-- What goes into a ledger by one act was in some ledger before, or is recorded. -/
theorem Act.mem_gather {results : ι → Multiset (String × Tally)} (a : Act ι) {j : ι} {e : String × Tally}
    (h : e ∈ a.gather results j) : (∃ i, e ∈ results i) ∨ ∃ i, a = .record i e.1 e.2 := by
  cases a with
  | record i name t =>
    rcases mem_update h with h | h
    · rcases Multiset.mem_add.mp h with h | h
      · exact .inl ⟨i, h⟩
      · rw [Multiset.mem_singleton.mp h]
        exact .inr ⟨i, rfl⟩
    · exact .inl ⟨j, h⟩
  | merge i k =>
    rcases mem_update h with h | h
    · exact .inl ((Multiset.mem_add.mp h).elim (⟨i, ·⟩) (⟨k, ·⟩))
    · exact .inl ⟨j, h⟩
  | reset i =>
    rcases mem_update h with h | h
    · exact absurd h (Multiset.notMem_zero e)
    · exact .inl ⟨j, h⟩

/-- Where all ledgers are empty at first, what has gone into one of them was recorded in some of them. -/
theorem mem_gathered {acts : List (Act ι)} {i : ι} {e : String × Tally}
    (h : e ∈ gathered (fun _ => .empty) acts i) : ∃ j, .record j e.1 e.2 ∈ acts := by
  have hfold {acts : List (Act ι)} {results : ι → Multiset (String × Tally)}
      (he : e ∈ acts.foldl Act.gather results i) :
      (∃ j, e ∈ results j) ∨ ∃ j, .record j e.1 e.2 ∈ acts := by
    induction acts generalizing results with
    | nil => exact .inl ⟨i, he⟩
    | cons a acts ih =>
      rcases ih he with ⟨j, hj⟩ | ⟨j, hj⟩
      · rcases a.mem_gather hj with hbefore | ⟨k, rfl⟩
        · exact .inl hbefore
        · exact .inr ⟨k, List.mem_cons_self⟩
      · exact .inr ⟨j, List.mem_cons_of_mem _ hj⟩
  rcases hfold h with ⟨j, hj⟩ | hrecorded
  · exact absurd hj (Multiset.notMem_zero e)
  · exact hrecorded

end

/-- **The order and the grouping of results do not count.** Whatever is done to two families of ledgers: if the same
results have gone into two of them, these are the same ledger. Its entries and its totals are the sums of the
results. Merging is commutative and associative, and adds up the totals. -/
theorem order_immaterial {ι κ : Type} [DecidableEq ι] [DecidableEq κ] (ls : ι → Ledger) (ls' : κ → Ledger)
    (acts : List (Act ι)) (acts' : List (Act κ)) (i : ι) (j : κ) :
    (gathered ls acts i = gathered ls' acts' j → after ls acts i = after ls' acts' j) ∧
      (∀ name, Bindings.get? (after ls acts i) name = share (gathered ls acts i) name) ∧
      (after ls acts i).totals = ((gathered ls acts i).map Prod.snd).sum ∧
      (∀ l l' : Ledger, l.merge l' = l'.merge l) ∧
      (∀ l l' l'' : Ledger, (l.merge l').merge l'' = l.merge (l'.merge l'')) ∧
      ∀ l l' : Ledger, (l.merge l').totals = l.totals + l'.totals := by
  have hadds := addsUp_after ls acts i
  refine ⟨fun h => ?_, hadds, hadds.totals, merge_comm, merge_assoc, totals_merge⟩
  rw [h] at hadds
  exact hadds.eq (addsUp_after ls' acts' j)

/-- Three results that are recorded one by one, or in two ledgers of which the one is merged into the other. -/
theorem order_immaterial_grouped :
    let ones : List (Act Unit) := [.record () "x" ⟨0, 1, 0⟩, .record () "y" ⟨0, 0, 0⟩, .record () "x" ⟨1, 3, 1⟩]
    let groups : List (Act Bool) :=
      [.record true "x" ⟨1, 3, 1⟩, .record false "x" ⟨0, 1, 0⟩, .record true "y" ⟨0, 0, 0⟩, .merge false true]
    gathered (fun _ => .empty) ones () = gathered (fun _ => .empty) groups false ∧
      after (fun _ => .empty) ones () = after (fun _ => .empty) groups false ∧
      Bindings.get? (after (fun _ => .empty) groups false) "x" = some ⟨1, 4, 1⟩ ∧
      (after (fun _ => .empty) groups false).totals = ⟨1, 4, 1⟩ := by
  intro ones groups
  have hgathered : gathered (fun _ => .empty) ones () = gathered (fun _ => .empty) groups false := by
    decide +kernel
  obtain ⟨heq, -⟩ :=
    order_immaterial (fun _ : Unit => .empty) (fun _ : Bool => .empty) ones groups () false
  obtain ⟨-, hget, htotals, -⟩ :=
    order_immaterial (fun _ : Bool => .empty) (fun _ : Unit => .empty) groups ones false ()
  refine ⟨hgathered, heq hgathered, ?_, ?_⟩
  · rw [hget]
    decide +kernel
  · rw [htotals]
    decide +kernel

end Ledger

end Transcript
