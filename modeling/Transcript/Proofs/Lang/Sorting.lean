import Transcript.Lang.Call
import Transcript.Proofs.Lang.DatumValue
import Transcript.Proofs.Lang.Ranking

/-!
# Sorting and extremes

The items of a list that compare with each other are sorted one after the other: each is put behind the items that
are not greater. The least item is found by the same comparisons on the way. The greatest one is found from the
other side, so it is another item of the list than the last one of the sorted list, but an equal one.

Results:
* `SortedFrom.sortInto`, `SortedFrom.sort`: what one item adds to sorted items, and what all items come to.
* `sorts_list`: sorting a list, forward and backward, and its extremes.
-/

namespace Transcript.Lang

/-- **Two values compare** in a world, with any symbol and without a change. -/
def World.Compares (w : World) (a b : Value) (o : Ordering) : Prop := ∀ symbol, order symbol a b w = .ok (o, w)

/-- **Comparable values:** one of the symbols orders them. -/
def World.Comparable (w : World) (a b : Value) : Prop := ∃ symbol o w', order symbol a b w = .ok (o, w')

/-- **A value that is not greater** than another one. -/
def World.AtMost (w : World) (a b : Value) : Prop := w.Compares a b .lt ∨ w.Compares a b .eq

namespace World

variable {w : World} {a b c x : Value} {o : Ordering} {xs ys : List Value}

theorem Ordered.compares (h : w.Ordered a b o) (ha : w.FloatFree a) (hb : w.FloatFree b) : w.Compares a b o :=
  fun _ => (order_iff ha hb).mpr ⟨rfl, h⟩

theorem Comparable.ordered (h : w.Comparable a b) (ha : w.FloatFree a) (hb : w.FloatFree b) :
    ∃ o, w.Ordered a b o := by
  obtain ⟨symbol, o, w', h⟩ := h
  exact ⟨o, ((order_iff ha hb).mp h).2⟩

theorem Comparable.compared (h : w.Comparable a b) (h' : w.Comparable b a) (ha : w.FloatFree a)
    (hb : w.FloatFree b) : ∃ o, w.Compared a b o := by
  obtain ⟨o, h⟩ := h.ordered ha hb
  obtain ⟨o', h'⟩ := h'.ordered hb ha
  exact ⟨o, h.compared h' ha hb⟩

/-- A value that compares with itself does so as equal. -/
theorem Comparable.compares_self (h : w.Comparable a a) (ha : w.FloatFree a) : w.Compares a a .eq := by
  obtain ⟨o, n, h⟩ := h.ordered ha ha
  exact Ordered.compares ⟨n, h.eq_of_self ▸ h⟩ ha ha

/-- **Values below another one,** or equal to it. -/
def Below (w : World) (a b : Value) : Prop := w.Compared a b .lt ∨ w.Compared a b .eq

theorem Below.trans_less (hab : w.Below a b) (hbc : w.Compared b c .lt) (hac : w.Compared a c o) :
    w.Compared a c .lt := by
  rcases hab with hab | hab
  · exact (hab.composes hbc hac).less rfl rfl ▸ hac
  · exact (hab.composes hbc hac).left rfl ▸ hac

theorem Below.trans (hab : w.Below a b) (hbc : w.Below b c) (hac : w.Compared a c o) : w.Below a c := by
  rcases hbc with hbc | hbc
  · exact .inl (hab.trans_less hbc hac)
  · rcases hab with hab | hab
    · exact .inl ((hab.composes hbc hac).right rfl ▸ hac)
    · exact .inr ((hab.composes hbc hac).right rfl ▸ hac)

theorem Compared.unique {o' : Ordering} (h : w.Compared a b o) (h' : w.Compared a b o') : o = o' := by
  obtain ⟨m, h⟩ := h
  obtain ⟨n, h'⟩ := h'
  exact (h.mono (Nat.le_max_left m n)).unique (h'.mono (Nat.le_max_right m n)) fun hm hmis => hmis.not_matched hm

theorem Below.not_less (h : w.Below a b) : ¬ w.Compared b a .lt := by
  intro hlt
  rcases h with h | h
  · cases h.symm.unique hlt
  · cases h.symm.unique hlt

/-- A value that is not less than another one has that one below it. -/
theorem Compared.below (h : w.Compared a b o) (hne : o ≠ .lt) : w.Below b a := by
  cases o with
  | lt => exact absurd rfl hne
  | eq => exact .inr h.symm
  | gt => exact .inl h.symm

theorem Below.atMost (h : w.Below a b) (ha : w.FloatFree a) (hb : w.FloatFree b) : w.AtMost a b :=
  h.imp (fun h => h.ordered.compares ha hb) fun h => h.ordered.compares ha hb

/-- Values that are below each other compare as equal. -/
theorem Below.antisymm (h : w.Below a b) (h' : w.Below b a) : w.Compared a b .eq := by
  rcases h with h | h
  · exact absurd h h'.not_less
  · exact h

/-- **Items that compare:** no doubles lie in them, and each two of them are ordered both ways. -/
structure Rankable (w : World) (xs : List Value) : Prop where
  /-- No doubles lie in them. -/
  free : ∀ x ∈ xs, w.FloatFree x
  /-- Each two of them are ordered. -/
  pairs : xs.Pairwise fun x y => ∃ o, w.Compared x y o

theorem Rankable.of_comparable (hfree : ∀ x ∈ xs, w.FloatFree x)
    (hpairs : xs.Pairwise fun x y => w.Comparable x y ∧ w.Comparable y x) : w.Rankable xs :=
  ⟨hfree, hpairs.imp_of_mem fun hx hy h => h.1.compared h.2 (hfree _ hx) (hfree _ hy)⟩

theorem Rankable.perm (h : w.Rankable xs) (hp : xs.Perm ys) : w.Rankable ys :=
  ⟨fun y hy => h.free y (hp.mem_iff.mpr hy), h.pairs.perm hp fun ⟨_, ho⟩ => ⟨_, ho.symm⟩⟩

theorem Rankable.append_left (h : w.Rankable (xs ++ ys)) : w.Rankable xs :=
  ⟨fun x hx => h.free x (List.mem_append_left ys hx), (List.pairwise_append.mp h.pairs).1⟩

/-! ## Sorting -/

/-- **One item among sorted ones,** given from their end: it is put behind those that are not greater. -/
theorem sortInto_eq {l : List Value} (hx : w.FloatFree x) (hl : ∀ y ∈ l, w.FloatFree y)
    (hpairs : ∀ y ∈ l, ∃ o, w.Compared x y o) :
    ∃ front back, l = front ++ back ∧ sortInto x l w = .ok (front ++ x :: back, w) ∧
      (∀ y ∈ front, w.Compared x y .lt) ∧ ∀ y ∈ back.head?, w.Below y x := by
  induction l with
  | nil => exact ⟨[], [], rfl, rfl, nofun, nofun⟩
  | cons y l ih =>
    obtain ⟨hy, hl⟩ := List.forall_mem_cons.mp hl
    obtain ⟨⟨o, hxy⟩, hpairs⟩ := List.forall_mem_cons.mp hpairs
    have horder : order "<" x y w = .ok (o, w) := hxy.ordered.compares hx hy "<"
    by_cases ho : o = .lt
    · subst ho
      obtain ⟨front, back, rfl, hsort, hfront, hback⟩ := ih hl hpairs
      refine ⟨y :: front, back, rfl, ?_, List.forall_mem_cons.mpr ⟨hxy, hfront⟩, hback⟩
      rw [sortInto, op_bind horder, if_pos (show (Ordering.lt == .lt) = true from rfl), op_bind hsort]
      rfl
    · refine ⟨[], y :: l, rfl, ?_, nofun, ?_⟩
      · rw [sortInto, op_bind horder, if_neg (by simpa using ho)]
        rfl
      · rintro y' ⟨⟩
        exact hxy.below ho

/-- **Sorted items:** those of `xs`, given from their end. -/
structure SortedFrom (w : World) (xs l : List Value) : Prop where
  /-- No item is lost, and none is added. -/
  perm : l.Perm xs
  /-- No item is greater than the next one. -/
  sorted : l.Pairwise fun x y => w.Below y x
  /-- Equal items keep their order. -/
  stable : ∀ c : List Value, c.Sublist xs → c.Pairwise (fun x y => w.Compared x y .eq) → c.reverse.Sublist l

theorem SortedFrom.nil : w.SortedFrom [] [] where
  perm := .nil
  sorted := .nil
  stable c hc _ := by
    rw [List.sublist_nil.mp hc]
    exact .slnil

/-- **What one more item adds** to sorted items. -/
theorem SortedFrom.insert {front back : List Value} (h : w.SortedFrom xs (front ++ back))
    (hpairs : ∀ y ∈ front ++ back, ∃ o, w.Compared x y o) (hfront : ∀ y ∈ front, w.Compared x y .lt)
    (hback : ∀ y ∈ back.head?, w.Below y x) : w.SortedFrom (xs ++ [x]) (front ++ x :: back) where
  perm := by
    have hlast : (xs ++ [x]).Perm (x :: xs) := List.perm_append_singleton x xs
    exact List.perm_middle.trans ((h.perm.cons x).trans hlast.symm)
  sorted := by
    obtain ⟨hsortf, hsortb, hacross⟩ := List.pairwise_append.mp h.sorted
    have hbelow : ∀ y ∈ back, w.Below y x := by
      intro y hy
      cases back with
      | nil => cases hy
      | cons z back =>
        have hz : w.Below z x := hback z rfl
        rcases List.mem_cons.mp hy with rfl | hy'
        · exact hz
        · obtain ⟨o, ho⟩ := hpairs y (List.mem_append_right front hy)
          exact ((List.pairwise_cons.mp hsortb).1 y hy').trans hz ho.symm
    refine List.pairwise_append.mpr ⟨hsortf, List.pairwise_cons.mpr ⟨hbelow, hsortb⟩, fun y hy => ?_⟩
    exact List.forall_mem_cons.mpr ⟨.inl (hfront y hy), hacross y hy⟩
  stable c hc heq := by
    obtain ⟨before, last, rfl, hbefore, hlast⟩ := List.sublist_append_iff.mp hc
    obtain ⟨heqb, -, hacross⟩ := List.pairwise_append.mp heq
    have hrest := h.stable before hbefore heqb
    rcases List.sublist_singleton.mp hlast with rfl | rfl
    · rw [List.append_nil]
      exact hrest.trans ((List.sublist_cons_self x back).append_left front)
    · -- The items of the front are greater than the new one, so none of its equals is there.
      obtain ⟨greater, rest, hsplit, hgreater, hrest⟩ := List.sublist_append_iff.mp hrest
      obtain rfl : greater = [] := by
        refine List.eq_nil_iff_forall_not_mem.mpr fun y hy => ?_
        have hmem : y ∈ before := List.mem_reverse.mp (hsplit ▸ List.mem_append_left rest hy)
        have heq := hacross y hmem x List.mem_cons_self
        cases heq.symm.unique (hfront y (hgreater.subset hy))
      rw [List.reverse_append, List.reverse_singleton, hsplit]
      exact (hrest.cons_cons x).trans (List.sublist_append_right front _)

theorem SortedFrom.singleton (x : Value) : w.SortedFrom [x] [x] := by
  have h : w.SortedFrom ([] ++ [x]) ([] ++ x :: []) := SortedFrom.nil.insert nofun nofun nofun
  exact h

/-- **What one step of sorting does:** one more item is sorted, and the least item is found on the way. -/
theorem SortedFrom.sortInto {l : List Value} (h : w.SortedFrom xs l) (hr : w.Rankable (xs ++ [x])) :
    ∃ l', sortInto x l w = .ok (l', w) ∧ w.SortedFrom (xs ++ [x]) l' ∧
      ∀ least ∈ l.getLast?, ∃ o, order "<" x least w = .ok (o, w) ∧
        l'.getLast? = some (if o == .lt then x else least) := by
  obtain ⟨-, -, hacross⟩ := List.pairwise_append.mp hr.pairs
  have hx : w.FloatFree x := hr.free x (List.mem_append_right xs List.mem_cons_self)
  have hl : ∀ y ∈ l, w.FloatFree y := fun y hy => hr.append_left.free y (h.perm.mem_iff.mp hy)
  have hpairs : ∀ y ∈ l, ∃ o, w.Compared x y o := by
    intro y hy
    obtain ⟨o, ho⟩ := hacross y (h.perm.mem_iff.mp hy) x List.mem_cons_self
    exact ⟨_, ho.symm⟩
  obtain ⟨front, back, rfl, hsort, hfront, hback⟩ := sortInto_eq hx hl hpairs
  have hinsert := h.insert hpairs hfront hback
  refine ⟨_, hsort, hinsert, fun least hleast => ?_⟩
  have hmem := List.mem_of_getLast? hleast
  obtain ⟨o, ho⟩ := hpairs least hmem
  refine ⟨o, ho.ordered.compares hx (hl least hmem) "<", ?_⟩
  cases back with
  | nil =>
    rw [List.append_nil] at hmem
    cases ho.unique (hfront least hmem)
    exact List.getLast?_concat
  | cons y back =>
    rw [List.getLast?_append_cons] at hleast
    have hbelow := (List.pairwise_append.mp hinsert.sorted).2.1
    have hless := ((List.pairwise_cons.mp hbelow).1 least (List.mem_of_getLast? hleast)).not_less
    have hne : (o == .lt) ≠ true := fun heq => hless (beq_iff_eq.mp heq ▸ ho)
    rw [if_neg hne, List.getLast?_append_cons, List.getLast?_cons_cons]
    exact hleast

/-- **What sorting comes to:** more items are sorted, and the least item is found on the way. -/
theorem SortedFrom.sort {l : List Value} (h : w.SortedFrom xs l) (hr : w.Rankable (xs ++ ys)) :
    ∃ l', ys.foldlM (fun sorted x => Lang.sortInto x sorted) l w = .ok (l', w) ∧ w.SortedFrom (xs ++ ys) l' ∧
      ∀ first ∈ l.getLast?, ∃ least, extreme "<" .lt first ys w = .ok (least, w) ∧ l'.getLast? = some least := by
  induction ys generalizing xs l with
  | nil =>
    refine ⟨l, rfl, ?_, fun first hfirst => ⟨first, rfl, hfirst⟩⟩
    rwa [List.append_nil]
  | cons x ys ih =>
    have hassoc : xs ++ [x] ++ ys = xs ++ x :: ys := List.append_assoc xs [x] ys
    rw [← hassoc] at hr ⊢
    obtain ⟨l₁, hstep, hsorted, hfirst⟩ := h.sortInto hr.append_left
    obtain ⟨l', hrun, hsorted', hleast⟩ := ih hsorted hr
    refine ⟨l', ?_, hsorted', fun first hmem => ?_⟩
    · rw [List.foldlM_cons, op_bind hstep]
      exact hrun
    · obtain ⟨o, horder, hlast⟩ := hfirst first hmem
      obtain ⟨least, hextreme, hlast'⟩ := hleast _ hlast
      refine ⟨least, ?_, hlast'⟩
      rw [extreme, op_bind horder]
      exact hextreme

/-- Items that equal each other keep their order. -/
theorem SortedFrom.keeps_equal {l c : List Value} (h : w.SortedFrom xs l) (hr : w.Rankable xs)
    (hc : c.Sublist xs) (heq : c.Pairwise w.Equal) : c.Sublist l.reverse := by
  have hboth := (hr.pairs.sublist hc).and heq
  refine List.sublist_reverse_iff.mpr (h.stable c hc (hboth.imp ?_))
  rintro x y ⟨⟨o, ho⟩, hxy⟩
  exact ho.eq_iff.mpr hxy ▸ ho

/-- **A sort and its first item,** which is the one that the search for the least item finds. -/
theorem sort_eq (hr : w.Rankable xs) :
    ∃ l, Lang.sort xs w = .ok (l.reverse, w) ∧ w.SortedFrom xs l ∧
      ∀ first rest, xs = first :: rest → ∃ least, extreme "<" .lt first rest w = .ok (least, w) ∧
        l.getLast? = some least := by
  cases xs with
  | nil => exact ⟨[], rfl, .nil, nofun⟩
  | cons first rest =>
    have hr : w.Rankable ([first] ++ rest) := hr
    obtain ⟨l, hrun, hsorted, hleast⟩ := (SortedFrom.singleton first).sort hr
    refine ⟨l, ?_, hsorted, ?_⟩
    · have hstep : Lang.sortInto first [] w = .ok ([first], w) := rfl
      have hfold : (first :: rest).foldlM (fun sorted x => Lang.sortInto x sorted) [] w = .ok (l, w) := by
        rw [List.foldlM_cons, op_bind hstep]
        exact hrun
      rw [Lang.sort, op_bind hfold]
      rfl
    · rintro _ _ ⟨⟩
      exact hleast first rfl

/-! ## The greatest item -/

/-- **A greatest item** of items: the first one that no item is greater than. -/
structure Greatest (w : World) (xs : List Value) (m : Value) : Prop where
  /-- Items before it are less, and those after it are not greater. -/
  split : ∃ before after, xs = before ++ m :: after ∧ (∀ x ∈ before, w.Compared x m .lt) ∧ ∀ x ∈ after, w.Below x m

/-- What one more item adds. -/
theorem Greatest.step {m : Value} (h : w.Greatest xs m) (hr : w.Rankable (xs ++ [x])) :
    ∃ o, order ">" x m w = .ok (o, w) ∧ w.Greatest (xs ++ [x]) (if o == .gt then x else m) := by
  obtain ⟨before, after, rfl, hbefore, hafter⟩ := h.split
  obtain ⟨-, -, hacross⟩ := List.pairwise_append.mp hr.pairs
  have hm : m ∈ before ++ m :: after := List.mem_append_right before List.mem_cons_self
  have hx : w.FloatFree x := hr.free x (List.mem_append_right _ List.mem_cons_self)
  obtain ⟨o, ho⟩ := hacross m hm x List.mem_cons_self
  refine ⟨o.swap, ho.symm.ordered.compares hx (hr.append_left.free m hm) ">", ?_⟩
  cases o with
  | lt =>
    refine ⟨before ++ m :: after, [], rfl, fun y hy => ?_, nofun⟩
    obtain ⟨o, hy'⟩ := hacross y hy x List.mem_cons_self
    rcases List.mem_append.mp hy with hy | hy
    · exact Below.trans_less (.inl (hbefore y hy)) ho hy'
    · rcases List.mem_cons.mp hy with rfl | hy
      · exact ho
      · exact (hafter y hy).trans_less ho hy'
  | eq =>
    refine ⟨before, after ++ [x], by simp, hbefore, ?_⟩
    exact List.forall_mem_append.mpr ⟨hafter, List.forall_mem_singleton.mpr (.inr ho.symm)⟩
  | gt =>
    refine ⟨before, after ++ [x], by simp, hbefore, ?_⟩
    exact List.forall_mem_append.mpr ⟨hafter, List.forall_mem_singleton.mpr (.inl ho.symm)⟩

/-- **What the search for the greatest item comes to.** -/
theorem Greatest.extreme {m : Value} (h : w.Greatest xs m) (hr : w.Rankable (xs ++ ys)) :
    ∃ m', extreme ">" .gt m ys w = .ok (m', w) ∧ w.Greatest (xs ++ ys) m' := by
  induction ys generalizing xs m with
  | nil => exact ⟨m, rfl, by rwa [List.append_nil]⟩
  | cons x ys ih =>
    have hassoc : xs ++ [x] ++ ys = xs ++ x :: ys := List.append_assoc xs [x] ys
    rw [← hassoc] at hr ⊢
    obtain ⟨o, horder, hstep⟩ := h.step hr.append_left
    obtain ⟨m', hrun, hm'⟩ := ih hstep hr
    refine ⟨m', ?_, hm'⟩
    rw [Lang.extreme, op_bind horder]
    exact hrun

theorem Greatest.mem {m : Value} (h : w.Greatest xs m) : m ∈ xs := by
  obtain ⟨before, after, rfl, -, -⟩ := h.split
  exact List.mem_append_right before List.mem_cons_self

/-- All other items are below a greatest one. -/
theorem Greatest.below {m : Value} (h : w.Greatest xs m) (hx : x ∈ xs) (hne : x ≠ m) : w.Below x m := by
  obtain ⟨before, after, rfl, hbefore, hafter⟩ := h.split
  rcases List.mem_append.mp hx with hx | hx
  · exact .inl (hbefore x hx)
  · exact hafter x ((List.mem_cons.mp hx).resolve_left hne)

/-- **Items have a greatest one,** which the search finds. -/
theorem Rankable.exists_greatest {first : Value} {rest : List Value} (hr : w.Rankable (first :: rest)) :
    ∃ m, Lang.extreme ">" .gt first rest w = .ok (m, w) ∧ w.Greatest (first :: rest) m := by
  have hone : w.Greatest [first] first := ⟨[], [], rfl, nofun, nofun⟩
  have hr : w.Rankable ([first] ++ rest) := hr
  exact hone.extreme hr

/-- How the items compare with a greatest one. -/
theorem Greatest.compares {m : Value} (h : w.Greatest xs m) (hr : w.Rankable xs) :
    ∃ before after, xs = before ++ m :: after ∧ (∀ x ∈ before, w.Compares x m .lt ∧ w.Compares m x .gt) ∧
      ∀ x ∈ before ++ after, w.AtMost x m := by
  have hm : w.FloatFree m := hr.free m h.mem
  obtain ⟨before, after, rfl, hbefore, hafter⟩ := h.split
  have hfree : ∀ x ∈ before ++ after, w.FloatFree x := by
    intro x hx
    refine hr.free x ?_
    exact (List.mem_append.mp hx).elim (List.mem_append_left _)
      fun h => List.mem_append_right before (List.mem_cons_of_mem m h)
  refine ⟨before, after, rfl, fun x hx => ?_, fun x hx => ?_⟩
  · have hx' := hfree x (List.mem_append_left after hx)
    exact ⟨(hbefore x hx).ordered.compares hx' hm, (hbefore x hx).symm.ordered.compares hm hx'⟩
  · have hbelow : w.Below x m := (List.mem_append.mp hx).elim (fun h => .inl (hbefore x h)) (hafter x)
    exact hbelow.atMost (hfree x hx) hm

/-- A greatest item compares as equal with the last one of the sorted items. -/
theorem Greatest.compares_last {m last : Value} {l : List Value} (h : w.Greatest xs m) (hr : w.Rankable xs)
    (hsorted : w.SortedFrom xs (last :: l)) (hlast : w.Comparable m last) : w.Compares m last .eq := by
  have hm : m ∈ last :: l := hsorted.perm.mem_iff.mpr h.mem
  have hmem : last ∈ xs := hsorted.perm.mem_iff.mp List.mem_cons_self
  by_cases heq : last = m
  · subst heq
    exact hlast.compares_self (hr.free last hmem)
  · have hbelow : w.Below m last :=
      (List.pairwise_cons.mp hsorted.sorted).1 m ((List.mem_cons.mp hm).resolve_left (Ne.symm heq))
    exact (hbelow.antisymm (h.below hmem heq)).ordered.compares (hr.free m h.mem) (hr.free last hmem)

/-! ## The functions -/

theorem sorted_eq {a : Arguments} {r : Ref} (hcheck : a.check 1 1 ["reverse"] w = .ok ((), w))
    (hfirst : a.nth 0 = .list r) (hsort : Lang.sort (w.list r) w = .ok (ys, w)) :
    callBuiltin .sorted a w =
      Op.newList (if (a.named? "reverse").any w.truthy then ys.reverse else ys) w := by
  have hitems : iterate (.list r) w = .ok (w.list r, w) := rfl
  have hget : (get : Op World) w = .ok (w, w) := rfl
  rw [callBuiltin, op_bind hcheck, hfirst, op_bind hitems, op_bind hsort, op_bind hget]

theorem extremeOf_eq {name symbol : String} {keep : Ordering} {r : Ref} {first : Value} {rest : List Value}
    (hlist : w.list r = first :: rest) :
    extremeOf ⟨name, [.list r], []⟩ symbol keep w = Lang.extreme symbol keep first rest w := by
  have hcheck : Op.ofExcept (Arguments.onlyNamed ⟨name, [.list r], []⟩ []) w = .ok ((), w) := rfl
  have hitems : iterate (.list r) w = .ok (w.list r, w) := rfl
  rw [extremeOf, op_bind hcheck]
  dsimp only
  rw [op_bind hitems, hlist]

/-- **A list is sorted:** what the functions that sort it and find its extremes come to. -/
structure SortsList (w : World) (r : Ref) (ys : List Value) : Prop where
  /-- Sorting gives a new list of the sorted items. -/
  forward : ∀ name, callBuiltin .sorted ⟨name, [.list r], []⟩ w = Op.newList ys w
  /-- Sorting backward gives the same items in the opposite order. -/
  backward : ∀ name v, callBuiltin .sorted ⟨name, [.list r], [("reverse", v)]⟩ w =
    Op.newList (if w.truthy v then ys.reverse else ys) w
  /-- No item is lost, and none is added. -/
  perm : ys.Perm (w.list r)
  /-- No item is greater than one behind it. -/
  sorted : ys.Pairwise w.AtMost
  /-- Equal items keep their order. -/
  stable : ∀ c : List Value, c.Sublist (w.list r) → c.Pairwise w.Equal → c.Sublist ys
  /-- The first sorted item is the least one. -/
  least : ∀ m ∈ ys.head?, ∀ name, callBuiltin .min ⟨name, [.list r], []⟩ w = .ok (m, w)
  /-- The greatest item is the first one that no item is greater than, and compares as equal with the last sorted
  one. -/
  greatest : w.list r ≠ [] → ∃ m before after, (∀ name, callBuiltin .max ⟨name, [.list r], []⟩ w = .ok (m, w)) ∧
    w.list r = before ++ m :: after ∧ (∀ x ∈ before, w.Compares x m .lt ∧ w.Compares m x .gt) ∧
    (∀ x ∈ before ++ after, w.AtMost x m) ∧ (w.Comparable m m → w.Compares m m .eq) ∧
    ∀ l ∈ ys.getLast?, w.Comparable m l → w.Compares m l .eq

/-- **Sorting and extremes.** A list whose items hold no doubles and compare with each other, each two of them both
ways, is sorted: forward, backward, and with its extremes. -/
theorem sorts_list (w : World) (r : Ref) (hfree : ∀ x ∈ w.list r, w.FloatFree x)
    (hpairs : (w.list r).Pairwise fun x y => w.Comparable x y ∧ w.Comparable y x) : ∃ ys, w.SortsList r ys := by
  have hr : w.Rankable (w.list r) := .of_comparable hfree hpairs
  obtain ⟨l, hsort, hsorted, hleast⟩ := sort_eq hr
  have hfreel : ∀ x ∈ l, w.FloatFree x := (hr.perm hsorted.perm.symm).free
  refine ⟨l.reverse, ?_, ?_, ?_, ?_, ?_, ?_, ?_⟩
  · exact fun name => sorted_eq rfl rfl hsort
  · intro name v
    rw [sorted_eq rfl rfl hsort]
    rfl
  · exact (List.reverse_perm l).trans hsorted.perm
  · refine List.pairwise_reverse.mpr (hsorted.sorted.imp_of_mem fun hx hy h => ?_)
    exact h.atMost (hfreel _ hy) (hfreel _ hx)
  · exact fun c hc heq => hsorted.keeps_equal hr hc heq
  · intro m hm name
    rw [List.head?_reverse] at hm
    cases hlist : w.list r with
    | nil =>
      rw [hlist] at hsorted
      rw [List.perm_nil.mp hsorted.perm] at hm
      cases hm
    | cons first rest =>
      obtain ⟨least, hextreme, hlast⟩ := hleast first rest hlist
      cases hm.symm.trans hlast
      exact (extremeOf_eq hlist).trans hextreme
  · intro hne
    obtain ⟨first, rest, hlist⟩ := List.exists_cons_of_ne_nil hne
    obtain ⟨m, hextreme, hm⟩ := (hlist ▸ hr).exists_greatest
    rw [← hlist] at hm
    obtain ⟨before, after, hsplit, hbefore, hall⟩ := hm.compares hr
    refine ⟨m, before, after, fun _ => (extremeOf_eq hlist).trans hextreme, hsplit, hbefore, hall,
      fun h => h.compares_self (hfree m hm.mem), fun last hlast hcomp => ?_⟩
    rw [List.getLast?_reverse] at hlast
    cases l with
    | nil => cases hlast
    | cons y l =>
      cases hlast
      exact hm.compares_last hr hsorted hcomp

/-- Tuples of a number, two of them with equal numbers. -/
theorem sorts_list_tuples :
    let w : World := { World.empty with lists := #[[.tuple 0 [.int 2], .tuple 1 [.int 1], .tuple 2 [.bool true]]] }
    (∀ x ∈ w.list 0, w.FloatFree x) ∧
      ((w.list 0).Pairwise fun x y => w.Comparable x y ∧ w.Comparable y x) ∧ ∃ ys, w.SortsList 0 ys := by
  intro w
  have hfree {i : Nat} {a : Value} {m : Int64} (ha : a.asInt? = some m) : w.FloatFree (.tuple i [a]) := by
    refine .of_pieces rfl fun u hu => ?_
    cases hu with
    | member hu =>
      cases List.mem_singleton.mp hu
      refine .of_pieces ?_ fun v hv => ?_
      · cases a <;> first | rfl | cases ha
      · cases hv <;> cases ha
  have hcomparable {i j : Nat} {a b : Value} {m n : Int64} (ha : a.asInt? = some m) (hb : b.asInt? = some n) :
      w.Comparable (.tuple i [a]) (.tuple j [b]) := by
    obtain ⟨o, ho⟩ : ∃ o, w.Ordered (.tuple i [a]) (.tuple j [b]) o := by
      have hequal := equalValue_number (w := w) ha hb
      by_cases h : m = n
      · have hsame : w.Equal a b := hequal.trans (congrArg some (beq_iff_eq.mpr h))
        exact ⟨_, 1, .tuple (.same hsame (.ends (.inl rfl)))⟩
      · have hdiffer : w.Unequal a b := hequal.trans (congrArg some (beq_eq_false_iff_ne.mpr h))
        exact ⟨_, 2, .tuple (.differ hdiffer (.number ha hb))⟩
    exact ⟨"<", o, w, ho.compares (hfree ha) (hfree hb) "<"⟩
  have hboth {i j : Nat} {a b : Value} {m n : Int64} (ha : a.asInt? = some m) (hb : b.asInt? = some n) :
      w.Comparable (.tuple i [a]) (.tuple j [b]) ∧ w.Comparable (.tuple j [b]) (.tuple i [a]) :=
    ⟨hcomparable ha hb, hcomparable hb ha⟩
  have hlist : w.list 0 = [.tuple 0 [.int 2], .tuple 1 [.int 1], .tuple 2 [.bool true]] := rfl
  have hall : ∀ x ∈ w.list 0, w.FloatFree x := by
    rw [hlist]
    exact List.forall_mem_cons.mpr ⟨hfree rfl, List.forall_mem_cons.mpr ⟨hfree rfl,
      List.forall_mem_singleton.mpr (hfree rfl)⟩⟩
  have hpairs : (w.list 0).Pairwise fun x y => w.Comparable x y ∧ w.Comparable y x := by
    rw [hlist]
    refine .cons ?_ (.cons (List.forall_mem_singleton.mpr (hboth rfl rfl)) (List.pairwise_singleton _ _))
    exact List.forall_mem_cons.mpr ⟨hboth rfl rfl, List.forall_mem_singleton.mpr (hboth rfl rfl)⟩
  exact ⟨hall, hpairs, sorts_list w 0 hall hpairs⟩

end World

end Transcript.Lang
