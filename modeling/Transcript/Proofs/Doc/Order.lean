import Transcript.Proofs.Doc.Directive
import Transcript.Proofs.Doc.Tree

/-!
# The order of reading

A reader adds a node below the node that it has added last, or below one that this one stands under. So
whoever goes through the document meets its nodes in the order in which they were added.

What a reader meets on its way, at whatever depth, is the outline of a text. An entry of it is a node as it
stands, or a directive, which becomes one, a container that is read in its turn, or nothing.

Results:
* `InOrder.traverse_eq`: going through such a document is counting its nodes.
* `InOrder.add`, `isOpen_add`: adding a node below an open one keeps the order.
* `Unfolds.bind`, `Unfolds.under`, `Unfolds.forM`: what the steps of a reader add, in this order.
-/

namespace Transcript.Doc

namespace Document

/-- **Nodes are met in the order in which they were added.** -/
structure InOrder (d : Document) : Prop where
  /-- Each step meets the next node. -/
  head : ∀ id < d.size, (d.waiting id).head? = some id
  /-- After the last one, nothing is waiting. -/
  done : d.waiting d.size = []

/-- **A node is open** if all nodes after it are below it: nothing else is waiting when it is met. -/
structure IsOpen (d : Document) (id : NodeId) : Prop where
  /-- It is a node. -/
  lt_size : id < d.size
  /-- Nothing else is waiting when it is met. -/
  waiting_eq : d.waiting id = [id]

theorem InOrder.exists_stack {d : Document} (h : d.InOrder) {id : NodeId} (hid : id < d.size) :
    ∃ stack, d.waiting id = id :: stack := List.head?_eq_some_iff.mp (h.head id hid)

theorem InOrder.traverseFrom_waiting {d : Document} (h : d.InOrder) {steps id : Nat}
    (hsteps : id + steps = d.size) : d.traverseFrom steps (d.waiting id) = List.range' id steps := by
  induction steps generalizing id with
  | zero => rfl
  | succ steps ih =>
    obtain ⟨stack, hstack⟩ := h.exists_stack (show id < d.size by omega)
    have hlater := @ih (id + 1) (by omega)
    rw [waiting_succ hstack] at hlater
    rw [hstack, traverseFrom, hlater, List.range'_succ]

/-- **Going through a document** whose nodes are in order is counting them. -/
theorem InOrder.traverse_eq {d : Document} (h : d.InOrder) : d.traverse = List.range d.size := by
  rw [List.range_eq_range']
  exact h.traverseFrom_waiting (Nat.zero_add _)

/-- The nodes that are met, apart from their places, are those that were added. -/
theorem InOrder.map_leaf_traverse {d : Document} (h : d.InOrder) :
    d.traverse.map (fun id => (d.node id).leaf) = d.leaves := by
  rw [h.traverse_eq]
  refine List.ext_getElem (by simp) fun i hi hi' => ?_
  have hsize : i < d.nodes.size := by simpa [size] using hi
  simp [leaves, node, hsize]

/-- What holds of nodes whatever their place, holds of one that is met if it holds of one that was added. -/
theorem InOrder.exists_node_iff {d : Document} (h : d.InOrder) {P : Node → Prop}
    (hP : ∀ n : Node, P n.leaf ↔ P n) : (∃ id ∈ d.traverse, P (d.node id)) ↔ ∃ n ∈ d.leaves, P n := by
  rw [← h.map_leaf_traverse]
  simp [hP]

theorem inOrder_new (source : Option String) : (new source).InOrder where
  head := by
    intro id hid
    obtain rfl : id = 0 := Nat.lt_one_iff.mp hid
    rfl
  done := rfl

theorem isOpen_new (source : Option String) : (new source).IsOpen root := ⟨Nat.one_pos, rfl⟩

/-! ## Adding a node -/

section

variable {d : Document} (h : d.InOrder) {parent : NodeId} (hopen : d.IsOpen parent) {n : Node}
  (hn : n.children = [])
include h hopen hn

/-- Up to an open node, adding a node below it changes nothing. -/
theorem waiting_add_of_le {steps : Nat} (hsteps : steps ≤ parent) :
    (d.add parent n).2.waiting steps = d.waiting steps := by
  induction steps with
  | zero => rfl
  | succ steps ih =>
    obtain ⟨stack, hstack⟩ := h.exists_stack (Nat.lt_trans hsteps hopen.lt_size)
    rw [waiting_succ hstack, waiting_succ ((ih (Nat.le_of_lt hsteps)).trans hstack),
      children_add hopen.lt_size hn, if_neg (Nat.ne_of_lt hsteps), List.append_nil]

/-- After an open node, the node that has been added below it is waiting behind all others. -/
theorem waiting_add_of_lt {steps : Nat} (hlt : parent < steps) (hle : steps ≤ d.size) :
    (d.add parent n).2.waiting steps = d.waiting steps ++ [d.size] := by
  induction steps, hlt using Nat.le_induction with
  | base =>
    have hsame := waiting_add_of_le h hopen hn (Nat.le_refl parent)
    rw [waiting_succ hopen.waiting_eq, waiting_succ (hsame.trans hopen.waiting_eq),
      children_add hopen.lt_size hn, if_pos rfl, List.append_nil, List.append_nil]
  | succ steps hlt ih =>
    obtain ⟨stack, hstack⟩ := h.exists_stack hle
    have hlater := ih (Nat.le_of_lt hle)
    rw [hstack, List.cons_append] at hlater
    rw [waiting_succ hstack, waiting_succ hlater, children_add hopen.lt_size hn,
      if_neg (Nat.ne_of_gt hlt), List.append_nil, List.append_assoc]

theorem waiting_add_size : (d.add parent n).2.waiting d.size = [d.size] := by
  rw [waiting_add_of_lt h hopen hn hopen.lt_size (Nat.le_refl _), h.done, List.nil_append]

/-- **Adding a node below an open one** keeps the order. -/
theorem InOrder.add : (d.add parent n).2.InOrder where
  head := by
    intro id hid
    rw [size_add] at hid
    rcases Nat.lt_succ_iff_lt_or_eq.mp hid with hid | rfl
    · rcases Nat.lt_or_ge parent id with hlt | hle
      · obtain ⟨stack, hstack⟩ := h.exists_stack hid
        rw [waiting_add_of_lt h hopen hn hlt (Nat.le_of_lt hid), hstack]
        rfl
      · rw [waiting_add_of_le h hopen hn hle]
        exact h.head id hid
    · rw [waiting_add_size h hopen hn]
      rfl
  done := by
    rw [size_add, waiting_succ (waiting_add_size h hopen hn), children_add hopen.lt_size hn,
      node_of_le (Nat.le_refl _), if_neg (Nat.ne_of_gt hopen.lt_size)]
    rfl

/-- The node that has been added is open. -/
theorem isOpen_added : (d.add parent n).2.IsOpen d.size :=
  ⟨by rw [size_add]; exact Nat.lt_succ_self _, waiting_add_size h hopen hn⟩

/-- The nodes above stay open. -/
theorem isOpen_add {id : NodeId} (hid : d.IsOpen id) (hle : id ≤ parent) :
    (d.add parent n).2.IsOpen id := by
  refine ⟨?_, (waiting_add_of_le h hopen hn hle).trans hid.waiting_eq⟩
  rw [size_add]
  exact Nat.lt_succ_of_lt hid.lt_size

end

end Document

/-! ## Reading in order -/

/-- **A computation that adds nodes** below an open one, at the end of the document, and gives a result. -/
def Building.Unfolds {α : Type} (parent : NodeId) (x : Building α) (result : α) (new : List Node) : Prop :=
  ∀ doc : Document, doc.InOrder → doc.IsOpen parent →
    (x doc).1 = result ∧ (x doc).2.InOrder ∧ (∀ id ≤ parent, doc.IsOpen id → (x doc).2.IsOpen id) ∧
      (x doc).2.leaves = doc.leaves ++ new

namespace Building.Unfolds

variable {α β : Type} {parent : NodeId} {first second : List Node}

theorem pure (a : α) : Unfolds parent (Pure.pure a) a [] :=
  fun doc horder _ => ⟨rfl, horder, fun _ _ h => h, (List.append_nil doc.leaves).symm⟩

/-- What two steps add, one after the other. -/
theorem bind {x : Building α} {a : α} {f : α → Building β} {b : β} (hx : Unfolds parent x a first)
    (hf : Unfolds parent (f a) b second) : Unfolds parent (x >>= f) b (first ++ second) := by
  intro doc horder hopen
  obtain ⟨ha, horder', hopen', hfirst⟩ := hx doc horder hopen
  obtain ⟨hb, horder'', hopen'', hsecond⟩ := hf (x doc).2 horder' (hopen' parent (Nat.le_refl _) hopen)
  have hrun : (x >>= f) doc = f a (x doc).2 := by
    rw [← ha]
    rfl
  rw [hrun]
  refine ⟨hb, horder'', fun id hid h => hopen'' id hid (hopen' id hid h), ?_⟩
  rw [← List.append_assoc, ← hfirst]
  exact hsecond

/-- Problems alone add nothing. -/
theorem of_notes {x : Building α} {a : α} (hx : Notes x (· = a)) : Unfolds parent x a [] := by
  intro doc horder hopen
  obtain ⟨hnodes, -, hresult⟩ := hx doc
  have hsame (steps : Nat) : (x doc).2.waiting steps = doc.waiting steps := by
    induction steps with
    | zero => rfl
    | succ steps ih => simp only [Document.waiting, ih, Document.node, hnodes]
  have hsize : (x doc).2.size = doc.size := congrArg Array.size hnodes
  refine ⟨hresult, ⟨fun id hid => ?_, ?_⟩, fun id _ h => ⟨?_, ?_⟩, ?_⟩
  · rw [hsame]
    exact horder.head id (hsize ▸ hid)
  · rw [hsame, hsize]
    exact horder.done
  · rw [hsize]
    exact h.lt_size
  · rw [hsame]
    exact h.waiting_eq
  · simp only [Document.leaves, hnodes, List.append_nil]

theorem after_notes {x : Building α} {a : α} (hx : Notes x (· = a)) {f : α → Building β} {b : β}
    (hf : Unfolds parent (f a) b second) : Unfolds parent (x >>= f) b second := bind (of_notes hx) hf

theorem then_pure {x : Building α} {a : α} (hx : Unfolds parent x a first) (b : β) :
    Unfolds parent (x >>= fun _ => Pure.pure b) b first := by
  rw [← List.append_nil first]
  exact bind hx (pure b)

/-- **A node and what is read below it.** -/
theorem under {n : Node} (hn : n.children = []) {f : NodeId → Building β} {b : β}
    (hf : ∀ id, Unfolds id (f id) b second) :
    Unfolds parent (Building.add parent n >>= f) b (n.leaf :: second) := by
  intro doc horder hopen
  obtain ⟨hb, horder', hopen', hsecond⟩ := hf doc.size (doc.add parent n).2 (horder.add hopen hn)
    (Document.isOpen_added horder hopen hn)
  refine ⟨hb, horder', fun id hid h => ?_, ?_⟩
  · exact hopen' id (Nat.le_of_lt h.lt_size) (Document.isOpen_add horder hopen hn h hid)
  · rw [List.append_cons, ← doc.leaves_add parent n]
    exact hsecond

/-- A node alone. -/
theorem leaf {n : Node} (hn : n.children = []) :
    Unfolds parent (discard (Building.add parent n)) () [n.leaf] := under hn fun _ => pure ()

/-- **What the steps of a list add.** -/
theorem forM {l : List α} {f : α → Building Unit} {each : α → List Node}
    (hf : ∀ a ∈ l, Unfolds parent (f a) () (each a)) : Unfolds parent (l.forM f) () (l.flatMap each) := by
  induction l with
  | nil => exact pure ()
  | cons a as ih =>
    rw [List.flatMap_cons]
    exact bind (hf a List.mem_cons_self) (ih fun b hb => hf b (List.mem_cons_of_mem a hb))

/-- What the turns of a loop add, none of which is the last one before its time. -/
theorem forIn {l : List α} {f : α → PUnit → Building (ForInStep PUnit)} {each : α → List Node}
    (hf : ∀ a ∈ l, Unfolds parent (f a .unit) (.yield .unit) (each a)) :
    Unfolds parent (ForIn.forIn l PUnit.unit f) .unit (l.flatMap each) := by
  induction l with
  | nil => exact pure PUnit.unit
  | cons a as ih =>
    rw [List.forIn_cons, List.flatMap_cons]
    exact bind (hf a List.mem_cons_self) (ih fun b hb => hf b (List.mem_cons_of_mem a hb))

end Building.Unfolds

/-! ## Outlines -/

/-- **An entry of an outline.** -/
inductive Entry
  /-- A block that is a node as it stands. -/
  | node (n : Node)
  /-- A directive. -/
  | directive (inv : Invocation)

/-- The nodes that an entry adds by itself, apart from their places. -/
def Entry.leaves (d : Directives) : Entry → List Node
  | .node n => [n.leaf]
  | .directive inv =>
    match d.becomes inv with
    | none => []
    | some (.node n) => [n.leaf]
    | some (.nested _ _ _ line) => [(Node.atLine .container [] line).leaf]

/-- The nodes of an outline. -/
abbrev outlineLeaves (d : Directives) (entries : List Entry) : List Node := entries.flatMap (Entry.leaves d)

theorem outlineLeaves_append (d : Directives) (a b : List Entry) :
    outlineLeaves d (a ++ b) = outlineLeaves d a ++ outlineLeaves d b := List.flatMap_append

end Transcript.Doc
