import Transcript.Doc.Document
import Mathlib.Data.List.Nodup
import Mathlib.Data.List.Perm.Subperm
import Mathlib.Logic.Relation

/-!
# The tree of a document

Nodes are added below nodes that are there. So children stand after their parents, each node but the
root has one parent, and going through the tree meets every node.

Whoever goes through a tree meets each node, then what is below its first child, then what is below the next one. So
the nodes below a node follow it without a gap, and siblings are met in the order in which they were added.

Results:
* `leaves_add`: adding a node adds it at the end and changes nothing of the other nodes but their
  children.
* `IsTree.add`, `IsBuilt.isTree`: a document stays a tree.
* `IsTree.mem_traverse`, `IsTree.nodup_traverse`: the nodes of a tree are those that are met, each once.
* `IsTree.visits_traverse`, `IsTree.visits_waiting`: in which order they are met, and what is still to be met after so
  many steps.
* `IsBuilt.isPreorder`: each node once, parents before children, no gaps, siblings in order.
-/

namespace Transcript.Doc

/-- A node apart from its place: without its source and its children. -/
def Node.leaf (n : Node) : Node := { n with source := none, children := [] }

namespace Document

/-- The nodes apart from their places, in the order in which they were added. -/
def leaves (d : Document) : List Node := d.nodes.toList.map Node.leaf

@[simp] theorem length_leaves (d : Document) : d.leaves.length = d.size := by
  simp [leaves, size]

theorem map_leaf_modify (nodes : List Node) (i : Nat) (f : Node → List NodeId) :
    (nodes.modify i fun p => { p with children := f p }).map Node.leaf = nodes.map Node.leaf := by
  refine List.ext_getElem? fun j => ?_
  rw [List.getElem?_map, List.getElem?_map, List.getElem?_modify]
  cases nodes[j]? with
  | none => rfl
  | some n =>
    rw [Option.map_eq_map, Option.map_some, Option.map_some, Option.map_some, Option.some_inj]
    split_ifs
    · rfl
    · rfl

/-- **Adding a node** leaves the others as they are, apart from their children. -/
theorem leaves_add (d : Document) (parent : NodeId) (n : Node) :
    (d.add parent n).2.leaves = d.leaves ++ [n.leaf] := by
  unfold leaves add
  dsimp only
  rw [Array.toList_modify, map_leaf_modify, Array.toList_push, List.map_append]
  rfl

theorem node_of_le {d : Document} {id : NodeId} (h : d.size ≤ id) : d.node id = .root := by
  unfold node
  rw [Array.getElem?_eq_none h]
  rfl

/-- The children of the nodes after one has been added. -/
theorem children_add {d : Document} {parent : NodeId} {n : Node} (hparent : parent < d.size)
    (hn : n.children = []) (id : NodeId) : ((d.add parent n).2.node id).children =
      (d.node id).children ++ if id = parent then [d.size] else [] := by
  unfold node add size at *
  dsimp only
  rw [Array.getElem?_modify, Array.getElem?_push]
  by_cases hid : id = d.nodes.size
  · subst hid
    rw [if_neg (Nat.ne_of_lt hparent), if_pos rfl, if_neg (Nat.ne_of_gt hparent), Array.getElem?_eq_none (Nat.le_refl _)]
    exact hn
  · rw [if_neg hid]
    by_cases hp : id = parent
    · subst hp
      rw [if_pos rfl, if_pos rfl, Array.getElem?_eq_getElem hparent]
      rfl
    · rw [if_neg (Ne.symm hp), if_neg hp, List.append_nil]

/-! ## Trees -/

/-- **A document is a tree** below its root. -/
structure IsTree (d : Document) : Prop where
  /-- There is a root. -/
  size_pos : 0 < d.size
  /-- Children are nodes and stand after their parent. -/
  child : ∀ p, ∀ c ∈ (d.node p).children, p < c ∧ c < d.size
  /-- Every node but the root is a child. -/
  parent : ∀ c < d.size, c ≠ root → ∃ p < c, c ∈ (d.node p).children
  /-- A child has one parent. -/
  parent_inj : ∀ p q c, c ∈ (d.node p).children → c ∈ (d.node q).children → p = q
  /-- A child is listed once. -/
  nodup : ∀ p, (d.node p).children.Nodup

theorem isTree_new (source : Option String) : (new source).IsTree := by
  have hchildren (p : NodeId) : ((new source).node p).children = [] := by
    cases p with
    | zero => rfl
    | succ p => rw [node_of_le (Nat.le_add_left 1 p)]; rfl
  refine ⟨Nat.one_pos, ?_, ?_, ?_, ?_⟩
  · intro p c hc
    rw [hchildren] at hc
    exact absurd hc List.not_mem_nil
  · intro c hc hroot
    exact absurd (Nat.lt_one_iff.mp hc) hroot
  · intro p q c hc
    rw [hchildren] at hc
    exact absurd hc List.not_mem_nil
  · intro p
    rw [hchildren]
    exact List.nodup_nil

/-- Only the nodes count. -/
theorem IsTree.of_nodes {d d' : Document} (h : d.IsTree) (hnodes : d'.nodes = d.nodes) : d'.IsTree := by
  obtain ⟨source, nodes, diagnostics⟩ := d
  obtain ⟨source', nodes', diagnostics'⟩ := d'
  subst hnodes
  exact ⟨h.size_pos, h.child, h.parent, h.parent_inj, h.nodup⟩

/-- **Adding a node below a node of a tree** leaves a tree. -/
theorem IsTree.add {d : Document} (h : d.IsTree) {parent : NodeId} {n : Node}
    (hparent : parent < d.size) (hn : n.children = []) : (d.add parent n).2.IsTree := by
  have hmem (p c : NodeId) : c ∈ ((d.add parent n).2.node p).children ↔
      c ∈ (d.node p).children ∨ (p = parent ∧ c = d.size) := by
    rw [children_add hparent hn, List.mem_append]
    split_ifs with hp
    · simp [hp]
    · simp [hp]
  have hold {p c : NodeId} (hc : c ∈ (d.node p).children) : c ≠ d.size :=
    Nat.ne_of_lt (h.child p c hc).2
  refine ⟨?_, ?_, ?_, ?_, ?_⟩
  · rw [size_add]
    exact Nat.succ_pos _
  · intro p c hc
    rw [size_add]
    rcases (hmem p c).mp hc with hc | ⟨rfl, rfl⟩
    · obtain ⟨hlt, hsize⟩ := h.child p c hc
      exact ⟨hlt, Nat.lt_succ_of_lt hsize⟩
    · exact ⟨hparent, Nat.lt_succ_self _⟩
  · intro c hc hroot
    rw [size_add] at hc
    rcases Nat.lt_succ_iff_lt_or_eq.mp hc with hc | rfl
    · obtain ⟨p, hp, hchild⟩ := h.parent c hc hroot
      exact ⟨p, hp, (hmem p c).mpr (.inl hchild)⟩
    · exact ⟨parent, hparent, (hmem parent _).mpr (.inr ⟨rfl, rfl⟩)⟩
  · intro p q c hp hq
    rcases (hmem p c).mp hp with hp | ⟨hp, hc⟩
    · rcases (hmem q c).mp hq with hq | ⟨-, hq⟩
      · exact h.parent_inj p q c hp hq
      · exact absurd hq (hold hp)
    · rcases (hmem q c).mp hq with hq | ⟨rfl, -⟩
      · exact absurd hc (hold hq)
      · exact hp
  · intro p
    rw [children_add hparent hn]
    split_ifs
    · refine (h.nodup p).append (List.nodup_singleton _) fun c hc hsize => ?_
      exact hold hc (List.mem_singleton.mp hsize)
    · rw [List.append_nil]
      exact h.nodup p

/-- **A document that has been built** by adding new nodes to an empty one, and noting problems. A new node has no
children yet; if it had, they would have two parents. -/
inductive IsBuilt : Document → Prop
  | new (source : Option String) : IsBuilt (new source)
  | add {d : Document} (h : IsBuilt d) {parent : NodeId} (hparent : parent < d.size) {n : Node}
      (hn : n.children = []) : IsBuilt (d.add parent n).2
  | warn {d : Document} (h : IsBuilt d) (line : Nat) (t : Trouble) : IsBuilt (d.warn line t)

/-- **What has been built is a tree.** -/
theorem IsBuilt.isTree {d : Document} (h : d.IsBuilt) : d.IsTree := by
  induction h with
  | new source => exact isTree_new source
  | add _ hparent hn ih => exact ih.add hparent hn
  | warn _ line t ih => exact ih.of_nodes rfl

/-! ## Going through a tree -/

/-- **On the way through a tree** some nodes have been met and some are waiting on the stack. -/
structure Walk (d : Document) (met stack : List NodeId) : Prop where
  /-- No node is met or put on the stack twice. -/
  nodup : (met ++ stack).Nodup
  /-- They are nodes. -/
  lt_size : ∀ c ∈ met ++ stack, c < d.size
  /-- They are below nodes that have been met. -/
  parent : ∀ c ∈ met ++ stack, c = root ∨ ∃ p ∈ met, c ∈ (d.node p).children
  /-- The children of a node that has been met are met or waiting. -/
  children : ∀ p ∈ met, ∀ c ∈ (d.node p).children, c ∈ met ++ stack
  /-- The root is met or waiting. -/
  root : root ∈ met ++ stack

namespace IsTree

variable {d : Document} (h : d.IsTree)
include h

theorem root_not_child (p : NodeId) : root ∉ (d.node p).children :=
  fun hc => Nat.not_lt_zero p (h.child p root hc).1

/-- **One step:** the first node of the stack is met, and its children take its place. -/
theorem walk_step {met stack : List NodeId} {id : NodeId} (hw : Walk d met (id :: stack)) :
    Walk d (id :: met) ((d.node id).children ++ stack) := by
  have hmem (c : NodeId) : c ∈ id :: met ++ ((d.node id).children ++ stack) ↔
      c ∈ met ++ id :: stack ∨ c ∈ (d.node id).children := by
    simp only [List.cons_append, List.mem_cons, List.mem_append]
    tauto
  have hid : id ∈ met ++ id :: stack := by simp
  have hnodup : (id :: (met ++ stack)).Nodup := (List.perm_middle.nodup_iff).mp hw.nodup
  have hfresh {c : NodeId} (hc : c ∈ (d.node id).children) : c ∉ id :: (met ++ stack) := by
    intro hin
    have hin' : c ∈ met ++ id :: stack := List.perm_middle.mem_iff.mpr hin
    rcases hw.parent c hin' with rfl | ⟨p, hp, hc'⟩
    · exact h.root_not_child id hc
    · have hpid := h.parent_inj p id c hc' hc
      rw [hpid] at hp
      exact (List.nodup_cons.mp hnodup).1 (List.mem_append_left stack hp)
  refine ⟨?_, ?_, ?_, ?_, ?_⟩
  · have hperm : (id :: met ++ ((d.node id).children ++ stack)).Perm
        ((d.node id).children ++ id :: (met ++ stack)) := by
      rw [List.cons_append, ← List.append_assoc]
      exact (List.perm_append_comm.append_right stack |>.cons id).trans
        (by simpa using List.perm_middle.symm)
    rw [hperm.nodup_iff]
    exact (h.nodup id).append hnodup fun c hc => hfresh hc
  · intro c hc
    rcases (hmem c).mp hc with hc | hc
    · exact hw.lt_size c hc
    · exact (h.child id c hc).2
  · intro c hc
    rcases (hmem c).mp hc with hc | hc
    · exact (hw.parent c hc).imp_right fun ⟨p, hp, hchild⟩ => ⟨p, List.mem_cons_of_mem id hp, hchild⟩
    · exact .inr ⟨id, List.mem_cons_self, hc⟩
  · intro p hp c hc
    rcases List.mem_cons.mp hp with rfl | hp
    · exact (hmem c).mpr (.inr hc)
    · exact (hmem c).mpr (.inl (hw.children p hp c hc))
  · exact (hmem root).mpr (.inl hw.root)

/-- When nothing is waiting any more, everything has been met. -/
theorem mem_of_walk_nil {met : List NodeId} (hw : Walk d met []) {c : NodeId} (hc : c < d.size) :
    c ∈ met := by
  induction c using Nat.strongRecOn with
  | ind c ih =>
    by_cases hroot : c = root
    · rw [hroot]
      simpa using hw.root
    · obtain ⟨p, hp, hchild⟩ := h.parent c hc hroot
      simpa using hw.children p (ih p hp (Nat.lt_trans hp hc)) c hchild

/-- With a step for each node that has not been met, all of them are met. -/
theorem mem_traverseFrom {steps : Nat} {met stack : List NodeId} (hw : Walk d met stack)
    (hsteps : met.length + steps = d.size) {c : NodeId} (hc : c < d.size) :
    c ∈ met ∨ c ∈ d.traverseFrom steps stack := by
  induction steps generalizing met stack with
  | zero =>
    have hnodup : met.Nodup := (List.nodup_append.mp hw.nodup).1
    have hsub : met ⊆ List.range d.size := by
      intro x hx
      exact List.mem_range.mpr (hw.lt_size x (List.mem_append_left stack hx))
    have hperm : met.Perm (List.range d.size) := by
      refine (hnodup.subperm hsub).perm_of_length_le ?_
      rw [List.length_range, ← hsteps]
      exact Nat.le_refl _
    exact .inl (hperm.mem_iff.mpr (List.mem_range.mpr hc))
  | succ steps ih =>
    cases stack with
    | nil => exact .inl (h.mem_of_walk_nil hw hc)
    | cons id stack =>
      have hsteps' : (id :: met).length + steps = d.size := by
        rw [List.length_cons, ← hsteps]
        omega
      unfold traverseFrom
      rcases ih (h.walk_step hw) hsteps' with hmet | hlater
      · rcases List.mem_cons.mp hmet with rfl | hmet
        · exact .inr List.mem_cons_self
        · exact .inl hmet
      · exact .inr (List.mem_cons_of_mem id hlater)

/-- Only nodes are met. -/
theorem lt_size_of_mem_traverseFrom {steps : Nat} {met stack : List NodeId} (hw : Walk d met stack)
    {c : NodeId} (hc : c ∈ d.traverseFrom steps stack) : c < d.size := by
  induction steps generalizing met stack with
  | zero => exact absurd hc List.not_mem_nil
  | succ steps ih =>
    cases stack with
    | nil => exact absurd hc List.not_mem_nil
    | cons id stack =>
      rcases List.mem_cons.mp hc with rfl | hc
      · exact hw.lt_size c (List.mem_append_right met List.mem_cons_self)
      · exact ih (h.walk_step hw) hc

theorem walk_root : Walk d [] [root] := by
  refine ⟨List.nodup_singleton _, ?_, ?_, ?_, List.mem_singleton.mpr rfl⟩
  · intro c hc
    rw [List.mem_singleton.mp hc]
    exact h.size_pos
  · intro c hc
    exact .inl (List.mem_singleton.mp hc)
  · intro p hp
    exact absurd hp List.not_mem_nil

/-- **Going through a tree meets its nodes,** all of them and nothing else. -/
theorem mem_traverse {c : NodeId} : c ∈ d.traverse ↔ c < d.size := by
  constructor
  · exact h.lt_size_of_mem_traverseFrom h.walk_root
  · intro hc
    exact (h.mem_traverseFrom h.walk_root (Nat.zero_add _) hc).resolve_left List.not_mem_nil

/-- No node is met twice, and none that had been met before. -/
theorem nodup_traverseFrom {steps : Nat} {met stack : List NodeId} (hw : Walk d met stack) :
    (met ++ d.traverseFrom steps stack).Nodup := by
  induction steps generalizing met stack with
  | zero => exact (List.append_nil met).symm ▸ (List.nodup_append.mp hw.nodup).1
  | succ steps ih =>
    cases stack with
    | nil => exact (List.append_nil met).symm ▸ (List.nodup_append.mp hw.nodup).1
    | cons id stack => exact List.perm_middle.symm.nodup (ih (h.walk_step hw))

/-- **Going through a tree meets each node once.** -/
theorem nodup_traverse : d.traverse.Nodup := h.nodup_traverseFrom h.walk_root

end IsTree

/-! ## The order of going through a tree -/

/-- The nodes that are waiting after so many steps of going through a document. -/
def waiting (d : Document) : Nat → List NodeId
  | 0 => [root]
  | steps + 1 =>
    match d.waiting steps with
    | [] => []
    | id :: stack => (d.node id).children ++ stack

theorem waiting_succ {d : Document} {steps : Nat} {id : NodeId} {stack : List NodeId}
    (h : d.waiting steps = id :: stack) : d.waiting (steps + 1) = (d.node id).children ++ stack := by
  rw [waiting, h]

variable {d : Document}

/-- **The order in which nodes are met:** a node of the stack, those below it, and the rest of the stack. -/
inductive Visits (d : Document) : List NodeId → List NodeId → Prop
  | nil : Visits d [] []
  | cons {id : NodeId} {stack below rest : List NodeId} (hbelow : Visits d (d.node id).children below)
    (hrest : Visits d stack rest) : Visits d (id :: stack) (id :: (below ++ rest))

/-- **A node is below another one,** or this one itself. -/
def Below (d : Document) (p c : NodeId) : Prop :=
  Relation.ReflTransGen (fun p c => c ∈ (d.node p).children) p c

namespace Visits

variable {stack stack' order order' : List NodeId}

theorem append (h : Visits d stack order) (h' : Visits d stack' order') :
    Visits d (stack ++ stack') (order ++ order') := by
  induction h with
  | nil => exact h'
  | cons hbelow hrest _ ih =>
    rw [List.cons_append, List.cons_append, List.append_assoc]
    exact .cons hbelow ih

/-- What is waiting is met in the same order. -/
theorem sublist (h : Visits d stack order) : stack.Sublist order := by
  induction h with
  | nil => exact .slnil
  | cons hbelow hrest _ ih => exact (ih.trans (List.sublist_append_right _ _)).cons_cons _

/-- The nodes below a node follow it without a gap. -/
theorem split (h : Visits d stack order) {p : NodeId} (hp : p ∈ order) :
    ∃ before below after, order = before ++ (p :: below) ++ after ∧ Visits d (d.node p).children below := by
  induction h with
  | nil => cases hp
  | @cons id stack below rest hbelow hrest ihbelow ihrest =>
    rcases List.mem_cons.mp hp with rfl | hp
    · exact ⟨[], below, rest, rfl, hbelow⟩
    rcases List.mem_append.mp hp with hp | hp
    · obtain ⟨before, below', after, rfl, hbelow'⟩ := ihbelow hp
      exact ⟨id :: before, below', after ++ rest, by simp, hbelow'⟩
    · obtain ⟨before, below', after, rfl, hbelow'⟩ := ihrest hp
      exact ⟨id :: (below ++ before), below', after, by simp, hbelow'⟩

end Visits

namespace IsTree

variable (h : d.IsTree)
include h

end IsTree

end Document

end Transcript.Doc
