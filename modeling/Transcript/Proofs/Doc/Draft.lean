import Transcript.Markdown.Reader
import Transcript.Proofs.Doc.Part
import Mathlib.Data.List.TakeDrop

/-!
# What a directive says

A directive has a name, perhaps an argument, options and lines of content. Both formats write its options
and its content in the same lines, one below the other with a blank line between. They differ in how these
are marked as its body.

Results:
* `Draft.isName_of_registered`: the names that every document knows, as readers see them.
* `optionLine?_optionText`: an option is read as it is written.
* `Draft.takeWhile_body`: the options of a body are its first lines.
-/

namespace Transcript.Doc

open Text

/-! ## Texts in a line -/

/-- **A text in a line** without blanks at its ends. -/
structure IsTight (s : List Char) : Prop extends IsPlain s where
  /-- There is no blank at the beginning. -/
  starts : ∀ c ∈ s.head?, isBlank c = false

theorem isTight_nil : IsTight [] := ⟨isPlain_nil, by simp⟩

theorem IsTight.trim {s : List Char} (h : IsTight s) : trim s = s := by
  have hstart : trimStart s = s := by
    cases s with
    | nil => rfl
    | cons c cs => exact List.dropWhile_cons_of_neg (by simp [h.starts c rfl])
  unfold Text.trim
  rw [hstart, trimEnd_of_getLast? h.trimmed]

/-- A text without blanks stands in a line. -/
theorem isTight_of_any {s : List Char} (h : s.any isBlank = false) : IsTight s := by
  have hall : ∀ c ∈ s, isBlank c = false := by simpa using h
  exact ⟨⟨fun hc => absurd (hall '\n' hc) (by decide), fun hc => absurd (hall '\t' hc) (by decide),
    fun c hc => hall c (List.mem_of_getLast? hc)⟩, fun c hc => hall c (List.mem_of_head? hc)⟩

theorem IsPlain.append {s t : List Char} (hs : '\n' ∉ s ∧ '\t' ∉ s) (ht : IsPlain t) (hne : t ≠ []) :
    IsPlain (s ++ t) where
  feed_not_mem := fun hc => (List.mem_append.mp hc).elim hs.1 ht.feed_not_mem
  tab_not_mem := fun hc => (List.mem_append.mp hc).elim hs.2 ht.tab_not_mem
  trimmed := by
    rw [List.getLast?_append_of_ne_nil s hne]
    exact ht.trimmed

/-- Such a line does not end like a line end. -/
theorem IsPlain.getLast?_ne {l : List Char} (h : IsPlain l) : l.getLast? ≠ some '\r' := fun hl =>
  absurd (h.trimmed '\r' hl) (by decide)

/-- A text behind a space, or nothing. -/
def gapped (s : List Char) : List Char := if s.isEmpty then [] else ' ' :: s

/-- What stands before ends at a space or at the end of the line. -/
theorem gapped_ends (s : List Char) :
    ((gapped s).isEmpty || (gapped s).head? = some ' ' || (gapped s).head? = some '\t') = true := by
  cases s with
  | nil => rfl
  | cons c cs => rfl

theorem trim_gapped {s : List Char} (h : IsTight s) : trim (gapped s) = s := by
  cases s with
  | nil => rfl
  | cons c cs => exact h.trim

theorem isTight_append_gapped {s t : List Char} (hs : IsTight s) (hne : s ≠ []) (ht : IsTight t) :
    IsTight (s ++ gapped t) := by
  cases t with
  | nil => exact (List.append_nil s).symm ▸ hs
  | cons c cs =>
    have hplain : IsPlain ((s ++ [' ']) ++ c :: cs) :=
      .append (by simp [hs.feed_not_mem, hs.tab_not_mem]) ht.toIsPlain (List.cons_ne_nil c cs)
    refine ⟨by simpa [gapped] using hplain, ?_⟩
    rw [List.head?_append_of_ne_nil s hne]
    exact hs.starts

/-! ## Options -/

/-- **The name of an option:** it starts with no blank and holds no colon. -/
structure IsKey (key : List Char) : Prop where
  /-- There is a name. -/
  ne_nil : key ≠ []
  /-- There is no colon. -/
  colon_not_mem : ':' ∉ key
  /-- There is no line feed. -/
  feed_not_mem : '\n' ∉ key
  /-- There is no tab. -/
  tab_not_mem : '\t' ∉ key
  /-- There is no blank at the beginning. -/
  starts : ∀ c ∈ key.head?, isBlank c = false

/-- **The line of an option:** its name between colons, and its value. -/
def optionText (key value : List Char) : List Char := ':' :: key ++ [':'] ++ gapped value

section

variable {key value : List Char} (hkey : IsKey key) (hvalue : IsTight value)

include hkey hvalue

theorem isTight_optionText : IsTight (optionText key value) := by
  have hcolon : IsTight [':'] := isTight_of_any (by decide)
  have hname : IsPlain ((':' :: key) ++ [':']) :=
    .append (by simp [hkey.feed_not_mem, hkey.tab_not_mem]) hcolon.toIsPlain (List.cons_ne_nil _ _)
  refine isTight_append_gapped ⟨hname, fun c hc => ?_⟩ (by simp) hvalue
  cases hc
  rfl

/-- **An option is read as it is written.** -/
theorem optionLine?_optionText : optionLine? (optionText key value) = some (String.ofList key, value) := by
  obtain ⟨c, cs, hcs⟩ := List.exists_cons_of_ne_nil hkey.ne_nil
  have hc : c ≠ ':' := fun h => hkey.colon_not_mem (hcs ▸ h ▸ List.mem_cons_self)
  have hblank : isBlank c = false := hkey.starts c (by rw [hcs]; rfl)
  have hspan : (key ++ ':' :: gapped value).span (· != ':') = (key, ':' :: gapped value) := by
    have hne : ∀ d ∈ key, (d != ':') = true := fun d hd =>
      bne_iff_ne.mpr fun h => hkey.colon_not_mem (h ▸ hd)
    rw [List.span_eq_takeWhile_dropWhile, List.takeWhile_append_of_pos hne, List.dropWhile_append_of_pos hne]
    simp
  have hbegin : afterBegin? [':'] (optionText key value) = some (key ++ ':' :: gapped value) :=
    afterBegin?_eq_some.mpr (by simp [optionText])
  have hhead : (key ++ ':' :: gapped value).head? = some c := by rw [hcs]; rfl
  have hvalue' : afterBegin? [':'] (':' :: gapped value) = some (gapped value) := afterBegin?_eq_some.mpr rfl
  have hstart : ¬(decide (c = ':') || isBlank c) = true := by simp [hc, hblank]
  unfold optionLine?
  rw [(isTight_optionText hkey hvalue).trim, hbegin]
  simp only [Option.bind_eq_bind, Option.bind_some, hhead, hspan, hvalue', if_neg hstart, if_pos (gapped_ends value),
    trim_gapped hvalue]

end

theorem optionLine?_nil : optionLine? [] = none := rfl

/-! ## Directives -/

/-- **What a directive says.** -/
structure Draft where
  /-- Its name. -/
  name : String
  /-- Its argument. -/
  argument : Option (List Char)
  /-- Its options with their values. -/
  options : List (List Char × List Char)
  /-- The lines of its content. -/
  content : List (List Char)

namespace Draft

/-- **What can be said in both formats.** The name is known to every document, and neither the content nor
a line of it can be mistaken for another part of the directive. -/
structure WellFormed (w : Draft) : Prop where
  /-- The name is known. -/
  registered : (Directives.setup .empty).contains w.name = true
  /-- An argument is a text in a line. -/
  argument : ∀ a ∈ w.argument, a ≠ [] ∧ IsTight a
  /-- The names of the options can be told from their values. -/
  keys : ∀ o ∈ w.options, IsKey o.1
  /-- The values of the options are texts in a line. -/
  values : ∀ o ∈ w.options, IsTight o.2
  /-- There is content. -/
  ne_nil : w.content ≠ []
  /-- Its lines have no tabs and no blanks at their ends. -/
  plain : ∀ l ∈ w.content, IsPlain l
  /-- Its first line is not blank and gives no option. -/
  first : ∀ l ∈ w.content.head?, allBlank l = false ∧ optionLine? l = none
  /-- Its last line is not blank. -/
  last : ∀ l ∈ w.content.getLast?, allBlank l = false
  /-- The least indentation is zero. -/
  flush : ∃ l ∈ w.content, allBlank l = false ∧ l.head? ≠ some ' '
  /-- No line is a fence of colons. -/
  unfenced : ∀ l ∈ w.content, Markdown.colonFence? l = none ∧ Markdown.closingWidth? l = none

/-- The argument behind the name. -/
def argumentText (w : Draft) : List Char := gapped (w.argument.getD [])

/-- **The lines of the body:** those of the options, a blank line and those of the content. -/
def body (w : Draft) : List (List Char) :=
  w.options.map (fun o => optionText o.1 o.2) ++ [] :: w.content

/-- **What is read of the directive,** if its name stands on the given line. -/
def invocation (w : Draft) (line : Nat) : Invocation where
  name := w.name
  argument := w.argument
  options := w.options.map fun o => (String.ofList o.1, o.2)
  content := joinLines w.content
  line := line
  contentLine := line + w.options.length + 2

/-! ### Names -/

theorem mem_of_contains_register {d : Directives} {entry : String × DirectiveKind} {name : String}
    (h : (d.register entry).contains name = true) : d.contains name = true ∨ name = entry.1 := by
  by_cases hn : entry.1 = name
  · exact .inr hn.symm
  · unfold Directives.register at h
    split at h
    · exact .inl h
    · rw [Bindings.contains, Bindings.get?_insert_of_ne _ _ hn] at h
      exact .inl h

theorem mem_of_contains_setup {name : String} (h : (Directives.setup .empty).contains name = true) :
    name ∈ Directives.standard.map Prod.fst := by
  have key (entries : List (String × DirectiveKind)) (d : Directives)
      (h : (entries.foldl Directives.register d).contains name = true) :
      d.contains name = true ∨ name ∈ entries.map Prod.fst := by
    induction entries generalizing d with
    | nil => exact .inl h
    | cons e es ih =>
      rw [List.map_cons, List.mem_cons]
      rcases ih _ h with h | h
      · exact (mem_of_contains_register h).imp_right .inl
      · exact .inr (.inr h)
  unfold Directives.setup at h
  split at h
  · cases h
  · exact (key _ _ h).resolve_left Bool.false_ne_true

/-- **A name** as readers see it: letters and digits joined by signs, and nothing else. -/
structure IsName (name : List Char) : Prop where
  /-- It begins with a letter or a digit. -/
  head : name.head?.any Char.isAlphanum = true
  /-- All of it is read as one name. -/
  whole : Rst.nameTail name = (name, [])
  /-- It holds no blank. -/
  blank : name.any isBlank = false
  /-- It holds no brace. -/
  brace : '\x7d' ∉ name

theorem IsName.exists_head {name : List Char} (h : IsName name) :
    ∃ c cs, name = c :: cs ∧ c.isAlphanum = true := by
  obtain ⟨c, hc, halnum⟩ := (Option.any_eq_true _ _).mp h.head
  obtain ⟨cs, hcs⟩ := List.head?_eq_some_iff.mp hc
  exact ⟨c, cs, hcs, halnum⟩

/-- The names that every document knows are names. -/
theorem isName_of_registered {name : String} (h : (Directives.setup .empty).contains name = true) :
    IsName name.toList := by
  have hall : ∀ n ∈ Directives.standard.map Prod.fst,
      n.toList.head?.any Char.isAlphanum = true ∧ Rst.nameTail n.toList = (n.toList, []) ∧
        n.toList.any isBlank = false ∧ '\x7d' ∉ n.toList := by decide
  obtain ⟨hhead, hwhole, hblank, hbrace⟩ := hall name (mem_of_contains_setup h)
  exact ⟨hhead, hwhole, hblank, hbrace⟩

/-! ### The body -/

/-- Behind the options and a blank line stands the content. -/
theorem drop_body (w : Draft) (more : List (List Char)) :
    (w.body ++ more).drop (w.options.length + 1) = w.content ++ more := by
  unfold body
  rw [List.append_assoc, List.drop_append, List.length_map]
  simp

section

variable {w : Draft} (hw : w.WellFormed)

include hw

theorem isTight_argument : IsTight (w.argument.getD []) := by
  cases h : w.argument with
  | none => exact isTight_nil
  | some a => exact (hw.argument a h).2

/-- An argument is read as it is written. -/
theorem argument_eq : (if (w.argument.getD []).isEmpty then none else some (w.argument.getD [])) = w.argument := by
  cases h : w.argument with
  | none => rfl
  | some a =>
    obtain ⟨c, cs, rfl⟩ := List.exists_cons_of_ne_nil (hw.argument a h).1
    rfl

theorem isPlain_of_mem_body {l : List Char} (h : l ∈ w.body) : IsPlain l := by
  rcases List.mem_append.mp h with h | h
  · obtain ⟨o, ho, rfl⟩ := List.mem_map.mp h
    exact (isTight_optionText (hw.keys o ho) (hw.values o ho)).toIsPlain
  · rcases List.mem_cons.mp h with rfl | h
    · exact isPlain_nil
    · exact hw.plain l h

/-- The last line of a body is the last one of its content. -/
theorem last_body : ∀ l ∈ w.body.getLast?, allBlank l = false := by
  unfold body
  rw [List.getLast?_append_of_ne_nil _ (List.cons_ne_nil _ _)]
  obtain ⟨l, ls, hls⟩ := List.exists_cons_of_ne_nil hw.ne_nil
  rw [hls, List.getLast?_cons_cons, ← hls]
  exact hw.last

/-- **The options of a body** are its first lines. -/
theorem takeWhile_body :
    w.body.takeWhile (fun l => (optionLine? l).isSome) = w.options.map fun o => optionText o.1 o.2 := by
  unfold body
  rw [List.takeWhile_append_of_pos, List.takeWhile_cons_of_neg (by simp [optionLine?_nil]), List.append_nil]
  intro l hl
  obtain ⟨o, ho, rfl⟩ := List.mem_map.mp hl
  rw [optionLine?_optionText (hw.keys o ho) (hw.values o ho)]
  rfl

theorem filterMap_options :
    (w.options.map fun o => optionText o.1 o.2).filterMap optionLine? =
      w.options.map fun o => (String.ofList o.1, o.2) := by
  rw [List.filterMap_map, ← List.filterMap_eq_map]
  exact List.filterMap_congr fun o ho => optionLine?_optionText (hw.keys o ho) (hw.values o ho)

end

end Draft

end Transcript.Doc
