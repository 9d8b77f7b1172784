import Transcript.Doc.Directive
import Transcript.Proofs.Doc.Part

/-!
# What directives become

Expanding a directive adds nothing to a document but problems, and gives a result that only depends on what the
directive says. So what it becomes can be told without a document. The node of a directive shows its body, or is
run as its body, where the body stands; a container is read from the body.

Results:
* `testNode_becomes`: the node of a tested block.
* `session_block`: what is run of a tested block is its body.
* `expand_becomes`: what a directive becomes.
* `isBody_becomes`, `nested_becomes`: it comes from the body.
* `line_becomes`: it stands where the directive does.
-/

namespace Transcript.Doc

/-! ## Computations that add no node -/

/-- **A computation that notes problems only,** and whose result has a property. -/
def Building.Notes {α : Type} (x : Building α) (post : α → Prop) : Prop :=
  ∀ doc, (x doc).2.nodes = doc.nodes ∧ (x doc).2.source = doc.source ∧ post (x doc).1

namespace Building.Notes

variable {α β : Type}

theorem pure {post : α → Prop} {a : α} (h : post a) : Notes (Pure.pure a) post :=
  fun _ => ⟨rfl, rfl, h⟩

theorem bind {x : Building α} {f : α → Building β} {mid : α → Prop} {post : β → Prop}
    (hx : Notes x mid) (hf : ∀ a, mid a → Notes (f a) post) : Notes (x >>= f) post := by
  intro doc
  obtain ⟨hnodes, hsource, hmid⟩ := hx doc
  obtain ⟨hnodes', hsource', hpost⟩ := hf (x doc).1 hmid (x doc).2
  exact ⟨hnodes'.trans hnodes, hsource'.trans hsource, hpost⟩

theorem warn (line : Nat) (t : Trouble) : Notes (Building.warn line t) fun _ => True :=
  fun _ => ⟨rfl, rfl, trivial⟩

theorem forM (l : List α) {f : α → Building Unit} (hf : ∀ a, Notes (f a) fun _ => True) :
    Notes (l.forM f) fun _ => True := by
  induction l with
  | nil => exact pure trivial
  | cons a as ih => exact bind (hf a) fun _ _ => ih

theorem forIn (l : List α) {f : α → β → Building (ForInStep β)}
    (hf : ∀ a b, Notes (f a b) fun _ => True) (b : β) :
    Notes (ForIn.forIn l b f) fun _ => True := by
  induction l generalizing b with
  | nil => exact pure trivial
  | cons a as ih =>
    rw [List.forIn_cons]
    refine bind (hf a b) fun step _ => ?_
    cases step with
    | done b => exact pure trivial
    | yield b => exact ih b

end Building.Notes

/-! ## Tested blocks -/

/-- What is run of a tested block is its body, whatever is shown. -/
theorem shownText_session (content : List Char) (keepsComments : Bool) :
    (shownText content keepsComments).2.getD (shownText content keepsComments).1 = content := by
  unfold shownText
  dsimp only
  split_ifs
  · rfl
  · rfl
  · rfl
  · rfl

namespace Invocation

/-- The flags that the option for flags of a block switches on and off. -/
def flagOptions (inv : Invocation) : Overrides :=
  match inv.option? "options" with
  | none => .empty
  | some text => (Overrides.ofTextLenient (String.ofList text)).1

/-- **The version that a block requires:** what its first version option says. The other name of the option
only counts without one. -/
def requirement? (inv : Invocation) : Option (List Char) :=
  (inv.option? "version").or (inv.option? "pyversion")

/-- **Whether a version bars a block:** what it requires cannot be read or is not met. -/
def isBarred (meets? : List Char → Option Bool) (inv : Invocation) : Bool :=
  inv.requirement?.any fun requirement => meets? requirement != some true

/-- **The flags that a block switches on and off** for all of its examples. -/
def overrides (meets? : List Char → Option Bool) (inv : Invocation) : Overrides :=
  if inv.isBarred meets? then inv.flagOptions.enable (.single .skip) else inv.flagOptions

/-- **The node of a tested block.** -/
def block (meets? : List Char → Option Bool) (inv : Invocation) (kind : TestKind) : Node :=
  let shown := shownText inv.content (inv.hasOption "no-trim-doctest-flags")
  let node (shown : NodeKind) (text : List Char) (test : Option (List Char))
      (overrides : Overrides) (language : Option String) : Node :=
    { Node.make shown text inv.line inv.contentLine with
      attributes := ⟨groupsOf inv.argument, test, overrides, inv.option? "skipif", trimsFlags? inv,
        some kind, language⟩ }
  match kind with
  | .test =>
    node (if inv.hasOption "hide" then .comment else .literalBlock) shown.1 shown.2 (inv.overrides meets?)
      (some "pycon3")
  | _ => node .comment inv.content none .empty none

variable (meets? : List Char → Option Bool)

@[simp] theorem children_block (inv : Invocation) (kind : TestKind) : (inv.block meets? kind).children = [] := by
  cases kind <;> rfl

/-- What is run of a tested block is its body. -/
@[simp] theorem session_block (inv : Invocation) (kind : TestKind) :
    (inv.block meets? kind).session = inv.content := by
  cases kind with
  | test => exact shownText_session inv.content (inv.hasOption "no-trim-doctest-flags")
  | setup => rfl
  | cleanup => rfl

end Invocation

/-- Options that a tested block does not take are problems. -/
theorem unknownOptions_notes (kind : TestKind) (inv : Invocation) :
    Building.Notes (ForIn.forIn inv.options PUnit.unit fun (x : String × List Char) _ => do
      if !kind.options.contains x.1 then Building.warn inv.line (.unknownOption x.1 inv.name)
      Pure.pure (ForInStep.yield PUnit.unit)) fun _ => True := by
  refine .forIn _ (fun x _ => ?_) _
  dsimp only
  split
  · exact .bind (.warn _ _) fun _ _ => .pure trivial
  · exact .pure trivial

theorem blockOverrides_becomes (inv : Invocation) :
    Building.Notes (blockOverrides inv) (· = inv.flagOptions) := by
  unfold blockOverrides Invocation.flagOptions
  cases inv.option? "options" with
  | none => exact .pure rfl
  | some text => exact .bind (.forM _ fun e => .warn inv.line (.badOption e)) fun _ _ => .pure rfl

theorem gateVersion_becomes (meets? : List Char → Option Bool) (inv : Invocation) (o : Overrides) :
    Building.Notes (gateVersion meets? inv o)
      (· = if inv.isBarred meets? then o.enable (.single .skip) else o) := by
  have hrequires : inv.isBarred meets? = inv.requirement?.any
      fun requirement => meets? requirement != some true := rfl
  unfold Invocation.requirement? at hrequires
  unfold gateVersion
  rw [hrequires]
  dsimp only
  cases (inv.option? "version").or (inv.option? "pyversion") with
  | none => exact .pure rfl
  | some requirement =>
    rw [Option.any_some]
    dsimp only
    cases meets? requirement with
    | none => exact .bind (.warn _ _) fun _ _ => .pure rfl
    | some met =>
      cases met with
      | true => exact .pure rfl
      | false => exact .pure rfl

/-- What is known of versions stays the same when directives are made known. -/
@[simp] theorem Directives.meets?_setup (d : Directives) : d.setup.meets? = d.meets? := by
  have hregister (d : Directives) (entry : String × DirectiveKind) : (d.register entry).meets? = d.meets? := by
    unfold register
    split_ifs <;> rfl
  have hfold (entries : List (String × DirectiveKind)) (d : Directives) :
      (entries.foldl register d).meets? = d.meets? := by
    induction entries generalizing d with
    | nil => rfl
    | cons entry entries ih => exact (ih _).trans (hregister d entry)
  unfold setup
  split_ifs
  · rfl
  · exact hfold _ d

/-- **The node of a tested block** only depends on what its directive says. -/
theorem testNode_becomes (meets? : List Char → Option Bool) (kind : TestKind) (inv : Invocation) :
    Building.Notes (testNode meets? kind inv) (· = inv.block meets? kind) := by
  unfold testNode
  refine .bind (unknownOptions_notes kind inv) fun _ _ => ?_
  dsimp only
  cases kind with
  | test =>
    refine .bind (blockOverrides_becomes inv) fun o ho => ?_
    refine .bind (gateVersion_becomes meets? inv o) fun o' ho' => .pure ?_
    rw [ho', ho]
    rfl
  | setup => exact .pure rfl
  | cleanup => exact .pure rfl

/-! ## All directives -/

/-- **What a directive becomes.** -/
def Directives.becomes (d : Directives) (inv : Invocation) : Option Expansion :=
  let part (format : Option Format) : Option Expansion :=
    if Text.allBlank inv.content then none
    else some (.nested format inv.content inv.contentLine inv.line)
  match d.get? inv.name with
  | none => none
  | some (.test kind) => some (.node (inv.block d.meets? kind))
  | some .codeBlock =>
    let n := Node.make .literalBlock inv.content inv.line inv.contentLine
    some (.node { n with attributes := { n.attributes with language := inv.argument.map String.ofList } })
  | some .tab => part none
  | some .evalRst => part (some .rst)

theorem nestedPart_becomes (format : Option Format) (inv : Invocation) :
    Building.Notes (nestedPart format inv) (· = if Text.allBlank inv.content then none
      else some (.nested format inv.content inv.contentLine inv.line)) := by
  unfold nestedPart
  split
  · exact .bind (.warn _ _) fun _ _ => .pure rfl
  · exact .pure rfl

/-- **What a directive becomes** only depends on what it says. -/
theorem expand_becomes (d : Directives) (inv : Invocation) :
    Building.Notes (d.expand inv) (· = d.becomes inv) := by
  unfold Directives.expand Directives.becomes
  cases d.get? inv.name with
  | none => exact .bind (.warn _ _) fun _ _ => .pure rfl
  | some kind =>
    cases kind with
    | test kind => exact .bind (testNode_becomes d.meets? kind inv) fun n hn => .pure (hn ▸ rfl)
    | tab => exact nestedPart_becomes none inv
    | evalRst => exact nestedPart_becomes (some .rst) inv
    | codeBlock => exact .pure rfl

/-- A tested block becomes its node. -/
theorem becomes_test {d : Directives} {inv : Invocation} {kind : TestKind}
    (h : d.get? inv.name = some (.test kind)) : d.becomes inv = some (.node (inv.block d.meets? kind)) := by
  unfold Directives.becomes
  rw [h]

/-- **The node of a directive:** a leaf that is no section, and the text of which is the body of the directive. -/
structure Node.IsBody (inv : Invocation) (n : Node) : Prop where
  /-- It has no children. -/
  children : n.children = []
  /-- It is no section. -/
  not_section : n.kind ≠ .section
  /-- Its text is the body. -/
  session_eq : n.session = inv.content
  /-- It is where the body stands. -/
  firstLine_eq : n.firstLine = inv.contentLine

theorem Node.IsBody.fits {inv : Invocation} {n : Node} (h : n.IsBody inv) {doc : List Line}
    (htext : HasText doc inv.content inv.contentLine) : n.Fits doc := by
  refine ⟨h.children, fun _ => ?_, fun hsection => absurd hsection h.not_section⟩
  rwa [h.session_eq, h.firstLine_eq]

theorem Invocation.isBody_block (meets? : List Char → Option Bool) (inv : Invocation) (kind : TestKind) :
    (inv.block meets? kind).IsBody inv := by
  refine ⟨inv.children_block meets? kind, ?_, inv.session_block meets? kind, ?_⟩
  · cases kind with
    | test =>
      unfold block
      by_cases hhide : inv.hasOption "hide" = true
      · simp [Node.make, hhide]
      · simp [Node.make, hhide]
    | setup => simp [block, Node.make]
    | cleanup => simp [block, Node.make]
  · cases kind <;> rfl

/-- **A node that a directive becomes** has the body of the directive. -/
theorem isBody_becomes {d : Directives} {inv : Invocation} {n : Node}
    (h : d.becomes inv = some (.node n)) : n.IsBody inv := by
  unfold Directives.becomes at h
  dsimp only at h
  split at h
  · cases h
  · cases h
    exact inv.isBody_block d.meets? _
  · cases h
    exact ⟨rfl, by simp [Node.make], rfl, rfl⟩
  · split at h <;> cases h
  · split at h <;> cases h

/-- A container stands on the line of its directive and is read from its body. -/
theorem nested_becomes {d : Directives} {inv : Invocation} {format : Option Format} {content : List Char}
    {contentLine line : Nat} (h : d.becomes inv = some (.nested format content contentLine line)) :
    content = inv.content ∧ contentLine = inv.contentLine ∧ line = inv.line := by
  unfold Directives.becomes at h
  dsimp only at h
  split at h
  · cases h
  · cases h
  · cases h
  · split at h
    · cases h
    · cases h
      exact ⟨rfl, rfl, rfl⟩
  · split at h
    · cases h
    · cases h
      exact ⟨rfl, rfl, rfl⟩

end Transcript.Doc
