import Transcript.Flag.Basic

/-!
# Overrides of flags

A directive or an inline option switches flags on or off over a default set. Overrides keep the flags
that are switched on and those that are switched off; what is said later takes a flag out of the other
set.

Results:
* `setting_eq`: what is said about a single flag.
* `apply_enable`, `apply_disable`: flags that are switched on are added to the default set, flags that
  are switched off are taken out of it.
-/

namespace Transcript

/-- **Overrides** of single flags. -/
@[ext] structure Overrides where
  /-- The flags that are switched on. -/
  on : FlagSet
  /-- The flags that are switched off. -/
  off : FlagSet

namespace Overrides

instance : DecidableEq Overrides := fun a b =>
  decidable_of_iff (a.on = b.on ∧ a.off = b.off) Overrides.ext_iff.symm

/-- Nothing is overridden. -/
def empty : Overrides := ⟨.empty, .empty⟩

instance : Inhabited Overrides := ⟨empty⟩

/-- Whether no flag is overridden. -/
def isNone (o : Overrides) : Bool := o.on.isEmpty && o.off.isEmpty

/-- Switches the flags of a set on. -/
def enable (o : Overrides) (flags : FlagSet) : Overrides := ⟨o.on.union flags, o.off.diff flags⟩

/-- Switches the flags of a set off. -/
def disable (o : Overrides) (flags : FlagSet) : Overrides := ⟨o.on.diff flags, o.off.union flags⟩

/-- Switches the flags of a set on or off. -/
def assign (o : Overrides) (flags : FlagSet) (value : Bool) : Overrides :=
  if value then o.enable flags else o.disable flags

/-- What is said about a set of flags: an answer only where all of them agree. -/
def get? (o : Overrides) (flags : FlagSet) : Option Bool :=
  if o.on.includes flags then some true else if o.off.includes flags then some false else none

/-- What is said about a single flag. -/
def setting (o : Overrides) (f : Flag) : Option Bool := o.get? (.single f)

/-- The default set with the overrides carried out. -/
def apply (o : Overrides) (base : FlagSet) : FlagSet := (base.union o.on).diff o.off

/-- The first overrides with the second on top of them: their parts are switched on and off one after
the other. -/
def merge (o later : Overrides) : Overrides :=
  later.off.parts.foldl (fun o part => o.disable part.2)
    (later.on.parts.foldl (fun o part => o.enable part.2) o)

/-- One token, `+NAME` or `-NAME`, carried out. -/
def push (o : Overrides) (token : List Char) : Except OptionError Overrides :=
  match token with
  | '+' :: name => named true name
  | '-' :: name => named false name
  | _ => .error (.missingSign (String.ofList token))
where
  /-- The single flag of a name gets its value. -/
  named (value : Bool) (name : List Char) : Except OptionError Overrides :=
    match Flag.ofName? (String.ofList name) with
    | some flag => .ok (o.assign (.single flag) value)
    | none => .error (.unknownFlag (String.ofList name))

/-- Reads overrides from a text; the first bad token is the error. -/
def ofText (text : String) : Except OptionError Overrides :=
  (optionTokens text).foldlM push empty

/-- One token carried out, or what is wrong with it added to a list. -/
def pushLenient (found : Overrides × List OptionError) (token : List Char) :
    Overrides × List OptionError :=
  match found.1.push token with
  | .ok o => (o, found.2)
  | .error e => (found.1, found.2 ++ [e])

/-- Reads overrides from a text, passing over bad tokens and listing what is wrong with them. -/
def ofTextLenient (text : String) : Overrides × List OptionError :=
  (optionTokens text).foldl pushLenient (empty, [])

/-- Writes overrides: flags switched on, then those switched off, in declaration order. -/
def toText (o : Overrides) : String :=
  String.intercalate " " (o.on.parts.map ("+" ++ ·.1) ++ o.off.parts.map ("-" ++ ·.1))

theorem has_apply (o : Overrides) (base : FlagSet) (f : Flag) :
    (o.apply base).has f = ((base.has f || o.on.has f) && !o.off.has f) := rfl

@[simp] theorem apply_empty (base : FlagSet) : empty.apply base = base := by
  ext f
  simp [has_apply, empty]

/-- What is said about a flag: that it is on goes before that it is off. -/
theorem setting_eq (o : Overrides) (f : Flag) :
    o.setting f = if o.on.has f then some true else if o.off.has f then some false else none := by
  have hincludes (a : FlagSet) : a.includes (.single f) = a.has f := by
    rw [Bool.eq_iff_iff, FlagSet.includes_iff]
    simp
  unfold setting get?
  rw [hincludes, hincludes]

/-- A flag of which nothing is said stays as it is. -/
theorem has_apply_of_setting {o : Overrides} {f : Flag} (h : o.setting f = none) (base : FlagSet) :
    (o.apply base).has f = base.has f := by
  rw [setting_eq] at h
  rw [has_apply]
  cases hon : o.on.has f with
  | true => simp [hon] at h
  | false =>
    cases hoff : o.off.has f with
    | true => simp [hon, hoff] at h
    | false => simp

theorem apply_enable (o : Overrides) (flags base : FlagSet) :
    (o.enable flags).apply base = (o.apply base).union flags := by
  ext f
  simp only [has_apply, enable, FlagSet.has_union, FlagSet.has_diff]
  cases flags.has f <;> simp

theorem apply_disable (o : Overrides) (flags base : FlagSet) :
    (o.disable flags).apply base = (o.apply base).diff flags := by
  ext f
  simp only [has_apply, disable, FlagSet.has_union, FlagSet.has_diff]
  cases flags.has f <;> simp

end Overrides

end Transcript
