import Transcript.File.Tree

/-!
# File patterns

A pattern is a path whose parts may have wildcards: a question mark stands for one character, an
asterisk for any text, brackets for one of some characters, and two asterisks as a whole part for
any number of folders.
-/

namespace Transcript.File

/-- A range of characters, with both ends. -/
structure CharRange where
  /-- The first character. -/
  first : Char
  /-- The last character. -/
  last : Char
  deriving DecidableEq, Repr

/-- **A piece of a pattern.** -/
inductive Glob
  /-- A character that stands for itself. -/
  | char (c : Char)
  /-- Any character. -/
  | any
  /-- Any text. -/
  | sequence
  /-- Any number of folders. -/
  | folders
  /-- A character of some ranges, or of none of them. -/
  | within (negated : Bool) (ranges : List CharRange)
  deriving DecidableEq, Repr

/-- **What can be wrong with a pattern.** -/
inductive PatternFault
  /-- More than two asterisks in a row. -/
  | manyAsterisks
  /-- Two asterisks that are no part of their own. -/
  | mixedPart
  /-- Brackets that are not closed. -/
  | openBracket
  deriving DecidableEq, Repr

/-- A fault with its place in the pattern, counted from zero. -/
structure PatternError where
  /-- The place. -/
  position : Nat
  /-- The fault. -/
  fault : PatternFault
  deriving DecidableEq, Repr

/-- The wording of a fault. -/
def PatternFault.message : PatternFault → String
  | .manyAsterisks => "wildcards are either regular `*` or recursive `**`"
  | .mixedPart => "recursive wildcards must form a single path component"
  | .openBracket => "invalid range pattern"

/-- The wording of an error. -/
def PatternError.message (e : PatternError) : String :=
  s!"Pattern syntax error near position {e.position}: {e.fault.message}"

/-! ### Reading patterns -/

/-- The ranges between brackets: two characters with a dash between them, or one. -/
def rangesOf : List Char → List CharRange
  | a :: '-' :: b :: cs => ⟨a, b⟩ :: rangesOf cs
  | a :: cs => ⟨a, a⟩ :: rangesOf cs
  | [] => []

/-- What stands in brackets, by what follows the opening one: whether it is negated, and the text.
The first character of the text never closes the brackets. -/
def bracket? (s : List Char) : Option (Bool × List Char) :=
  let negated := s.head? == some '!'
  match if negated then s.drop 1 else s with
  | [] => none
  | c :: cs =>
    let rest := cs.takeWhile (· != ']')
    if rest.length < cs.length then some (negated, c :: rest) else none

/-- The piece for a number of asterisks, and how many further characters belong to it, by their
place, the character before them, and the rest. -/
def asterisks (position count : Nat) (previous : Option Char) (rest : List Char) :
    Except PatternError (Glob × Nat) :=
  if count = 1 then .ok (.sequence, 0)
  else if 2 < count then .error ⟨position + 2, .manyAsterisks⟩
  else if previous.any (· != '/') then .error ⟨position - 1, .mixedPart⟩
  else
    match rest with
    | [] => .ok (.folders, 1)
    | '/' :: _ => .ok (.folders, 2)
    | _ => .error ⟨position + 2, .mixedPart⟩

/-- The pieces of a pattern after so many characters, from a place with a character before it. -/
def globsFrom : Nat → Nat → Option Char → List Char → Except PatternError (List Glob)
  | _, _, _, [] => .ok []
  | skip + 1, position, _, c :: cs => globsFrom skip (position + 1) (some c) cs
  | 0, position, previous, c :: cs => do
    let (glob, skip) ←
      if c = '*' then
        let more := cs.takeWhile (· == '*')
        asterisks position (more.length + 1) previous (cs.drop more.length)
      else if c = '[' then
        match bracket? cs with
        | some (negated, text) =>
          .ok (.within negated (rangesOf text), text.length + 1 + if negated then 1 else 0)
        | none => .error ⟨position, .openBracket⟩
      else if c = '?' then .ok (.any, 0)
      else .ok (.char c, 0)
    let globs ← globsFrom skip (position + 1) (some c) cs
    return glob :: globs

/-- **The pieces of a pattern.** -/
def globsOf (s : List Char) : Except PatternError (List Glob) := globsFrom 0 0 none s

/-- The patterns of the parts of a path. The whole path has to be a pattern, too. -/
def partsOf (pattern : List Char) : Except PatternError (List (List Glob)) := do
  let _ ← globsOf pattern
  let parts := Text.splitOn ['/'] pattern
  let parts := if parts.getLast? == some [] then parts.dropLast else parts
  parts.mapM globsOf

/-! ### Matching -/

/-- Whether a piece accepts a character. -/
def Glob.acceptsChar (c : Char) : Glob → Bool
  | .char d => c == d
  | .any => true
  | .within negated ranges => negated != ranges.any fun r => r.first ≤ c && c ≤ r.last
  | .sequence | .folders => false

/-- Whether a condition holds for the rest of a text at some place. -/
def anyRest (p : List Char → Bool) : List Char → Bool
  | [] => p []
  | c :: cs => p (c :: cs) || anyRest p cs

/-- **Whether pieces accept a name.** -/
def accepts : List Glob → List Char → Bool
  | [], s => s.isEmpty
  | .sequence :: gs, s | .folders :: gs, s => anyRest (accepts gs) s
  | g :: gs, s =>
    match s with
    | c :: cs => g.acceptsChar c && accepts gs cs
    | [] => false

/-- The text of pieces without wildcards. -/
def literal? : List Glob → Option (List Char)
  | [] => some []
  | .char c :: gs => (literal? gs).map (c :: ·)
  | _ => none

/-- What has been found: a place, and the path that leads to it. -/
abbrev Found := Place × List Char

/-- Follows one part of a path, if it leads somewhere. -/
def Tree.enter? (t : Tree) (f : Found) (part : Part) : Option Found :=
  match t.follow f.1 part with
  | .ok place => some (place, if f.2.isEmpty then part else Path.join f.2 part)
  | .error _ => none

/-- What lies in a folder under a name that pieces accept. -/
def Tree.accepted (t : Tree) (f : Found) (globs : List Glob) : List Found :=
  ((t.children f.1).filter (accepts globs)).filterMap (t.enter? f)

/-- The dots that lead to a folder itself and to the one around it, as far as pieces that begin with
a dot accept them. -/
def dotsAccepted (globs : List Glob) : List Part :=
  if globs.head? == some (.char '.') then [['.'], ['.', '.']].filter (accepts globs) else []

/-- The folders below a folder, itself included. -/
def Tree.nested (t : Tree) (f : Found) : List Found :=
  (t.foldersFrom f.1).map fun place => (place, (place.drop f.1.length).foldl Path.join f.2)

/-- **What parts of a pattern lead to.** -/
def Tree.matching (t : Tree) : List (List Glob) → Found → List Found
  | [], f => [f]
  | [.folders] :: [.folders] :: parts, f => t.matching ([.folders] :: parts) f
  | [[.folders]], f => (t.nested f).filter fun g => g.1 != f.1
  | [.folders] :: globs :: parts, f =>
    (t.nested f).flatMap fun g => (t.accepted g globs).flatMap (t.matching parts)
  | globs :: parts, f =>
    match literal? globs with
    | some part => (t.enter? f part).toList.flatMap (t.matching parts)
    | none =>
      (t.accepted f globs ++ (dotsAccepted globs).filterMap (t.enter? f)).flatMap
        (t.matching parts)

/-- A path without others that have the same parts, which follow. -/
def distinct : List (List Char) → List (List Char)
  | [] => []
  | p :: ps =>
    match distinct ps with
    | q :: qs => if Path.parts p = Path.parts q then p :: qs else p :: q :: qs
    | [] => [p]

/-- **The paths of the files** that any of some patterns accepts, in order. -/
def Tree.filesMatching (t : Tree) (patterns : List (List Char)) :
    Except PatternError (List (List Char)) := do
  let found ← patterns.mapM fun pattern => do
    let parts ← partsOf pattern
    if Path.isAbsolute pattern || pattern.getLast? == some '/' then return []
    else return ((t.matching parts ([], [])).filter fun f => (t.content? f.1).isSome).map Prod.snd
  return distinct (found.flatten.mergeSort fun p q => Path.comesBefore (Path.parts p) (Path.parts q))

end Transcript.File
