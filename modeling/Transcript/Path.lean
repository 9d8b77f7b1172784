import Transcript.Text.Search

/-!
# Paths

Names of files as texts with slashes. Empty parts and dots between slashes mean nothing.
-/

namespace Transcript.Path

/-- The parts of a path that mean something, a dot at the beginning included. -/
def parts (path : List Char) : List (List Char) :=
  match Text.splitOn ['/'] path with
  | [] => []
  | first :: rest =>
    (if first.isEmpty then [] else [first]) ++ rest.filter fun p => !p.isEmpty && p != ['.']

/-- The last part of a path, if it names something. -/
def fileName? (path : List Char) : Option (List Char) :=
  match (parts path).getLast? with
  | some last => if last = ['.', '.'] || last = ['.'] then none else some last
  | none => none

/-- The ending of a file name after its last dot; a dot at the beginning starts no ending. -/
def extension? (path : List Char) : Option (List Char) :=
  (fileName? path).bind fun name =>
    let back := name.reverse
    match back.dropWhile (· != '.') with
    | [] | ['.'] => none
    | _ => some (back.takeWhile (· != '.')).reverse

/-- Whether a path begins at the root. -/
def isAbsolute (path : List Char) : Bool := path.head? == some '/'

/-- **A path continued** by another one. A path that begins at the root stands for itself. -/
def join (path next : List Char) : List Char :=
  if isAbsolute next || path.isEmpty then next
  else if path.getLast? == some '/' then path ++ next
  else path ++ '/' :: next

/-- Whether a list of parts comes before another one, or is the same. A step up comes before all
names. -/
def comesBefore : List (List Char) → List (List Char) → Bool
  | [], _ => true
  | _ :: _, [] => false
  | p :: ps, q :: qs =>
    if p = q then comesBefore ps qs
    else if p = ['.', '.'] || q = ['.', '.'] then p = ['.', '.']
    else p < q

end Transcript.Path
