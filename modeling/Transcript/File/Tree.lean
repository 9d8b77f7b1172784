import Transcript.Path
import Transcript.Text.Search

/-!
# Trees of files

The files below the working directory. A path is followed part by part; every part but the last
has to be a folder.
-/

namespace Transcript.File

/-- A part of a path. -/
abbrev Part := List Char

/-- A place below the working directory: the names that lead to it. -/
abbrev Place := List Part

/-- **Why a file cannot be read.** -/
inductive ReadError
  /-- There is nothing at its path. -/
  | notFound
  /-- Its path goes through a file. -/
  | throughFile
  /-- It is a folder. -/
  | isFolder
  /-- It is no text. -/
  | notText
  /-- Something else, in the words of the system. -/
  | other (text : String)
  deriving DecidableEq, Repr

/-- The wording of an error, with its number in the system. -/
def ReadError.message : ReadError → String
  | .notFound => "No such file or directory (os error 2)"
  | .throughFile => "Not a directory (os error 20)"
  | .isFolder => "Is a directory (os error 21)"
  | .notText => "stream did not contain valid UTF-8"
  | .other text => text

/-- The text in the bytes of a file. -/
def textOf (content : ByteArray) : Except ReadError (List Char) :=
  match String.fromUTF8? content with
  | some s => .ok s.toList
  | none => .error .notText

/-- **A tree of files.** -/
structure Tree where
  /-- The files with what is in them. -/
  files : List (Place × ByteArray)
  /-- The folders with the places of all files above them. -/
  folders : List Place

namespace Tree

/-- The folders that lead to a place. -/
def above (place : Place) : List Place := (List.range place.length).map place.take

/-- A tree with the working directory only. -/
def empty : Tree := ⟨[], [[]]⟩

/-- Adds folders, unless they are there. -/
def addFolders (t : Tree) (folders : List Place) : Tree :=
  { t with folders := t.folders ++ folders.filter fun f => !t.folders.contains f }

/-- Adds a folder and those that lead to it. -/
def addFolder (t : Tree) (place : Place) : Tree := t.addFolders (above place ++ [place])

/-- Adds a file and the folders that lead to it. -/
def addFile (t : Tree) (place : Place) (content : ByteArray) : Tree :=
  { t.addFolders (above place) with files := (place, content) :: t.files }

/-- Whether there is a folder at a place. -/
def hasFolder (t : Tree) (place : Place) : Bool := t.folders.contains place

/-- What is in the file at a place. -/
def content? (t : Tree) (place : Place) : Option ByteArray :=
  (t.files.find? fun f => f.1 == place).map Prod.snd

/-- Follows one part of a path from a place. -/
def follow (t : Tree) (place : Place) (part : Part) : Except ReadError Place :=
  if !t.hasFolder place then .error .throughFile
  else if part.isEmpty || part = ['.'] then .ok place
  else if part = ['.', '.'] then if place.isEmpty then .error .notFound else .ok place.dropLast
  else
    let place := place ++ [part]
    if t.hasFolder place || (t.content? place).isSome then .ok place else .error .notFound

/-- **The place of a path.** -/
def resolve (t : Tree) (path : List Char) : Except ReadError Place :=
  if path.isEmpty || Path.isAbsolute path then .error .notFound
  else (Text.splitOn ['/'] path).foldlM t.follow []

/-- **The text of the file** at a path. -/
def read (t : Tree) (path : List Char) : Except ReadError (List Char) := do
  let place ← t.resolve path
  match t.content? place with
  | some content => textOf content
  | none => .error .isFolder

/-- The names in a folder. -/
def children (t : Tree) (place : Place) : List Part :=
  let below (p : Place) : Option Part :=
    if p.dropLast == place then p.getLast? else none
  (t.folders.filterMap below) ++ t.files.filterMap fun f => below f.1

/-- The folders below a place, itself included. -/
def foldersFrom (t : Tree) (place : Place) : List Place :=
  t.folders.filter place.isPrefixOf

end Tree

end Transcript.File
