import Transcript.Markdown.Reader

/-!
# Documents from texts

A text is read in the format that its name tells.
-/

namespace Transcript.Doc

/-- Reads a text in some format into children of a node; its first line has the given number. -/
def readInto (format : Format) (d : Directives) (parent : NodeId) (text : List Char) (first : Nat) :
    Building Unit :=
  match format with
  | .rst => Rst.readInto d parent text first
  | .markdown => Markdown.readInto d parent text first

/-- **The document of a text.** -/
def Document.ofText (format : Format) (text : List Char) (source : Option String)
    (d : Directives) : Document :=
  ((readInto format d Document.root text 1).run (.new source)).2

end Transcript.Doc
