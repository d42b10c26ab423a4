import ProgramTrees.JsonReader
import ProgramTrees.TreeReader

namespace ProgramTrees

/-- Every kind of line end becomes a line feed. -/
def unifyLineEnds : List Char → List Char
  | [] => []
  | '\r' :: '\n' :: rest => '\n' :: unifyLineEnds rest
  | '\r' :: rest => '\n' :: unifyLineEnds rest
  | c :: rest => c :: unifyLineEnds rest

inductive FileError where
  | json (text : List Char) (error : JsonError)
  | tree (error : TreeError)

/-- Whether the failure is reported as one of the file's format. -/
def FileError.isReported : FileError → Bool
  | .json _ (.malformed ..) | .tree (.malformed ..) => true
  | .json _ (.longInteger _) | .tree (.compoundType _) | .tree .hugeInteger
  | .tree .longInteger => false

def FileError.message (source : Option String) : FileError → String
  | .json text (.malformed fault left) =>
    withSource source s!"Invalid JSON: {JsonError.describe text (.malformed fault left)}"
  | .json text (.longInteger digits) => JsonError.describe text (.longInteger digits)
  | .tree error => error.message source

def readTree (text : String) : Except FileError Program := do
  let cs := unifyLineEnds text.toList
  let json ← (Json.parse cs).mapError (.json cs)
  (Program.ofJson json).mapError .tree

end ProgramTrees
