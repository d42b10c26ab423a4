import ProgramTrees.Binary
import ProgramTrees.Table

namespace ProgramTrees

/-- A JSON value. Integers have any size and are apart from the other numbers; the fields of an
object keep their order. -/
inductive Json where
  | null
  | bool (value : Bool)
  | int (value : Int)
  | float (value : Double)
  | str (value : String)
  | arr (items : List Json)
  | obj (fields : List (String × Json))

/-- The value of a field of an object. -/
def Json.field? (key : String) : Json → Option Json
  | .obj fields => Table.get? fields key
  | _ => none

end ProgramTrees
