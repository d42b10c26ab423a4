import ProgramTrees.JsonText
import ProgramTrees.Tree

namespace ProgramTrees

variable {τ : Type}

/-- A node is an object; its kind is the first field. -/
def nodeJson (kind : String) (fields : List (String × Json)) : Json :=
  .obj (("kind", .str kind) :: fields)

mutual

def Node.toJson : Node τ → Json
  | .int _ n => nodeJson "int" [("value", .int n.toInt)]
  | .float _ x => nodeJson "float" [("value", .float x)]
  | .var _ name => nodeJson "var" [("name", .str name)]
  | .apply _ op operands =>
    nodeJson "operator" [("operator", .str op.name), ("operands", .arr (Node.allToJson operands))]
  | .assign _ name value =>
    nodeJson "assignment" [("name", .str name), ("value", value.toJson)]
  | .sequence _ statements => nodeJson "sequence" [("statements", .arr (Node.allToJson statements))]
  | .declare _ ty name none => nodeJson "declaration" [("type", .str ty.name), ("name", .str name)]
  | .declare _ ty name (some value) =>
    nodeJson "declaration" [("type", .str ty.name), ("name", .str name), ("value", value.toJson)]
  | .print _ text none => nodeJson "print" [("prefix", .str text)]
  | .print _ text (some value) =>
    nodeJson "print" [("prefix", .str text), ("expression", value.toJson)]
  | .loop _ condition body =>
    nodeJson "while" [("condition", condition.toJson), ("body", body.toJson)]

def Node.allToJson : List (Node τ) → List Json
  | [] => []
  | n :: ns => n.toJson :: Node.allToJson ns

end

def Node.dump (n : Node τ) : String :=
  n.toJson.text .indented ++ "\n"

end ProgramTrees
