import ProgramTrees.Quoted
import ProgramTrees.Tree
import ProgramTrees.Value

namespace ProgramTrees

inductive Step where
  | statement (index : Nat)
  | value
  | expression
  | condition
  | body
  | operand (index : Nat)
deriving DecidableEq

def Step.text : Step → String
  | .statement index => s!".statements[{index}]"
  | .value => ".value"
  | .expression => ".expression"
  | .condition => ".condition"
  | .body => ".body"
  | .operand index => s!".operands[{index}]"

/-- The place of a node in a tree, from the root on. -/
abbrev Place := List Step

def Place.text (place : Place) : String :=
  "$" ++ String.join (place.map Step.text)

inductive NodeClass where
  | statement
  | expression
deriving DecidableEq

def NodeClass.kinds : NodeClass → List String
  | .statement => ["sequence", "declaration", "print", "while", "assignment"]
  | .expression => ["int", "float", "var", "operator", "assignment"]

/-- What is wrong with a node. Kinds, types and operators are there as the message shows them. -/
inductive NodeFault where
  | notObject (found : Json)
  | wrongKind (found : String) (expected : NodeClass)
  | missingField (key kind : String)
  | badName
  | notList (key : String)
  | textNotString
  | notInteger
  | notNumber
  | outOfRange (value : Int)
  | unknownType (found : String)
  | unknownOperator (found : String)

def NodeFault.message : NodeFault → String
  | .notObject found => s!"Expected a node object, got {found.typeName}"
  | .wrongKind found expected =>
    let kinds := ", ".intercalate (expected.kinds.map quoted)
    s!"Unexpected node kind {found}; expected one of ({kinds})"
  | .missingField key kind => s!"Missing field '{key}' for {quoted kind} node"
  | .badName => "Variable name must be a non-empty string"
  | .notList key => s!"'{key}' must be a list"
  | .textNotString => "'prefix' must be a string"
  | .notInteger => "'int' value must be an integer"
  | .notNumber => "'float' value must be a number"
  | .outOfRange value =>
    match integerText? value with
    | some text => s!"Integer literal out of 32-bit range: {text}"
    | none => tooManyDigits
  | .unknownType found => s!"Unknown type {found}"
  | .unknownOperator found => s!"Unknown operator {found}"

/-- Why a value is no tree. A type that is a list or an object cannot be looked up at all, an
integer beyond the greatest double has no double, and a message cannot show an integer of too many
digits; these failures do not know their place. -/
inductive TreeError where
  | malformed (place : Place) (fault : NodeFault)
  | compoundType (found : Json)
  | hugeInteger
  | longInteger

/-- A name of a file before a message, unless it is empty. -/
def withSource (source : Option String) (message : String) : String :=
  match source with
  | none | some "" => message
  | some name => s!"{name}: {message}"

def TreeError.message (source : Option String) : TreeError → String
  | .malformed place fault => withSource source s!"{fault.message} (at {place.text})"
  | .compoundType found => s!"unhashable type: '{found.typeName}'"
  | .hugeInteger => "int too large to convert to float"
  | .longInteger => tooManyDigits

abbrev TreeResult := Except TreeError

def fail {α : Type} (place : Place) (fault : NodeFault) : TreeResult α :=
  .error (.malformed place fault)

/-- A value as a message shows it. -/
def shown (json : Json) : TreeResult String :=
  json.quoted?.elim (.error .longInteger) .ok

theorem sizeOf_get? {fields : Table String Json} {key : String} {value : Json}
    (h : fields.get? key = some value) : sizeOf value < sizeOf fields := by
  induction fields with
  | nil => simp at h
  | cons field rest ih =>
    obtain ⟨k, v⟩ := field
    rw [Table.get?_cons] at h
    simp only [List.cons.sizeOf_spec, Prod.mk.sizeOf_spec]
    split at h
    next =>
      have eq : v = value := Option.some.inj h
      subst eq
      omega
    next =>
      have := ih h
      omega

/-- The fields of the node at a place and its kind, which is one of its class. -/
def nodeFields (place : Place) (expected : NodeClass) (json : Json) :
    TreeResult ({ fields : List (String × Json) // sizeOf fields < sizeOf json } × String) :=
  match json with
  | .obj fields =>
    match Table.get? fields "kind" with
    | some (.str kind) =>
      if kind ∈ expected.kinds then .ok (⟨fields, by simp⟩, kind)
      else fail place (.wrongKind (quoted kind) expected)
    | found => do fail place (.wrongKind (← shown (found.getD .null)) expected)
  | found => fail place (.notObject found)

def field (place : Place) (fields : List (String × Json)) (kind key : String) :
    TreeResult { value : Json // sizeOf value < sizeOf fields } :=
  match found : Table.get? fields key with
  | some value => .ok ⟨value, sizeOf_get? found⟩
  | none => fail place (.missingField key kind)

def optionalValue (fields : List (String × Json)) (key : String) : Option Json :=
  match Table.get? fields key with
  | some .null => none
  | value => value

def nameField (place : Place) (fields : List (String × Json)) (kind : String) :
    TreeResult String := do
  match (← field place fields kind "name").val with
  | .str name => if name.isEmpty then fail place .badName else .ok name
  | _ => fail place .badName

def isInt32 (n : Int) : Bool :=
  -2147483648 ≤ n && n ≤ 2147483647

def intValue (place : Place) : Json → TreeResult Int32
  | .int n => if isInt32 n then .ok (Int32.ofInt n) else fail place (.outOfRange n)
  | _ => fail place .notInteger

def floatValue (place : Place) : Json → TreeResult Double
  | .float x => .ok x
  | .int n => (doubleOfInt? n).elim (.error .hugeInteger) .ok
  | _ => fail place .notNumber

def tyValue (place : Place) : Json → TreeResult Ty
  | .str name => (Ty.ofName? name).elim (fail place (.unknownType (quoted name))) .ok
  | .arr items => .error (.compoundType (.arr items))
  | .obj fields => .error (.compoundType (.obj fields))
  | found => do fail place (.unknownType (← shown found))

def operatorValue (place : Place) : Json → TreeResult Operator
  | .str name => (Operator.ofName? name).elim (fail place (.unknownOperator (quoted name))) .ok
  | found => do fail place (.unknownOperator (← shown found))

def listValue (place : Place) (key : String) (json : Json) :
    TreeResult { items : List Json // sizeOf items < sizeOf json } :=
  match json with
  | .arr items => .ok ⟨items, by simp⟩
  | _ => fail place (.notList key)

def textValue (place : Place) : Json → TreeResult String
  | .str text => .ok text
  | _ => fail place .textNotString

mutual

/-- Reads the expression at a place. -/
def readExpr (place : Place) (json : Json) : TreeResult (Node Unit) := do
  let (⟨fields, _⟩, kind) ← nodeFields place .expression json
  match kind with
  | "int" => return .int () (← intValue place (← field place fields kind "value").val)
  | "float" => return .float () (← floatValue place (← field place fields kind "value").val)
  | "var" => return .var () (← nameField place fields kind)
  | "operator" =>
    let op ← operatorValue place (← field place fields kind "operator").val
    let ⟨found, _⟩ ← field place fields kind "operands"
    let ⟨items, _⟩ ← listValue place "operands" found
    return .apply () op (← readOperands place 0 items)
  | _ =>
    let name ← nameField place fields kind
    let ⟨value, _⟩ ← field place fields kind "value"
    return .assign () name (← readExpr (place ++ [.value]) value)
termination_by sizeOf json
decreasing_by all_goals omega

/-- Reads the operands of the node at a place from the one with the given index on. -/
def readOperands (place : Place) (index : Nat) : List Json → TreeResult (List (Node Unit))
  | [] => .ok []
  | item :: items => do
    let e ← readExpr (place ++ [.operand index]) item
    return e :: (← readOperands place (index + 1) items)
termination_by items => sizeOf items

end

def readOptionalExpr (place : Place) : Option Json → TreeResult (Option (Node Unit))
  | none => .ok none
  | some value => return some (← readExpr place value)

mutual

/-- Reads the statement at a place. -/
def readStmt (place : Place) (json : Json) : TreeResult (Node Unit) := do
  let (⟨fields, _⟩, kind) ← nodeFields place .statement json
  match kind with
  | "sequence" =>
    let ⟨found, _⟩ ← field place fields kind "statements"
    let ⟨items, _⟩ ← listValue place "statements" found
    return .sequence () (← readStmts place 0 items)
  | "declaration" =>
    let ty ← tyValue place (← field place fields kind "type").val
    let name ← nameField place fields kind
    return .declare () ty name
      (← readOptionalExpr (place ++ [.value]) (optionalValue fields "value"))
  | "print" =>
    let text ← textValue place (← field place fields kind "prefix").val
    return .print () text
      (← readOptionalExpr (place ++ [.expression]) (optionalValue fields "expression"))
  | "while" =>
    let condition ←
      readExpr (place ++ [.condition]) (← field place fields kind "condition").val
    let ⟨body, _⟩ ← field place fields kind "body"
    return .loop () condition (← readStmt (place ++ [.body]) body)
  | _ =>
    let name ← nameField place fields kind
    let value ← field place fields kind "value"
    return .assign () name (← readExpr (place ++ [.value]) value.val)
termination_by sizeOf json
decreasing_by all_goals omega

/-- Reads the statements of the node at a place from the one with the given index on. -/
def readStmts (place : Place) (index : Nat) : List Json → TreeResult (List (Node Unit))
  | [] => .ok []
  | item :: items => do
    let s ← readStmt (place ++ [.statement index]) item
    return s :: (← readStmts place (index + 1) items)
termination_by items => sizeOf items

end

/-- Reads a program, whose root is a statement. -/
def Program.ofJson (json : Json) : TreeResult Program :=
  readStmt [] json

end ProgramTrees
