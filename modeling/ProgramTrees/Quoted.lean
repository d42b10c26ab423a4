import ProgramTrees.IntegerText
import ProgramTrees.JsonText
import ProgramTrees.Printable

namespace ProgramTrees

def hexDigits (width n : Nat) : List Char :=
  (List.range width).reverse.map fun i => Nat.digitChar (n / Nat.pow 16 i % 16)

/-- How a character stands between quotes of the given kind in a message. What has no printed form
is escaped by its code, as short as its size allows. -/
def quotedChar (quote c : Char) : List Char :=
  if c = quote ∨ c = '\\' then ['\\', c]
  else if c = '\t' then ['\\', 't']
  else if c = '\n' then ['\\', 'n']
  else if c = '\r' then ['\\', 'r']
  else if isPrintable c then [c]
  else if c.toNat ≤ 0xFF then '\\' :: 'x' :: hexDigits 2 c.toNat
  else if c.toNat ≤ 0xFFFF then '\\' :: 'u' :: hexDigits 4 c.toNat
  else '\\' :: 'U' :: hexDigits 8 c.toNat

/-- Single quotes, unless the text holds one of them and no double quote. -/
def quoteFor (cs : List Char) : Char :=
  if '\'' ∈ cs ∧ '"' ∉ cs then '"' else '\''

def quoted (s : String) : String :=
  let quote := quoteFor s.toList
  String.ofList (quote :: s.toList.flatMap (quotedChar quote) ++ [quote])

mutual

/-- How a value stands in a message. There is no text for one that holds an integer of too many
digits. -/
def Json.quoted? : Json → Option String
  | .null => some "None"
  | .bool true => some "True"
  | .bool false => some "False"
  | .int n => integerText? n
  | .float x => some x.literalText
  | .str s => some (quoted s)
  | .arr items => do
    return "[" ++ ", ".intercalate (← Json.allQuoted? items) ++ "]"
  | .obj fields => do
    return "\x7b" ++ ", ".intercalate (← Json.fieldsQuoted? fields) ++ "\x7d"

def Json.allQuoted? : List Json → Option (List String)
  | [] => some []
  | item :: items => do
    return (← item.quoted?) :: (← Json.allQuoted? items)

def Json.fieldsQuoted? : List (String × Json) → Option (List String)
  | [] => some []
  | (key, value) :: fields => do
    return (quoted key ++ ": " ++ (← value.quoted?)) :: (← Json.fieldsQuoted? fields)

end

def Json.typeName : Json → String
  | .null => "NoneType"
  | .bool _ => "bool"
  | .int _ => "int"
  | .float _ => "float"
  | .str _ => "str"
  | .arr _ => "list"
  | .obj _ => "dict"

end ProgramTrees
