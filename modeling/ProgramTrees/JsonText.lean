import ProgramTrees.Json
import ProgramTrees.NumberText

namespace ProgramTrees

/-- The escape of a unit of sixteen bits. -/
def unicodeEscape (unit : Nat) : List Char :=
  '\\' :: 'u' :: [unit / 4096 % 16, unit / 256 % 16, unit / 16 % 16, unit % 16].map Nat.digitChar

/-- The two units of a character above the first plane. -/
def highUnit (code : Nat) : Nat := 0xD800 + (code - 0x10000) / 0x400

def lowUnit (code : Nat) : Nat := 0xDC00 + (code - 0x10000) % 0x400

/-- How a character stands in a JSON string: printable ASCII as it is, but for the quote and the
backslash, and everything else escaped. -/
def escapeChar (c : Char) : List Char :=
  if c = '"' then ['\\', '"']
  else if c = '\\' then ['\\', '\\']
  else if c = '\n' then ['\\', 'n']
  else if c = '\r' then ['\\', 'r']
  else if c = '\t' then ['\\', 't']
  else if c = '\x08' then ['\\', 'b']
  else if c = '\x0c' then ['\\', 'f']
  else if 0x20 ≤ c.toNat ∧ c.toNat ≤ 0x7E then [c]
  else if c.toNat < 0x10000 then unicodeEscape c.toNat
  else unicodeEscape (highUnit c.toNat) ++ unicodeEscape (lowUnit c.toNat)

def jsonString (s : String) : List Char :=
  '"' :: s.toList.flatMap escapeChar ++ ['"']

/-- A number with a fraction or exponent as JSON text writes it; the infinities and NaN have names
of their own. -/
def Binary.jsonText : Double → String
  | .nan => "NaN"
  | .infinite negative => withSign negative "Infinity"
  | .finite negative m q _ => finiteLiteral negative m q

/-- The blanks inside the brackets of a value at a nesting level. -/
structure JsonLayout where
  /-- What follows an opening bracket and precedes its closing one. -/
  gap : Nat → List Char
  /-- What follows a comma. -/
  afterComma : Nat → List Char

def JsonLayout.line : JsonLayout where
  gap _ := []
  afterComma _ := [' ']

/-- Each item on its own line, two blanks deeper than its brackets. -/
def JsonLayout.indented : JsonLayout where
  gap level := '\n' :: List.replicate (2 * level) ' '
  afterComma level := '\n' :: List.replicate (2 * level) ' '

mutual

/-- The characters of a value inside `level` pairs of brackets. -/
def Json.chars (layout : JsonLayout) (level : Nat) : Json → List Char
  | .null => ['n', 'u', 'l', 'l']
  | .bool true => ['t', 'r', 'u', 'e']
  | .bool false => ['f', 'a', 'l', 's', 'e']
  | .int n => (toString n).toList
  | .float x => x.jsonText.toList
  | .str s => jsonString s
  | .arr [] => ['[', ']']
  | .arr (item :: items) =>
    '[' :: layout.gap (level + 1) ++ item.chars layout (level + 1) ++
      Json.itemsChars layout (level + 1) items ++ layout.gap level ++ [']']
  | .obj [] => ['\x7b', '\x7d']
  | .obj ((key, value) :: fields) =>
    '\x7b' :: layout.gap (level + 1) ++ jsonString key ++ [':', ' '] ++
      value.chars layout (level + 1) ++ Json.fieldsChars layout (level + 1) fields ++
      layout.gap level ++ ['\x7d']

def Json.itemsChars (layout : JsonLayout) (level : Nat) : List Json → List Char
  | [] => []
  | item :: items =>
    ',' :: layout.afterComma level ++ item.chars layout level ++
      Json.itemsChars layout level items

def Json.fieldsChars (layout : JsonLayout) (level : Nat) : List (String × Json) → List Char
  | [] => []
  | (key, value) :: fields =>
    ',' :: layout.afterComma level ++ jsonString key ++ [':', ' '] ++ value.chars layout level ++
      Json.fieldsChars layout level fields

end

def Json.text (layout : JsonLayout) (value : Json) : String :=
  String.ofList (value.chars layout 0)

end ProgramTrees
