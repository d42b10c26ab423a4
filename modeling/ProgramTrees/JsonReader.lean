import ProgramTrees.Decimal
import ProgramTrees.IntegerText
import ProgramTrees.Json

namespace ProgramTrees

/-- What is wrong with a text that is no JSON value. A surrogate without its partner is among it, as
it is no character and so stands in no string. -/
inductive JsonFault where
  | noValue
  | noName
  | noColon
  | noComma
  | extraData
  | unterminated
  | controlCharacter
  | badEscape
  | badUnicodeEscape
  | loneSurrogate
  | byteOrderMark
deriving DecidableEq

def JsonFault.message : JsonFault → String
  | .noValue => "Expecting value"
  | .noName => "Expecting property name enclosed in double quotes"
  | .noColon => "Expecting ':' delimiter"
  | .noComma => "Expecting ',' delimiter"
  | .extraData => "Extra data"
  | .unterminated => "Unterminated string starting at"
  | .controlCharacter => "Invalid control character at"
  | .badEscape => "Invalid \\escape"
  | .badUnicodeEscape => "Invalid \\uXXXX escape"
  | .loneSurrogate => "Unpaired surrogate"
  | .byteOrderMark => "Unexpected UTF-8 BOM (decode using utf-8-sig)"

/-- Why a text is not read: a fault, with how many characters the text has from its place on, or an
integer of too many digits, which is no fault of the text. -/
inductive JsonError where
  | malformed (fault : JsonFault) (left : Nat)
  | longInteger (digits : Nat)
deriving DecidableEq

def JsonError.before (fault : JsonFault) (rest : List Char) : JsonError :=
  .malformed fault rest.length

/-- The message with the place counted in `text`: lines and columns from one, characters from
zero. -/
def JsonError.describe (text : List Char) : JsonError → String
  | .malformed fault left =>
    let offset := text.length - left
    let passed := text.take offset
    let line := passed.count '\n' + 1
    let column := (passed.reverse.takeWhile (· != '\n')).length + 1
    s!"{fault.message}: line {line} column {column} (char {offset})"
  | .longInteger digits =>
    s!"Exceeds the limit ({maxIntegerDigits} digits) for integer string conversion: value has " ++
      s!"{digits} digits; use sys.set_int_max_str_digits() to increase the limit"

/-- A reader takes a value from the beginning of a text and returns what it leaves. -/
abbrev JsonReader (α : Type) := List Char → Except JsonError (α × List Char)

def isJsonBlank (c : Char) : Bool :=
  c == ' ' || c == '\t' || c == '\n' || c == '\r'

def skipBlanks (cs : List Char) : List Char :=
  cs.dropWhile isJsonBlank

def digitsValue (digits : List Char) : Nat :=
  digits.foldl (fun n c => 10 * n + (c.toNat - '0'.toNat)) 0

/-- The digits up to the next other character, if there are any. -/
def takeDigits? (cs : List Char) : Option (List Char × List Char) :=
  let digits := cs.takeWhile Char.isDigit
  if digits.isEmpty then none else some (digits, cs.dropWhile Char.isDigit)

/-- The integer digits of a number: a zero stands alone. -/
def wholeDigits? : List Char → Option (List Char × List Char)
  | '0' :: rest => some (['0'], rest)
  | cs => takeDigits? cs

def fractionDigits? : List Char → Option (List Char × List Char)
  | '.' :: rest => takeDigits? rest
  | _ => none

/-- An integer whose sign may be left out. -/
def exponentValue? : List Char → Option (Int × List Char)
  | '-' :: rest => (takeDigits? rest).map fun (digits, rest) => (-(digitsValue digits : Int), rest)
  | '+' :: rest => (takeDigits? rest).map fun (digits, rest) => ((digitsValue digits : Int), rest)
  | cs => (takeDigits? cs).map fun (digits, rest) => ((digitsValue digits : Int), rest)

def exponentPart? : List Char → Option (Int × List Char)
  | 'e' :: rest | 'E' :: rest => exponentValue? rest
  | _ => none

/-- A number as it is written: a sign, integer digits, and perhaps a fraction and an exponent. -/
structure Numeral where
  negative : Bool
  whole : List Char
  fraction : List Char
  exponent : Option Int

def Numeral.decimal (n : Numeral) : Decimal :=
  ⟨digitsValue (n.whole ++ n.fraction), n.exponent.getD 0 - (n.fraction.length : Int)⟩

/-- A numeral is an integer, unless it has a fraction or an exponent. Only integers are limited in
their digits. -/
def Numeral.toJson (n : Numeral) : Except JsonError Json :=
  if n.fraction.isEmpty ∧ n.exponent = none then
    let magnitude : Int := digitsValue n.whole
    if maxIntegerDigits < n.whole.length then .error (.longInteger n.whole.length)
    else .ok (.int (if n.negative then -magnitude else magnitude))
  else .ok (.float (n.decimal.round .double n.negative))

/-- The rest of a numeral after its sign. -/
def readUnsigned? (negative : Bool) (cs : List Char) : Option (Numeral × List Char) :=
  (wholeDigits? cs).map fun (whole, afterWhole) =>
    let (fraction, afterFraction) := (fractionDigits? afterWhole).getD ([], afterWhole)
    let (exponent, rest) := (exponentPart? afterFraction).elim (none, afterFraction)
      fun (e, rest) => (some e, rest)
    (⟨negative, whole, fraction, exponent⟩, rest)

def readNumeral? : List Char → Option (Numeral × List Char)
  | '-' :: rest => readUnsigned? true rest
  | cs => readUnsigned? false cs

def jsonWords : List (List Char × Json) :=
  [(['n', 'u', 'l', 'l'], .null), (['t', 'r', 'u', 'e'], .bool true),
    (['f', 'a', 'l', 's', 'e'], .bool false), (['N', 'a', 'N'], .float .nan),
    (['I', 'n', 'f', 'i', 'n', 'i', 't', 'y'], .float (.infinite false)),
    (['-', 'I', 'n', 'f', 'i', 'n', 'i', 't', 'y'], .float (.infinite true))]

def readWord? (cs : List Char) : Option (Json × List Char) :=
  jsonWords.findSome? fun (word, value) =>
    (word.isPrefixOf? cs).map fun rest => (value, rest)

/-- A word or a number. -/
def readScalar : JsonReader Json := fun cs =>
  match readWord? cs with
  | some result => .ok result
  | none =>
    match readNumeral? cs with
    | some (n, rest) => n.toJson.map fun value => (value, rest)
    | none => .error (.before .noValue cs)

def hexDigit? (c : Char) : Option Nat :=
  if '0' ≤ c ∧ c ≤ '9' then some (c.toNat - '0'.toNat)
  else if 'a' ≤ c ∧ c ≤ 'f' then some (c.toNat - 'a'.toNat + 10)
  else if 'A' ≤ c ∧ c ≤ 'F' then some (c.toNat - 'A'.toNat + 10)
  else none

def hexUnit? (a b c d : Char) : Option Nat := do
  let a ← hexDigit? a
  let b ← hexDigit? b
  let c ← hexDigit? c
  let d ← hexDigit? d
  some (((a * 16 + b) * 16 + c) * 16 + d)

/-- The character after a backslash that stands for another one, or for itself. -/
def simpleEscape? : Char → Option Char
  | '"' => some '"'
  | '\\' => some '\\'
  | '/' => some '/'
  | 'b' => some '\x08'
  | 'f' => some '\x0c'
  | 'n' => some '\n'
  | 'r' => some '\r'
  | 't' => some '\t'
  | _ => none

/-- What an escaped unit adds to the text after a pending high surrogate, and whether it is itself
pending, unless a surrogate is without its partner. -/
def joinUnit? (high : Option Nat) (unit : Nat) : Option (List Char × Option Nat) :=
  if 0xD800 ≤ unit ∧ unit < 0xDC00 then if high.isSome then none else some ([], some unit)
  else if 0xDC00 ≤ unit ∧ unit < 0xE000 then
    high.map fun h =>
      ([Char.ofNat (0x10000 + (h - 0xD800) * 0x400 + (unit - 0xDC00))], none)
  else if high.isSome then none else some ([Char.ofNat unit], none)

/-- The rest of a string after its opening quote, which begins `opening`. An escaped unit has four
digits and is not the end of the text. -/
def readString (opening : List Char) (high : Option Nat) : JsonReader (List Char)
  | [] => .error (.before .unterminated opening)
  | c :: rest =>
    if c = '\\' then
      match rest with
      | [] => .error (.before .unterminated opening)
      | 'u' :: a :: b :: c :: d :: tail =>
        match hexUnit? a b c d, tail.isEmpty with
        | some unit, false =>
          match joinUnit? high unit with
          | some (added, pending) =>
            (readString opening pending tail).map fun (cs, left) => (added ++ cs, left)
          | none => .error (.before .loneSurrogate rest)
        | _, _ => .error (.before .badUnicodeEscape rest)
      | escaped :: tail =>
        if escaped = 'u' then .error (.before .badUnicodeEscape rest)
        else if high.isSome then .error (.before .loneSurrogate rest)
        else match simpleEscape? escaped with
          | some x => (readString opening none tail).map fun (cs, left) => (x :: cs, left)
          | none => .error (.before .badEscape (c :: rest))
    else if high.isSome then .error (.before .loneSurrogate (c :: rest))
    else if c = '"' then .ok ([], rest)
    else if c < ' ' then .error (.before .controlCharacter (c :: rest))
    else (readString opening none rest).map fun (cs, left) => (c :: cs, left)

mutual

/-- A value at the beginning of the text. The budget bounds the nesting of calls; each array or
object spends two on its opening bracket and each further item one, so twice the length of the
text is never used up. -/
def readValue : Nat → JsonReader Json
  | 0, cs => .error (.before .noValue cs)
  | budget + 1, cs =>
    match cs with
    | '"' :: rest => (readString cs none rest).map fun (s, left) => (.str (String.ofList s), left)
    | '[' :: rest =>
      match skipBlanks rest with
      | ']' :: left => .ok (.arr [], left)
      | rest => (readItems budget rest).map fun (items, left) => (.arr items, left)
    | '\x7b' :: rest =>
      match skipBlanks rest with
      | '\x7d' :: left => .ok (.obj [], left)
      | rest => (readFields budget [] rest).map fun (fields, left) => (.obj fields, left)
    | cs => readScalar cs

def readItems : Nat → JsonReader (List Json)
  | 0, cs => .error (.before .noValue cs)
  | budget + 1, cs => do
    let (item, rest) ← readValue budget cs
    match skipBlanks rest with
    | ']' :: left => .ok ([item], left)
    | ',' :: rest =>
      (readItems budget (skipBlanks rest)).map fun (items, left) => (item :: items, left)
    | rest => .error (.before .noComma rest)

/-- The fields of an object up to its closing brace, added to those read before; a key that comes
again changes its first field. -/
def readFields : Nat → List (String × Json) → JsonReader (List (String × Json))
  | 0, _, cs => .error (.before .noName cs)
  | budget + 1, fields, cs =>
    match cs with
    | '"' :: rest => do
      let (key, rest) ← readString cs none rest
      match skipBlanks rest with
      | ':' :: rest => do
        let (value, rest) ← readValue budget (skipBlanks rest)
        let fields := Table.set fields (String.ofList key) value
        match skipBlanks rest with
        | '\x7d' :: left => .ok (fields, left)
        | ',' :: rest => readFields budget fields (skipBlanks rest)
        | rest => .error (.before .noComma rest)
      | rest => .error (.before .noColon rest)
    | cs => .error (.before .noName cs)

end

/-- The value of a whole text: nothing but blanks may stand around it. -/
def Json.parse (cs : List Char) : Except JsonError Json :=
  if cs.head? = some '\ufeff' then .error (.before .byteOrderMark cs)
  else do
    let (value, rest) ← readValue (2 * cs.length + 2) (skipBlanks cs)
    match skipBlanks rest with
    | [] => .ok value
    | rest => .error (.before .extraData rest)

end ProgramTrees
