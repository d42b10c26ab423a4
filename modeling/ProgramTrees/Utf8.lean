namespace ProgramTrees

inductive Utf8Fault where
  | startByte
  | continuationByte
  | endOfData
deriving DecidableEq

def Utf8Fault.message : Utf8Fault → String
  | .startByte => "invalid start byte"
  | .continuationByte => "invalid continuation byte"
  | .endOfData => "unexpected end of data"

/-- A fault, the bytes of the broken character, and the position of the first of them. -/
structure Utf8Error where
  fault : Utf8Fault
  bytes : List UInt8
  position : Nat
deriving DecidableEq

def Utf8Error.message (e : Utf8Error) : String :=
  let place := match e.bytes with
    | [byte] =>
      let digits := String.ofList [Nat.digitChar (byte.toNat / 16), Nat.digitChar (byte.toNat % 16)]
      s!"byte 0x{digits} in position {e.position}"
    | bytes => s!"bytes in position {e.position}-{e.position + bytes.length - 1}"
  s!"'utf-8' codec can't decode {place}: {e.fault.message}"

/-- A character of which some bytes have come: those bytes, how many more are owed, the least and
the greatest that the next one may be, and the bits so far. -/
structure PartialChar where
  seen : List UInt8
  owed : Nat
  least : Nat
  greatest : Nat
  code : Nat

/-- The state after the first byte of a character of more than one byte. -/
def PartialChar.ofLead? (byte : UInt8) : Option PartialChar :=
  let b := byte.toNat
  if b < 0xC2 then none
  else if b < 0xE0 then some ⟨[byte], 1, 0x80, 0xBF, b % 0x20⟩
  else if b = 0xE0 then some ⟨[byte], 2, 0xA0, 0xBF, b % 0x10⟩
  else if b = 0xED then some ⟨[byte], 2, 0x80, 0x9F, b % 0x10⟩
  else if b < 0xF0 then some ⟨[byte], 2, 0x80, 0xBF, b % 0x10⟩
  else if b = 0xF0 then some ⟨[byte], 3, 0x90, 0xBF, b % 0x08⟩
  else if b < 0xF4 then some ⟨[byte], 3, 0x80, 0xBF, b % 0x08⟩
  else if b = 0xF4 then some ⟨[byte], 3, 0x80, 0x8F, b % 0x08⟩
  else none

/-- The characters of the bytes from a position on, after those of a character that is not yet
complete. -/
def utf8Chars (position : Nat) (pending : Option PartialChar) :
    List UInt8 → Except Utf8Error (List Char)
  | [] =>
    match pending with
    | none => .ok []
    | some p => .error ⟨.endOfData, p.seen, position - p.seen.length⟩
  | byte :: rest =>
    match pending with
    | none =>
      if byte.toNat < 0x80 then
        (utf8Chars (position + 1) none rest).map (Char.ofNat byte.toNat :: ·)
      else
        match PartialChar.ofLead? byte with
        | some p => utf8Chars (position + 1) (some p) rest
        | none => .error ⟨.startByte, [byte], position⟩
    | some p =>
      if p.least ≤ byte.toNat ∧ byte.toNat ≤ p.greatest then
        let code := p.code * 0x40 + byte.toNat % 0x40
        if p.owed = 1 then (utf8Chars (position + 1) none rest).map (Char.ofNat code :: ·)
        else utf8Chars (position + 1) (some ⟨p.seen ++ [byte], p.owed - 1, 0x80, 0xBF, code⟩) rest
      else .error ⟨.continuationByte, p.seen, position - p.seen.length⟩

def decodeUtf8 (bytes : List UInt8) : Except Utf8Error (List Char) :=
  utf8Chars 0 none bytes

end ProgramTrees
