import ProgramTrees.CodePoints

namespace ProgramTrees

/-- The zeros of the scripts; the other nine digits of a script follow its zero. -/
def digitZeros : List Nat := [
  48, 1632, 1776, 1984, 2406, 2534, 2662, 2790, 2918, 3046, 3174, 3302, 3430, 3558, 3664, 3792,
  3872, 4160, 4240, 6112, 6160, 6470, 6608, 6784, 6800, 6992, 7088, 7232, 7248, 42528, 43216,
  43264, 43472, 43504, 43600, 44016, 65296, 66720, 68912, 69734, 69872, 69942, 70096, 70384,
  70736, 70864, 71248, 71360, 71472, 71904, 72016, 72784, 73040, 73120, 92768, 92864, 93008,
  120782, 120792, 120802, 120812, 120822, 123200, 123632, 125264, 130032]

def decimalDigit? (c : Char) : Option Nat :=
  (digitZeros.find? fun z => z ≤ c.toNat && c.toNat < z + 10).map (c.toNat - ·)

/-- The blanks that may stand around an integer. -/
def integerBlanks : List (Nat × Nat) := [
  (9, 13), (32, 32), (133, 133), (160, 160), (5760, 5760), (8192, 8202), (8232, 8233),
  (8239, 8239), (8287, 8287), (12288, 12288)]

def trimBlanks (cs : List Char) : List Char :=
  let trimStart (cs : List Char) := cs.dropWhile (inRanges integerBlanks)
  (trimStart (trimStart cs).reverse).reverse

/-- The digits of a number in which single underscores may stand between digits. -/
def groupedDigits? : List Char → Option (List Nat)
  | [] => none
  | [c] => (decimalDigit? c).map ([·])
  | c :: '_' :: rest => do
    let digit ← decimalDigit? c
    return digit :: (← groupedDigits? rest)
  | c :: rest => do
    let digit ← decimalDigit? c
    return digit :: (← groupedDigits? rest)

def maxIntegerDigits : Nat := 4300

/-- The integer that a text names, with a sign or without. -/
def readInteger? (text : String) : Option Int := do
  let (negative, unsigned) := match trimBlanks text.toList with
    | '-' :: rest => (true, rest)
    | '+' :: rest => (false, rest)
    | cs => (false, cs)
  let digits ← groupedDigits? unsigned
  if maxIntegerDigits < digits.length then none
  else
    let n : Nat := digits.foldl (fun n digit => 10 * n + digit) 0
    some (if negative then -(n : Int) else (n : Int))

/-- An integer in digits, unless it has too many of them. -/
def integerText? (n : Int) : Option String :=
  if Nat.pow 10 maxIntegerDigits ≤ n.natAbs then none else some (toString n)

def tooManyDigits : String :=
  s!"Exceeds the limit ({maxIntegerDigits} digits) for integer string conversion; use " ++
    "sys.set_int_max_str_digits() to increase the limit"

end ProgramTrees
