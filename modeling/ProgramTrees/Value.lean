import ProgramTrees.BinaryArithmetic
import ProgramTrees.NumberText
import ProgramTrees.Operator

namespace ProgramTrees

inductive Value where
  | int (n : Int32)
  | float (x : Single)
deriving DecidableEq

def Value.ty : Value → Ty
  | .int _ => .int
  | .float _ => .float

/-- A printed value; a missing one is printed too. -/
def Value.text : Option Value → String
  | none => "null"
  | some (.int n) => toString n.toInt
  | some (.float x) => x.valueText

/-- A loop goes on while its condition has a value that is at least zero. -/
def Value.keepsLooping : Option Value → Bool
  | none => false
  | some (.int n) => 0 ≤ n.toInt
  | some (.float x) => x.isNonneg

/-- A number that an operator may be applied to: a value, or one of a wider type. -/
inductive Number where
  | int (n : Int)
  | single (x : Single)
  | double (x : Double)
deriving DecidableEq

def Value.toNumber : Value → Number
  | .int n => .int n.toInt
  | .float x => .single x

inductive ConversionFault where
  | infiniteToInt
  | nanToInt
  | hugeToFloat
deriving DecidableEq

def ConversionFault.message : ConversionFault → String
  | .infiniteToInt => "cannot convert float infinity to integer"
  | .nanToInt => "cannot convert float NaN to integer"
  | .hugeToFloat => "int too large to convert to float"

def NoInteger.toConversionFault : NoInteger → ConversionFault
  | .infinite => .infiniteToInt
  | .nan => .nanToInt

def Number.toInt : Number → Except ConversionFault Int
  | .int n => .ok n
  | .single x => x.truncate.mapError (·.toConversionFault)
  | .double x => x.truncate.mapError (·.toConversionFault)

/-- The double nearest to an integer, unless there is no finite one. -/
def doubleOfInt? (n : Int) : Option Double :=
  match Format.double.ofInt n with
  | .infinite _ => none
  | x => some x

/-- The single nearest to a number. An integer takes the way over the doubles. -/
def Number.toSingle : Number → Except ConversionFault Single
  | .int n =>
    match doubleOfInt? n with
    | some x => .ok (x.convert .single)
    | none => .error .hugeToFloat
  | .single x => .ok x
  | .double x => .ok (x.convert .single)

def leastInt32 : Int := -2147483648

def int32Range : Int := 4294967296

/-- The integer of thirty-two bits that is the same as an integer up to multiples of the range. -/
def wrapped (n : Int) : Int :=
  (n - leastInt32) % int32Range + leastInt32

theorem minValue_le_wrapped (n : Int) : Int32.minValue.toInt ≤ wrapped n := by
  have hleast : Int32.minValue.toInt = -2147483648 := rfl
  rw [wrapped, leastInt32, int32Range]
  omega

theorem wrapped_le_maxValue (n : Int) : wrapped n ≤ Int32.maxValue.toInt := by
  have hgreatest : Int32.maxValue.toInt = 2147483647 := rfl
  rw [wrapped, leastInt32, int32Range]
  omega

def wrapInt32 (n : Int) : Int32 :=
  .ofIntLE (wrapped n) (minValue_le_wrapped n) (wrapped_le_maxValue n)

theorem wrapInt32_eq (n : Int) : wrapInt32 n = Int32.ofInt n := by
  have hbmod : (Int32.ofInt n).toInt = n.bmod 4294967296 := Int32.toInt_ofInt
  apply Int32.toInt_inj.mp
  rw [hbmod, wrapInt32, Int32.toInt_ofIntLE, wrapped, leastInt32, int32Range, Int.bmod_def]
  split <;> omega

/-- The value of a type that stands for a number. Integers wrap around at thirty-two bits. -/
def Number.toValue : Ty → Number → Except ConversionFault Value
  | .int, number => return .int (wrapInt32 (← number.toInt))
  | .float, number => return .float (← number.toSingle)

end ProgramTrees
