import ProgramTrees.Value

namespace ProgramTrees

inductive OperandFault where
  | wrongCount (op : Operator) (count : Nat)
  | divisionByZero
  | remainderByZero
  | conversion (fault : ConversionFault)
deriving DecidableEq

def OperandFault.message : OperandFault → String
  | .wrongCount op count => s!"Operator {op.name} expects {op.arity} operand(s), got {count}"
  | .divisionByZero => "/ by zero"
  | .remainderByZero => "% by zero"
  | .conversion fault => fault.message

/-- The quotient of the absolute values, negative if one of the signs is. -/
def truncatingDiv (a b : Int) : Except OperandFault Int :=
  if b = 0 then .error .divisionByZero
  else
    let quotient : Int := a.natAbs / b.natAbs
    .ok (if decide (a < 0) = decide (b < 0) then quotient else -quotient)

/-- What the quotient leaves of the dividend. -/
def truncatingMod (a b : Int) : Except OperandFault Int :=
  if b = 0 then .error .remainderByZero
  else do return a - b * (← truncatingDiv a b)

theorem truncatingDiv_eq {a b : Int} (hb : b ≠ 0) : truncatingDiv a b = .ok (a.tdiv b) := by
  have hnatural (m n : Nat) : (m : Int).tdiv n = (m : Int) / n := rfl
  rw [truncatingDiv, if_neg hb]
  by_cases ha : a < 0
  · obtain ⟨m, rfl⟩ : ∃ m : Nat, a = -m := ⟨a.natAbs, by omega⟩
    by_cases hb : b < 0
    · obtain ⟨n, rfl⟩ : ∃ n : Nat, b = -n := ⟨b.natAbs, by omega⟩
      simp only [ha, hb, if_true, Int.natAbs_neg, Int.natAbs_natCast, Int.neg_tdiv, Int.tdiv_neg,
        Int.neg_neg, hnatural]
    · obtain ⟨n, rfl⟩ : ∃ n : Nat, b = n := ⟨b.natAbs, by omega⟩
      simp only [ha, hb, decide_true, decide_false, Bool.true_eq_false, if_false, Int.natAbs_neg,
        Int.natAbs_natCast, Int.neg_tdiv, hnatural]
  · obtain ⟨m, rfl⟩ : ∃ m : Nat, a = m := ⟨a.natAbs, by omega⟩
    by_cases hb : b < 0
    · obtain ⟨n, rfl⟩ : ∃ n : Nat, b = -n := ⟨b.natAbs, by omega⟩
      simp only [ha, hb, decide_true, decide_false, Bool.false_eq_true, if_false, Int.natAbs_neg,
        Int.natAbs_natCast, Int.tdiv_neg, hnatural]
    · obtain ⟨n, rfl⟩ : ∃ n : Nat, b = n := ⟨b.natAbs, by omega⟩
      simp only [ha, hb, if_true, Int.natAbs_natCast, hnatural]

theorem truncatingMod_eq {a b : Int} (hb : b ≠ 0) : truncatingMod a b = .ok (a.tmod b) := by
  rw [truncatingMod, if_neg hb, truncatingDiv_eq hb, Int.tmod_def]
  rfl

/-- The exact result on integers. -/
def Operator.exactInt : Operator → List Int → Except OperandFault Int
  | .plus1, [a] => .ok a
  | .minus1, [a] => .ok (-a)
  | .plus2, [a, b] => .ok (a + b)
  | .minus2, [a, b] => .ok (a - b)
  | .mult, [a, b] => .ok (a * b)
  | .div, [a, b] => truncatingDiv a b
  | .mod, [a, b] => truncatingMod a b
  | op, operands => .error (.wrongCount op operands.length)

def Operator.roundedSingle : Operator → List Single → Except OperandFault Single
  | .plus1, [x] => .ok x
  | .minus1, [x] => .ok x.neg
  | .plus2, [x, y] => .ok (x.add y)
  | .minus2, [x, y] => .ok (x.sub y)
  | .mult, [x, y] => .ok (x.mul y)
  | .div, [x, y] => .ok (x.div y)
  | op, operands => .error (.wrongCount op operands.length)

/-- Converts all operands, the first failure winning. -/
def convertAll {α : Type} (convert : Number → Except ConversionFault α) :
    List Number → Except OperandFault (List α)
  | [] => .ok []
  | number :: numbers => do
    let x ← (convert number).mapError .conversion
    return x :: (← convertAll convert numbers)

/-- The operator on thirty-two bit integers: computed exactly, then wrapped around. -/
def Operator.onInts (op : Operator) (operands : List Number) : Except OperandFault Value :=
  if operands.length = op.arity then do
    let ints ← convertAll Number.toInt operands
    return .int (wrapInt32 (← op.exactInt ints))
  else .error (.wrongCount op operands.length)

def Operator.onSingles (op : Operator) (operands : List Number) : Except OperandFault Value :=
  if operands.length = op.arity then do
    let singles ← convertAll Number.toSingle operands
    return .float (← op.roundedSingle singles)
  else .error (.wrongCount op operands.length)

/-- The function that carries out an operator on a type; there is no remainder of singles. -/
def Operator.function? (op : Operator) :
    Option Ty → Option (List Number → Except OperandFault Value)
  | none => none
  | some .int => some op.onInts
  | some .float =>
    match op with
    | .mod => none
    | _ => some op.onSingles

end ProgramTrees
