import Mathlib.Data.Rat.Floor
import ProgramTrees.Proofs.OperandConversions
import ProgramTrees.Proofs.Visits

namespace ProgramTrees

/-- The integer that a rational number is cut off to on the way to zero. -/
def truncated (x : ℚ) : ℤ :=
  if 0 ≤ x then ⌊x⌋ else ⌈x⌉

/-- What `q` and `r` are to `a` and `b` where `a` is divided by `b`. -/
structure IsQuotientRemainder (a b q r : Int32) : Prop where
  sign : r = 0 ∨ r.toInt.sign = a.toInt.sign
  below : r.toInt.natAbs < b.toInt.natAbs
  truncates : ¬ (a = Int32.minValue ∧ b = -1) → q.toInt = truncated (a.toInt / b.toInt)
  overflows : a = Int32.minValue ∧ b = -1 → q = Int32.minValue ∧ r = 0
  restores : Int32.ofInt (q.toInt * b.toInt + r.toInt) = a

/-- Two numbers that integers stand for, the second one for zero. -/
def DividesByZero (numbers : List Number) : Prop :=
  ∃ x y n, numbers = [x, y] ∧ x.toInt = .ok n ∧ y.toInt = .ok 0

/-- Evaluating the node comes to a quotient or a remainder of integers whose operands have values,
that of the divisor standing for zero. -/
def ComesToZeroDivisor (types : TypeMap) (n : Node Nat) (m m' : Machine) : Prop :=
  ∃ number op operands s budget values, Visits types n m (.apply number op operands) s ∧
    types (.node number) = some .int ∧ (op = .div ∨ op = .mod) ∧
    (Node.evalOperands types budget operands).run s = .ok values m' ∧
    DividesByZero (values.map Value.toNumber)

section Truncation

theorem truncated_neg (x : ℚ) : truncated (-x) = -truncated x := by
  unfold truncated
  rcases lt_trichotomy x 0 with hx | rfl | hx
  · have hneg : 0 ≤ -x := by linarith
    rw [if_pos hneg, if_neg (not_le.mpr hx), Int.floor_neg]
  · simp
  · have hneg : ¬ 0 ≤ -x := by linarith
    rw [if_neg hneg, if_pos hx.le, Int.ceil_neg]

theorem truncated_natCast_div (m n : ℕ) : truncated ((m : ℚ) / n) = ((m / n : ℕ) : ℤ) := by
  have hnonneg : (0 : ℚ) ≤ (m : ℚ) / n := by positivity
  rw [truncated, if_pos hnonneg, Rat.floor_natCast_div_natCast]
  exact (Int.natCast_div m n).symm

theorem tdiv_eq_truncated (a b : ℤ) : a.tdiv b = truncated ((a : ℚ) / b) := by
  have hdividend (a : ℤ) (n : ℕ) : a.tdiv n = truncated ((a : ℚ) / n) := by
    obtain ⟨m, rfl | rfl⟩ := a.eq_nat_or_neg
    · rw [Int.cast_natCast, truncated_natCast_div]
      exact (Int.ofNat_tdiv m n).symm
    · rw [Int.neg_tdiv, Int.cast_neg, Int.cast_natCast, neg_div, truncated_neg,
        truncated_natCast_div]
      exact congrArg Neg.neg (Int.ofNat_tdiv m n).symm
  obtain ⟨n, rfl | rfl⟩ := b.eq_nat_or_neg
  · exact hdividend a n
  · rw [Int.tdiv_neg, hdividend, Int.cast_neg, Int.cast_natCast, div_neg, truncated_neg]

end Truncation

section Quotients

variable {a b : Int32}

theorem ofInt_tdiv_toInt (a b : Int32) : Int32.ofInt (a.toInt.tdiv b.toInt) = a / b := by
  apply Int32.toInt_inj.mp
  rw [Int32.toInt_ofInt, Int32.toInt_div]

theorem ofInt_tmod_toInt (a b : Int32) : Int32.ofInt (a.toInt.tmod b.toInt) = a % b := by
  rw [← Int32.toInt_mod, Int32.ofInt_toInt]

theorem toInt_ne_zero (hb : b ≠ 0) : b.toInt ≠ 0 :=
  fun h => hb (Int32.toInt_inj.mp (h.trans Int32.toInt_zero.symm))

theorem Operator.onInts_pair {op : Operator} (harity : op.arity = 2) {n : Int}
    (hexact : op.exactInt [a.toInt, b.toInt] = .ok n) :
    op.onInts [(Value.int a).toNumber, (Value.int b).toNumber] = .ok (.int (Int32.ofInt n)) :=
  onInts_eq_ok.mpr ⟨harity.symm, _, n, convertAll_ints [a, b], hexact, rfl⟩

theorem isQuotientRemainder (a : Int32) (hb : b ≠ 0) : IsQuotientRemainder a b (a / b) (a % b) where
  sign := by
    rw [Int32.toInt_mod, Int.sign_tmod]
    split
    next hdvd =>
      left
      apply Int32.toInt_inj.mp
      rw [Int32.toInt_mod, Int.tmod_eq_zero_of_dvd hdvd, Int32.toInt_zero]
    next => exact .inr rfl
  below := by
    rw [Int32.toInt_mod, Int.natAbs_tmod]
    have hpositive := Int.natAbs_pos.mpr (toInt_ne_zero hb)
    exact Nat.mod_lt _ hpositive
  truncates := by
    intro h
    rw [← tdiv_eq_truncated]
    by_cases ha : a = Int32.minValue
    · exact Int32.toInt_div_of_ne_right a b fun hb => h ⟨ha, hb⟩
    · exact Int32.toInt_div_of_ne_left a b ha
  overflows := by
    rintro ⟨rfl, rfl⟩
    exact ⟨Int32.minValue_div_neg_one, rfl⟩
  restores := by
    have hexact : a.toInt.tdiv b.toInt * b.toInt + a.toInt.tmod b.toInt = a.toInt :=
      Int.tdiv_mul_add_tmod _ _
    calc Int32.ofInt ((a / b).toInt * b.toInt + (a % b).toInt)
        = a / b * b + a % b := by
          rw [Int32.ofInt_add, Int32.ofInt_mul, Int32.ofInt_toInt, Int32.ofInt_toInt,
            Int32.ofInt_toInt]
      _ = Int32.ofInt (a.toInt.tdiv b.toInt) * Int32.ofInt b.toInt +
            Int32.ofInt (a.toInt.tmod b.toInt) := by
          rw [ofInt_tdiv_toInt, ofInt_tmod_toInt, Int32.ofInt_toInt]
      _ = a := by rw [← Int32.ofInt_mul, ← Int32.ofInt_add, hexact, Int32.ofInt_toInt]

end Quotients

section Faults

variable {op : Operator} {ty : Option Ty} {function : List Number → Except OperandFault Value}
  {numbers : List Number} {fault : OperandFault}

theorem channel_operands {site : Site} :
    (Fault.operands fault site).channel = .arithmetic ↔
      fault = .divisionByZero ∨ fault = .remainderByZero := by
  cases fault <;> simp [Fault.channel]

theorem Operator.onInts_arithmetic (h : op.onInts numbers = .error fault)
    (hfault : fault = .divisionByZero ∨ fault = .remainderByZero) :
    (op = .div ∨ op = .mod) ∧ DividesByZero numbers := by
  rcases onInts_eq_error.mp h with ⟨-, rfl⟩ | ⟨hlength, hconvert | ⟨ints, hints, hexact⟩⟩
  · simp at hfault
  · obtain ⟨_, _, _, _, -, -, -, rfl⟩ := convertAll_eq_error.mp hconvert
    simp at hfault
  · have hcount : ints.length = op.arity := (convertAll_length hints).trans hlength
    obtain ⟨n, rfl, hop⟩ := exactInt_error hcount hexact
    refine ⟨hop.imp And.left And.left, ?_⟩
    obtain _ | ⟨hx, _ | ⟨hy, _ | _⟩⟩ := convertAll_eq_ok.mp hints
    exact ⟨_, _, n, rfl, hx, hy⟩

theorem Operator.onSingles_arithmetic (hop : op ≠ .mod) (h : op.onSingles numbers = .error fault) :
    ¬ (fault = .divisionByZero ∨ fault = .remainderByZero) := by
  rcases onSingles_eq_error.mp h with ⟨-, rfl⟩ | ⟨hlength, hconvert | ⟨xs, hxs, hround⟩⟩
  · simp
  · obtain ⟨_, _, _, _, -, -, -, rfl⟩ := convertAll_eq_error.mp hconvert
    simp
  · have hcount : xs.length = op.arity := (convertAll_length hxs).trans hlength
    obtain ⟨x, hx⟩ := roundedSingle_ok xs hcount hop
    cases hx.symm.trans hround

theorem Operator.onInts_dividesByZero (h : DividesByZero numbers) :
    Operator.div.onInts numbers = .error .divisionByZero ∧
      Operator.mod.onInts numbers = .error .remainderByZero := by
  obtain ⟨x, y, n, rfl, hx, hy⟩ := h
  have hints : convertAll Number.toInt [x, y] = .ok [n, 0] :=
    convertAll_eq_ok.mpr (.cons hx (.cons hy .nil))
  exact ⟨onInts_eq_error.mpr (.inr ⟨rfl, .inr ⟨_, hints, rfl⟩⟩),
    onInts_eq_error.mpr (.inr ⟨rfl, .inr ⟨_, hints, rfl⟩⟩)⟩

/-- Of all functions of operators only those of quotient and remainder of integers have arithmetic
faults, and they have them exactly on a zero divisor. -/
theorem Operator.function_arithmetic_iff (hf : op.function? ty = some function) (site : Site) :
    (∃ fault, function numbers = .error fault ∧
        (Fault.operands fault site).channel = .arithmetic) ↔
      ty = some .int ∧ (op = .div ∨ op = .mod) ∧ DividesByZero numbers := by
  simp only [channel_operands]
  constructor
  · rintro ⟨fault, h, hfault⟩
    rcases function_some hf with ⟨rfl, rfl⟩ | ⟨rfl, hop, rfl⟩
    · exact ⟨rfl, onInts_arithmetic h hfault⟩
    · exact absurd hfault (onSingles_arithmetic hop h)
  · rintro ⟨rfl, hop, hzero⟩
    obtain ⟨hdiv, hmod⟩ := onInts_dividesByZero hzero
    cases hf
    rcases hop with rfl | rfl
    · exact ⟨_, hdiv, .inl rfl⟩
    · exact ⟨_, hmod, .inr rfl⟩

/-- An arithmetic fault comes from an operation on integers whose divisor stands for zero. -/
theorem arithmetic_fault_origin {types : TypeMap} {budget : Nat} {n : Node Nat} {m m' : Machine}
    {fault : Fault} (h : (n.eval types budget).run m = .error (.fault fault) m')
    (hchannel : fault.channel = .arithmetic) : ComesToZeroDivisor types n m m' := by
  obtain ⟨number, op, operands, s, hvisit, horigin⟩ := fault_origin n h
  cases horigin with
  | noFunction | missing => cases hchannel
  | @failed function budget values why _ _ hf hoperands hfails =>
    obtain ⟨hty, hop, hzero⟩ :=
      (Operator.function_arithmetic_iff hf _).mp ⟨why, hfails, hchannel⟩
    exact ⟨number, op, operands, _, budget, values, hvisit, hty, hop, hoperands, hzero⟩

end Faults

/-- The functions of quotient and remainder of integers divide any two integers of thirty-two bits,
and have an arithmetic fault if the divisor is zero. No other function has one, nor these on other
operands, nor any other part of a run. -/
theorem int_division_truncates (a b : Int32) :
    ∃ divide remainder, Operator.div.function? (some .int) = some divide ∧
      Operator.mod.function? (some .int) = some remainder ∧
      (b ≠ 0 → ∃ q r, divide [(Value.int a).toNumber, (Value.int b).toNumber] = .ok (.int q) ∧
        remainder [(Value.int a).toNumber, (Value.int b).toNumber] = .ok (.int r) ∧
        IsQuotientRemainder a b q r) ∧
      (b = 0 →
        divide [(Value.int a).toNumber, (Value.int b).toNumber] = .error .divisionByZero ∧
        remainder [(Value.int a).toNumber, (Value.int b).toNumber] = .error .remainderByZero) ∧
      (∀ (op : Operator) (ty : Option Ty) (function : List Number → Except OperandFault Value)
          (numbers : List Number) (site : Site), op.function? ty = some function →
        ((∃ fault, function numbers = .error fault ∧
            (Fault.operands fault site).channel = .arithmetic) ↔
          ty = some .int ∧ (op = .div ∨ op = .mod) ∧ DividesByZero numbers)) ∧
      ∀ (types : TypeMap) (budget : Nat) (n : Node Nat) (m m' : Machine) (fault : Fault),
        (n.eval types budget).run m = .error (.fault fault) m' → fault.channel = .arithmetic →
        ComesToZeroDivisor types n m m' := by
  refine ⟨Operator.div.onInts, Operator.mod.onInts, rfl, rfl, ?_, ?_, ?_, ?_⟩
  · intro hb
    have hzero : b.toInt ≠ 0 := toInt_ne_zero hb
    refine ⟨a / b, a % b, ?_, ?_, isQuotientRemainder a hb⟩
    · rw [← ofInt_tdiv_toInt]
      exact Operator.onInts_pair rfl (truncatingDiv_eq hzero)
    · rw [← ofInt_tmod_toInt]
      exact Operator.onInts_pair rfl (truncatingMod_eq hzero)
  · rintro rfl
    exact Operator.onInts_dividesByZero ⟨_, _, a.toInt, rfl, rfl, rfl⟩
  · intro op ty function numbers site hf
    exact Operator.function_arithmetic_iff hf site
  · intro types budget n m m' fault h hchannel
    exact arithmetic_fault_origin h hchannel

example : Operator.div.onInts [.int (-7), .int 2] = .ok (.int (-3)) ∧
    Operator.mod.onInts [.int (-7), .int 2] = .ok (.int (-1)) := by decide

end ProgramTrees
