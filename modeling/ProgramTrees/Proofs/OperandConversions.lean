import ProgramTrees.Proofs.IntegerRounding
import ProgramTrees.Proofs.TypedOperands

namespace ProgramTrees

section Conversions

/-- Every value but an infinite float and NaN. -/
def Value.IsFinite : Value → Prop
  | .int _ => True
  | .float x => x ≠ .nan ∧ ∀ negative, x ≠ .infinite negative

/-- The first of the values that no integer stands for is a float, which is not converted for the
reason given. -/
def FirstUnconvertible (values : List Value) (why : ConversionFault) : Prop :=
  ∃ before x after, values = before ++ .float x :: after ∧ (∀ v ∈ before, v.IsFinite) ∧
    ((x = .nan ∧ why = .nanToInt) ∨ ((∃ negative, x = .infinite negative) ∧ why = .infiniteToInt))

theorem Value.toInt_ok_iff {v : Value} : (∃ n, v.toNumber.toInt = .ok n) ↔ v.IsFinite := by
  cases v with
  | int n => simp [toNumber, Number.toInt, IsFinite]
  | float x =>
    cases x <;>
      simp [toNumber, Number.toInt, Binary.truncate, IsFinite, Except.mapError]

theorem Value.toInt_error_iff {v : Value} {why : ConversionFault} :
    v.toNumber.toInt = .error why ↔ ∃ x, v = .float x ∧ ((x = .nan ∧ why = .nanToInt) ∨
      ((∃ negative, x = .infinite negative) ∧ why = .infiniteToInt)) := by
  cases v with
  | int n => simp [toNumber, Number.toInt]
  | float x =>
    cases x <;>
      simp [toNumber, Number.toInt, Binary.truncate, Except.mapError,
        NoInteger.toConversionFault, eq_comm]

/-- Every value has a float: the integers of thirty-two bits are well within the doubles. -/
theorem Value.toSingle_ok (v : Value) : ∃ x, v.toNumber.toSingle = .ok x := by
  cases v with
  | int n =>
    have hbelow : n.toInt.natAbs < Format.double.limit := by
      have hlimit : 2147483648 < Format.double.limit := by decide +kernel
      have hle := n.le_toInt
      have hlt := n.toInt_lt
      omega
    have hdouble := doubleOfInt?_eq_some_iff.mpr ⟨hbelow, rfl⟩
    exact ⟨_, by rw [toNumber, Number.toSingle, hdouble]⟩
  | float x => exact ⟨x, rfl⟩

variable {α : Type} {convert : Number → Except ConversionFault α} {numbers : List Number}

theorem convertAll_eq_ok {xs : List α} : convertAll convert numbers = .ok xs ↔
    List.Forall₂ (fun number x => convert number = .ok x) numbers xs := by
  induction numbers generalizing xs with
  | nil => simp [convertAll, eq_comm]
  | cons number numbers ih =>
    cases hx : convert number with
    | error why =>
      simp [convertAll, List.forall₂_cons_left_iff, hx, Except.mapError, bind, Except.bind]
    | ok x =>
      simp only [List.forall₂_cons_left_iff, ← ih, hx]
      cases hrest : convertAll convert numbers <;>
        simp [convertAll, hx, hrest, Except.mapError, bind, Except.bind, pure, Except.pure,
          eq_comm]

theorem convertAll_length {xs : List α} (h : convertAll convert numbers = .ok xs) :
    xs.length = numbers.length :=
  (convertAll_eq_ok.mp h).length_eq.symm

theorem convertAll_eq_error {fault : OperandFault} :
    convertAll convert numbers = .error fault ↔
      ∃ before number after why, numbers = before ++ number :: after ∧
        (∀ earlier ∈ before, ∃ x, convert earlier = .ok x) ∧ convert number = .error why ∧
        fault = .conversion why := by
  induction numbers with
  | nil => simp [convertAll]
  | cons number numbers ih =>
    cases hnumber : convert number with
    | error why =>
      have herror : convertAll convert (number :: numbers) = .error (.conversion why) := by
        rw [convertAll, hnumber]
        rfl
      rw [herror]
      constructor
      · intro h
        exact ⟨[], number, numbers, why, rfl, by simp, hnumber, (Except.error.inj h).symm⟩
      · rintro ⟨_ | ⟨first, before⟩, found, after, why', heq, hbefore, hfound, rfl⟩
        · obtain ⟨rfl, rfl⟩ := List.cons.inj heq
          rw [Except.error.inj (hnumber.symm.trans hfound)]
        · obtain ⟨rfl, rfl⟩ := List.cons.inj heq
          obtain ⟨x, hx⟩ := hbefore number List.mem_cons_self
          cases hnumber.symm.trans hx
    | ok x =>
      have hrest : convertAll convert (number :: numbers) = .error fault ↔
          convertAll convert numbers = .error fault := by
        rw [convertAll, hnumber]
        cases convertAll convert numbers <;>
          simp [Except.mapError, bind, Except.bind, pure, Except.pure]
      rw [hrest, ih]
      constructor
      · rintro ⟨before, found, after, why, rfl, hbefore, hfound, rfl⟩
        exact ⟨number :: before, found, after, why, rfl,
          List.forall_mem_cons.mpr ⟨⟨x, hnumber⟩, hbefore⟩, hfound, rfl⟩
      · rintro ⟨_ | ⟨first, before⟩, found, after, why, heq, hbefore, hfound, rfl⟩
        · obtain ⟨rfl, rfl⟩ := List.cons.inj heq
          cases hnumber.symm.trans hfound
        · obtain ⟨rfl, rfl⟩ := List.cons.inj heq
          exact ⟨before, found, after, why, rfl, (List.forall_mem_cons.mp hbefore).2, hfound, rfl⟩

theorem convertAll_ints_error_iff {values : List Value} {why : ConversionFault} :
    convertAll Number.toInt (values.map Value.toNumber) = .error (.conversion why) ↔
      FirstUnconvertible values why := by
  rw [convertAll_eq_error]
  constructor
  · rintro ⟨before, number, after, why', hsplit, hbefore, hnumber, heq⟩
    cases heq
    obtain ⟨first, rest, rfl, rfl, hrest⟩ := List.map_eq_append_iff.mp hsplit
    obtain ⟨v, last, rfl, rfl, rfl⟩ := List.map_eq_cons_iff.mp hrest
    obtain ⟨x, rfl, hx⟩ := Value.toInt_error_iff.mp hnumber
    exact ⟨first, x, last, rfl,
      fun v hv => Value.toInt_ok_iff.mp (hbefore _ (List.mem_map_of_mem hv)), hx⟩
  · rintro ⟨before, x, after, rfl, hbefore, hx⟩
    refine ⟨before.map Value.toNumber, (Value.float x).toNumber, after.map Value.toNumber, why,
      List.map_append, ?_, Value.toInt_error_iff.mpr ⟨x, rfl, hx⟩, rfl⟩
    intro earlier hearlier
    obtain ⟨v, hv, rfl⟩ := List.mem_map.mp hearlier
    exact Value.toInt_ok_iff.mpr (hbefore v hv)

end Conversions

section Operators

variable {op : Operator} {values : List Value} {why : ConversionFault}

/-- An operator on integers fails for a conversion exactly on a float without an integer. -/
theorem Operator.onInts_conversion_iff :
    op.onInts (values.map Value.toNumber) = .error (.conversion why) ↔
      values.length = op.arity ∧ FirstUnconvertible values why := by
  rw [← convertAll_ints_error_iff, onInts_eq_error, List.length_map]
  constructor
  · rintro (⟨-, h⟩ | ⟨hlength, h | ⟨ints, hints, hexact⟩⟩)
    · cases h
    · exact ⟨hlength, h⟩
    · have hcount : ints.length = op.arity := by
        rw [convertAll_length hints, List.length_map, hlength]
      obtain ⟨a, -, ⟨-, h⟩ | ⟨-, h⟩⟩ := exactInt_error hcount hexact <;> cases h
  · rintro ⟨hlength, h⟩
    exact .inr ⟨hlength, .inl h⟩

theorem Operator.onSingles_ne_conversion (hop : op ≠ .mod) :
    op.onSingles (values.map Value.toNumber) ≠ .error (.conversion why) := by
  intro h
  rcases onSingles_eq_error.mp h with ⟨-, h⟩ | ⟨hlength, h | ⟨singles, hsingles, hround⟩⟩
  · cases h
  · obtain ⟨before, number, after, why', hsplit, -, hnumber, -⟩ := convertAll_eq_error.mp h
    have hmem : number ∈ values.map Value.toNumber := by simp [hsplit]
    obtain ⟨v, -, rfl⟩ := List.mem_map.mp hmem
    obtain ⟨x, hx⟩ := v.toSingle_ok
    cases hnumber.symm.trans hx
  · have hcount : singles.length = op.arity := (convertAll_length hsingles).trans hlength
    obtain ⟨x, hx⟩ := roundedSingle_ok singles hcount hop
    cases hx.symm.trans hround

/-- The function of an operator fails for a conversion only if it is one on integers. -/
theorem Operator.function_conversion_iff {ty : Option Ty}
    {function : List Number → Except OperandFault Value} (hf : op.function? ty = some function) :
    function (values.map Value.toNumber) = .error (.conversion why) ↔
      ty = some .int ∧ values.length = op.arity ∧ FirstUnconvertible values why := by
  rcases function_some hf with ⟨rfl, rfl⟩ | ⟨rfl, hop, rfl⟩
  · rw [onInts_conversion_iff]
    exact (and_iff_right rfl).symm
  · exact iff_of_false (onSingles_ne_conversion hop) (by simp)

end Operators

end ProgramTrees
