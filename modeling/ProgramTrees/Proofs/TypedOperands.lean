import Mathlib.Data.List.Basic
import ProgramTrees.Arithmetic

namespace ProgramTrees

/-- Checking and evaluation agree on the types of an operator. -/
theorem Operator.supports_iff_function {op : Operator} {ty : Ty} :
    op.supports ty = true ↔ op.function? (some ty) ≠ none := by
  cases ty with
  | int => cases op <;> simp [supports, supported, function?]
  | float => cases op <;> simp [supports, supported, function?]

theorem Operator.function_some {op : Operator} {ty : Option Ty}
    {function : List Number → Except OperandFault Value} (h : op.function? ty = some function) :
    (ty = some .int ∧ function = op.onInts) ∨
      (ty = some .float ∧ op ≠ .mod ∧ function = op.onSingles) := by
  unfold function? at h
  split at h
  next => cases h
  next =>
    cases h
    exact .inl ⟨rfl, rfl⟩
  next =>
    split at h
    next => cases h
    next hop =>
      cases h
      exact .inr ⟨rfl, hop, rfl⟩

theorem convertAll_map {α β : Type} {convert : Number → Except ConversionFault α}
    (number : β → Number) (value : β → α) (h : ∀ b, convert (number b) = .ok (value b))
    (bs : List β) : convertAll convert (bs.map number) = .ok (bs.map value) := by
  induction bs with
  | nil => rfl
  | cons b bs ih =>
    rw [List.map_cons, convertAll, h, ih]
    rfl

theorem convertAll_ints (ns : List Int32) :
    convertAll Number.toInt ((ns.map Value.int).map Value.toNumber) = .ok (ns.map Int32.toInt) := by
  rw [List.map_map]
  exact convertAll_map (Value.toNumber ∘ Value.int) Int32.toInt (fun _ => rfl) ns

theorem convertAll_singles (xs : List Single) :
    convertAll Number.toSingle ((xs.map Value.float).map Value.toNumber) = .ok xs := by
  rw [List.map_map]
  simpa using convertAll_map (Value.toNumber ∘ Value.float) id (fun _ => rfl) xs

theorem exists_ints {values : List Value} (h : ∀ v ∈ values, v.ty = .int) :
    ∃ ns : List Int32, values = ns.map Value.int := by
  induction values with
  | nil => exact ⟨[], rfl⟩
  | cons v vs ih =>
    obtain ⟨ns, rfl⟩ := ih fun w hw => h w (by simp [hw])
    cases v with
    | int n => exact ⟨n :: ns, rfl⟩
    | float x => exact absurd (h (.float x) (by simp)) (by simp [Value.ty])

theorem exists_singles {values : List Value} (h : ∀ v ∈ values, v.ty = .float) :
    ∃ xs : List Single, values = xs.map Value.float := by
  induction values with
  | nil => exact ⟨[], rfl⟩
  | cons v vs ih =>
    obtain ⟨xs, rfl⟩ := ih fun w hw => h w (by simp [hw])
    cases v with
    | int n => exact absurd (h (.int n) (by simp)) (by simp [Value.ty])
    | float x => exact ⟨x :: xs, rfl⟩

section CarryingOut

variable {op : Operator} {numbers : List Number} {v : Value} {fault : OperandFault}

section

variable {α β : Type} {convert : Number → Except ConversionFault α}
  {compute : List α → Except OperandFault β} {wrap : β → Value}

theorem carriedOut_eq_ok :
    (if numbers.length = op.arity then do
        let xs ← convertAll convert numbers
        return wrap (← compute xs)
      else .error (.wrongCount op numbers.length) : Except OperandFault Value) = .ok v ↔
      numbers.length = op.arity ∧ ∃ xs y, convertAll convert numbers = .ok xs ∧
        compute xs = .ok y ∧ v = wrap y := by
  by_cases hlen : numbers.length = op.arity
  · cases hxs : convertAll convert numbers with
    | error fault => simp [hlen, bind, Except.bind]
    | ok xs =>
      cases hy : compute xs <;>
        simp [hlen, hy, bind, Except.bind, pure, Except.pure, eq_comm]
  · simp [hlen]

theorem carriedOut_eq_error :
    (if numbers.length = op.arity then do
        let xs ← convertAll convert numbers
        return wrap (← compute xs)
      else .error (.wrongCount op numbers.length) : Except OperandFault Value) = .error fault ↔
      (numbers.length ≠ op.arity ∧ fault = .wrongCount op numbers.length) ∨
        (numbers.length = op.arity ∧ (convertAll convert numbers = .error fault ∨
          ∃ xs, convertAll convert numbers = .ok xs ∧ compute xs = .error fault)) := by
  by_cases hlen : numbers.length = op.arity
  · cases hxs : convertAll convert numbers with
    | error fault => simp [hlen, bind, Except.bind]
    | ok xs =>
      cases hy : compute xs <;>
        simp [hlen, hy, bind, Except.bind, pure, Except.pure]
  · simp [hlen, eq_comm]

end

theorem Operator.onInts_eq_ok : op.onInts numbers = .ok v ↔ numbers.length = op.arity ∧
    ∃ ints n, convertAll Number.toInt numbers = .ok ints ∧ op.exactInt ints = .ok n ∧
      v = .int (Int32.ofInt n) := by
  simp only [← wrapInt32_eq]
  exact carriedOut_eq_ok

theorem Operator.onInts_eq_error : op.onInts numbers = .error fault ↔
    (numbers.length ≠ op.arity ∧ fault = .wrongCount op numbers.length) ∨
      (numbers.length = op.arity ∧ (convertAll Number.toInt numbers = .error fault ∨
        ∃ ints, convertAll Number.toInt numbers = .ok ints ∧ op.exactInt ints = .error fault)) :=
  carriedOut_eq_error

theorem Operator.onSingles_eq_ok : op.onSingles numbers = .ok v ↔ numbers.length = op.arity ∧
    ∃ xs x, convertAll Number.toSingle numbers = .ok xs ∧ op.roundedSingle xs = .ok x ∧
      v = .float x :=
  carriedOut_eq_ok

theorem Operator.onSingles_eq_error : op.onSingles numbers = .error fault ↔
    (numbers.length ≠ op.arity ∧ fault = .wrongCount op numbers.length) ∨
      (numbers.length = op.arity ∧ (convertAll Number.toSingle numbers = .error fault ∨
        ∃ xs, convertAll Number.toSingle numbers = .ok xs ∧
          op.roundedSingle xs = .error fault)) :=
  carriedOut_eq_error

theorem Operator.onInts_ok (h : op.onInts numbers = .ok v) : v.ty = .int := by
  obtain ⟨-, _, n, -, -, rfl⟩ := onInts_eq_ok.mp h
  rfl

theorem Operator.onSingles_ok (h : op.onSingles numbers = .ok v) : v.ty = .float := by
  obtain ⟨-, _, x, -, -, rfl⟩ := onSingles_eq_ok.mp h
  rfl

end CarryingOut

theorem Operator.function_ok {op : Operator} {ty : Ty}
    {function : List Number → Except OperandFault Value} {numbers : List Number} {v : Value}
    (hf : op.function? (some ty) = some function) (h : function numbers = .ok v) : v.ty = ty := by
  rcases function_some hf with ⟨hty, rfl⟩ | ⟨hty, -, rfl⟩
  · cases hty
    exact onInts_ok h
  · cases hty
    exact onSingles_ok h

/-- On as many integers as an operator takes, nothing but a zero divisor makes it fail. -/
theorem Operator.exactInt_error {op : Operator} {ints : List Int} {fault : OperandFault}
    (hlen : ints.length = op.arity) (h : op.exactInt ints = .error fault) :
    ∃ a, ints = [a, 0] ∧
      ((op = .div ∧ fault = .divisionByZero) ∨ (op = .mod ∧ fault = .remainderByZero)) := by
  cases op with
  | plus1 | minus1 =>
    obtain ⟨a, rfl⟩ := List.length_eq_one_iff.mp hlen
    cases h
  | plus2 | minus2 | mult =>
    obtain ⟨a, b, rfl⟩ := List.length_eq_two.mp hlen
    cases h
  | div | mod =>
    obtain ⟨a, b, rfl⟩ := List.length_eq_two.mp hlen
    by_cases hb : b = 0
    · subst hb
      cases h
      exact ⟨a, rfl, by simp⟩
    · simp [exactInt, truncatingDiv_eq hb, truncatingMod_eq hb] at h

theorem Operator.roundedSingle_ok {op : Operator} (xs : List Single)
    (hlen : xs.length = op.arity) (hop : op ≠ .mod) : ∃ x, op.roundedSingle xs = .ok x := by
  cases op with
  | plus1 | minus1 =>
    obtain ⟨a, rfl⟩ := List.length_eq_one_iff.mp hlen
    exact ⟨_, rfl⟩
  | plus2 | minus2 | mult | div =>
    obtain ⟨a, b, rfl⟩ := List.length_eq_two.mp hlen
    exact ⟨_, rfl⟩
  | mod => exact absurd rfl hop

/-- An operator on values of the type that it is applied at fails on a zero divisor or on a number
of operands that it does not take. -/
theorem Operator.function_error {op : Operator} {ty : Ty}
    {function : List Number → Except OperandFault Value} {values : List Value}
    {fault : OperandFault} (hf : op.function? (some ty) = some function)
    (hvalues : ∀ v ∈ values, v.ty = ty)
    (h : function (values.map Value.toNumber) = .error fault) :
    (values.length ≠ op.arity ∧ fault = .wrongCount op values.length) ∨
      (ty = .int ∧ (∃ v, values = [v, .int 0]) ∧
        ((op = .div ∧ fault = .divisionByZero) ∨ (op = .mod ∧ fault = .remainderByZero))) := by
  rcases function_some hf with ⟨hty, rfl⟩ | ⟨hty, hop, rfl⟩
  · cases hty
    obtain ⟨ns, rfl⟩ := exists_ints hvalues
    rcases onInts_eq_error.mp h with ⟨hlen, rfl⟩ | ⟨hlen, hconvert | ⟨ints, hints, hexact⟩⟩
    · exact .inl ⟨by simpa using hlen, by simp⟩
    · cases (convertAll_ints ns).symm.trans hconvert
    · cases (convertAll_ints ns).symm.trans hints
      obtain ⟨a, hints, hwhy⟩ := exactInt_error (by simpa using hlen) hexact
      refine .inr ⟨rfl, ?_, hwhy⟩
      obtain ⟨m, n, rfl⟩ := List.length_eq_two.mp (show ns.length = 2 by
        simpa using congrArg List.length hints)
      have hzero : n.toInt = 0 := by simpa using (List.cons.inj (List.cons.inj hints).2).1
      exact ⟨.int m, by simp [Int32.toInt_inj.mp (hzero.trans Int32.toInt_zero.symm)]⟩
  · cases hty
    obtain ⟨xs, rfl⟩ := exists_singles hvalues
    rcases onSingles_eq_error.mp h with ⟨hlen, rfl⟩ | ⟨hlen, hconvert | ⟨singles, hsingles, hround⟩⟩
    · exact .inl ⟨by simpa using hlen, by simp⟩
    · cases (convertAll_singles xs).symm.trans hconvert
    · cases (convertAll_singles xs).symm.trans hsingles
      obtain ⟨x, hx⟩ := roundedSingle_ok xs (by simpa using hlen) hop
      cases hx.symm.trans hround

end ProgramTrees
