import Mathlib.Data.Int.ModEq
import ProgramTrees.Proofs.Outcome
import ProgramTrees.Proofs.Subterms
import ProgramTrees.Proofs.TypedOperands

namespace ProgramTrees

/-- The operators that add, subtract, negate or multiply, or leave an operand as it is. -/
def Operator.isPolynomial : Operator → Bool
  | .plus1 | .minus1 | .plus2 | .minus2 | .mult => true
  | .div | .mod => false

/-- Integer literals and variables, joined by sums, differences and products. -/
inductive IsPolynomial : Node Nat → Prop where
  | int (number : Nat) (n : Int32) : IsPolynomial (.int number n)
  | var (number : Nat) (name : String) : IsPolynomial (.var number name)
  | apply (number : Nat) {op : Operator} {operands : List (Node Nat)} : op.isPolynomial = true →
      operands.length = op.arity → (∀ e ∈ operands, IsPolynomial e) →
      IsPolynomial (.apply number op operands)

/-- The result on integers of any size; zero where the operator has none. -/
def Operator.exactResult : Operator → List Int → Int
  | .plus1, [a] => a
  | .minus1, [a] => -a
  | .plus2, [a, b] => a + b
  | .minus2, [a, b] => a - b
  | .mult, [a, b] => a * b
  | _, _ => 0

mutual

/-- The value of a polynomial on integers of any size, where variables have the given values. -/
def Node.exactValue (valueOf : String → Int) : Node Nat → Int
  | .int _ n => n.toInt
  | .var _ name => valueOf name
  | .apply _ op operands => op.exactResult (Node.exactValues valueOf operands)
  | _ => 0

def Node.exactValues (valueOf : String → Int) : List (Node Nat) → List Int
  | [] => []
  | e :: es => e.exactValue valueOf :: Node.exactValues valueOf es

end

/-- A polynomial all of whose nodes are typed as integers, in a state in which its variables have
integers as values. -/
structure Node.Computes (types : TypeMap) (valueOf : String → Int32) (m : Machine)
    (e : Node Nat) : Prop where
  polynomial : IsPolynomial e
  typed : ∀ a ∈ e.subterms, types a.slot = some .int
  known : ∀ name ∈ e.names, m.value (.name name) = some (.int (valueOf name))

section Wrapping

/-- Wrapping around gives the one integer of thirty-two bits in the class of an integer. -/
theorem eq_wrapped_iff (z n : Int) :
    (-2 ^ 31 ≤ z ∧ z ≤ 2 ^ 31 - 1 ∧ z ≡ n [ZMOD 2 ^ 32]) ↔ z = (Int32.ofInt n).toInt := by
  have hwrapped : (Int32.ofInt n).toInt = n.bmod (2 ^ 32) := Int32.toInt_ofInt
  constructor
  · rintro ⟨hlow, hhigh, hmod⟩
    have hbmod : z.bmod (2 ^ 32) = n.bmod (2 ^ 32) := by
      rw [← Int.emod_bmod z, ← Int.emod_bmod n]
      exact congrArg (Int.bmod · (2 ^ 32)) hmod
    rw [hwrapped, ← hbmod]
    have hself : z.bmod (2 ^ 32) = z := by
      apply Int.bmod_eq_of_le <;> omega
    exact hself.symm
  · rintro rfl
    have hlow := Int32.le_toInt (Int32.ofInt n)
    have hhigh := Int32.toInt_lt (Int32.ofInt n)
    refine ⟨hlow, by omega, ?_⟩
    rw [hwrapped]
    exact Int.bmod_emod

theorem Operator.onInts_wrapped {op : Operator} (hop : op.isPolynomial = true) {ints : List Int}
    (hlength : ints.length = op.arity) :
    op.onInts ((ints.map fun n => Value.int (Int32.ofInt n)).map Value.toNumber) =
      .ok (.int (Int32.ofInt (op.exactResult ints))) := by
  have hconvert := convertAll_ints (ints.map Int32.ofInt)
  rw [List.map_map, List.map_map] at hconvert
  have hresult : ∃ n, op.exactInt ((ints.map Int32.ofInt).map Int32.toInt) = .ok n ∧
      Int32.ofInt n = Int32.ofInt (op.exactResult ints) := by
    cases op with
    | plus1 =>
      obtain ⟨a, rfl⟩ := List.length_eq_one_iff.mp hlength
      exact ⟨_, rfl, Int32.ofInt_toInt _⟩
    | minus1 =>
      obtain ⟨a, rfl⟩ := List.length_eq_one_iff.mp hlength
      refine ⟨_, rfl, ?_⟩
      rw [exactResult, Int32.ofInt_neg, Int32.ofInt_toInt, Int32.ofInt_neg]
    | plus2 =>
      obtain ⟨a, b, rfl⟩ := List.length_eq_two.mp hlength
      refine ⟨_, rfl, ?_⟩
      rw [exactResult, Int32.ofInt_add, Int32.ofInt_toInt, Int32.ofInt_toInt, Int32.ofInt_add]
    | minus2 =>
      obtain ⟨a, b, rfl⟩ := List.length_eq_two.mp hlength
      refine ⟨_, rfl, ?_⟩
      rw [exactResult, Int32.ofInt_sub, Int32.ofInt_toInt, Int32.ofInt_toInt, Int32.ofInt_sub]
    | mult =>
      obtain ⟨a, b, rfl⟩ := List.length_eq_two.mp hlength
      refine ⟨_, rfl, ?_⟩
      rw [exactResult, Int32.ofInt_mul, Int32.ofInt_toInt, Int32.ofInt_toInt, Int32.ofInt_mul]
    | div | mod => exact nomatch hop
  obtain ⟨n, hexact, hwrapped⟩ := hresult
  refine onInts_eq_ok.mpr ⟨by simpa using hlength, _, n, ?_, hexact, by rw [hwrapped]⟩
  rw [List.map_map]
  exact hconvert

end Wrapping

section Evaluation

variable {types : TypeMap} {valueOf : String → Int32} {budget : Nat} {m : Machine}
  {e : Node Nat} {operands : List (Node Nat)}

theorem length_exactValues (values : String → Int) (operands : List (Node Nat)) :
    (Node.exactValues values operands).length = operands.length := by
  induction operands with
  | nil => rfl
  | cons e es ih => rw [Node.exactValues, List.length_cons, List.length_cons, ih]

theorem Node.Computes.operand {number : Nat} {op : Operator}
    (h : (Node.apply number op operands).Computes types valueOf m) (he : e ∈ operands) :
    e.Computes types valueOf m := by
  cases h.polynomial with
  | apply _ _ _ hoperands =>
    exact ⟨hoperands e he, fun a ha => h.typed a (Node.mem_subterms_of_child he ha),
      fun name hname => h.known name (Node.mem_names_of_child he hname)⟩

/-- A machine in which the variables have the values that they had. -/
def Machine.SameVariables (m m' : Machine) : Prop :=
  ∀ name, m'.value (.name name) = m.value (.name name)

theorem Node.Computes.later {m' : Machine} (h : e.Computes types valueOf m)
    (hsame : m.SameVariables m') : e.Computes types valueOf m' :=
  ⟨h.polynomial, h.typed, fun name hname => (hsame name).trans (h.known name hname)⟩

/-- Evaluating the expression ends with its wrapped exact value and leaves the variables alone. -/
def ValuedExactly (types : TypeMap) (valueOf : String → Int32) (budget : Nat) (m : Machine)
    (e : Node Nat) : Prop :=
  ∃ m', (e.eval types budget).run m = .ok () m' ∧
    m'.value e.slot =
      some (.int (Int32.ofInt (e.exactValue fun name => (valueOf name).toInt))) ∧
    m.SameVariables m'

/-- The loop over the operands fixes the wrapped exact value of each. -/
theorem evalOperands_exact (budget : Nat)
    (ih : ∀ e ∈ operands, ∀ m, e.Computes types valueOf m →
      ValuedExactly types valueOf budget m e)
    (h : ∀ e ∈ operands, e.Computes types valueOf m) :
    ∃ m', (Node.evalOperands types budget operands).run m =
        .ok ((Node.exactValues (fun name => (valueOf name).toInt) operands).map
          fun n => Value.int (Int32.ofInt n)) m' ∧ m.SameVariables m' := by
  induction operands generalizing m with
  | nil => exact ⟨m, rfl, fun _ => rfl⟩
  | cons e es ih' =>
    obtain ⟨s, hrun, hvalue, hsame⟩ := ih e (List.mem_cons_self ..) m (h e (List.mem_cons_self ..))
    have hlater : ∀ e' ∈ es, e'.Computes types valueOf s :=
      fun e' he' => (h e' (List.mem_cons_of_mem _ he')).later hsame
    obtain ⟨m', hrest, hsame'⟩ := ih' (fun e' he' => ih e' (List.mem_cons_of_mem _ he')) hlater
    refine ⟨m', evalOperands_cons_ok.mpr ⟨s, _, _, hrun, hvalue, hrest, rfl⟩, ?_⟩
    exact fun name => (hsame' name).trans (hsame name)

theorem eval_exact (budget : Nat) (e : Node Nat) (h : e.Computes types valueOf m) :
    ValuedExactly types valueOf budget m e := by
  have hpolynomial := h.polynomial
  induction hpolynomial generalizing m with
  | int number n =>
    refine ⟨m.store (.node number) (some (.int n)), by simp [Node.eval], ?_, ?_⟩
    · simp [Node.slot, Node.tag, Node.exactValue, Int32.ofInt_toInt]
    · exact fun name => by simp [Machine.value_store]
  | var number name =>
    refine ⟨m, by simp [Node.eval], ?_, fun _ => rfl⟩
    rw [Node.slot, Node.exactValue, Int32.ofInt_toInt]
    exact h.known name (by simp [Node.names, Node.subterms, Node.name?])
  | @apply number op operands hop hlength hoperands ih =>
    have hty : types (.node number) = some .int := h.typed _ (Node.self_mem_subterms _)
    obtain ⟨s, hrun, hsame⟩ := evalOperands_exact budget
      (fun e he m hm => ih e he hm) fun e he => h.operand he
    have hresult := Operator.onInts_wrapped hop
      ((length_exactValues (fun name => (valueOf name).toInt) operands).trans hlength)
    refine ⟨_, eval_apply_ok.mpr ⟨op.onInts, _, s, _, by rw [hty]; rfl, hrun, hresult, rfl⟩, ?_, ?_⟩
    · simp [Node.slot, Node.tag, Node.exactValue]
    · exact fun name => by simpa [Machine.value_store] using hsame name

end Evaluation

/-- Expressions that differ in how their sums and products are grouped and ordered. -/
inductive Rearranged : Node Nat → Node Nat → Prop where
  | symm {e e' : Node Nat} : Rearranged e e' → Rearranged e' e
  | trans {e e' e'' : Node Nat} : Rearranged e e' → Rearranged e' e'' → Rearranged e e''
  | int (a b : Nat) (n : Int32) : Rearranged (.int a n) (.int b n)
  | var (a b : Nat) (name : String) : Rearranged (.var a name) (.var b name)
  | sign (a b : Nat) (op : Operator) {e e' : Node Nat} : Rearranged e e' →
      Rearranged (.apply a op [e]) (.apply b op [e'])
  | binary (a b : Nat) (op : Operator) {l r l' r' : Node Nat} : Rearranged l l' →
      Rearranged r r' → Rearranged (.apply a op [l, r]) (.apply b op [l', r'])
  | reorder (a b : Nat) {op : Operator} (l r : Node Nat) : op = .plus2 ∨ op = .mult →
      Rearranged (.apply a op [l, r]) (.apply b op [r, l])
  | regroup (a b c d : Nat) {op : Operator} (x y z : Node Nat) : op = .plus2 ∨ op = .mult →
      Rearranged (.apply a op [.apply b op [x, y], z]) (.apply c op [x, .apply d op [y, z]])

theorem Rearranged.exactValue_eq {e e' : Node Nat} (h : Rearranged e e')
    (valueOf : String → Int) : e.exactValue valueOf = e'.exactValue valueOf := by
  induction h with
  | symm _ ih => exact ih.symm
  | trans _ _ ih ih' => exact ih.trans ih'
  | int | var => rfl
  | sign _ _ op _ ih => simp only [Node.exactValue, Node.exactValues, ih]
  | binary _ _ op _ _ ihl ihr => simp only [Node.exactValue, Node.exactValues, ihl, ihr]
  | reorder _ _ l r hop =>
    rcases hop with rfl | rfl
    · exact Int.add_comm _ _
    · exact Int.mul_comm _ _
  | regroup _ _ _ _ x y z hop =>
    rcases hop with rfl | rfl
    · exact Int.add_assoc _ _ _
    · exact Int.mul_assoc _ _ _

/-- A polynomial is evaluated without a fault, and its value is the one integer of thirty-two bits
that is congruent to its exact value. A rearranged polynomial has the same value wherever its
variables have the same values. -/
theorem polynomial_value_wraps_once {types : TypeMap} {valueOf : String → Int32} {m : Machine}
    {e : Node Nat} (he : e.Computes types valueOf m) (budget : Nat) :
    ∃ m' k, (e.eval types budget).run m = .ok () m' ∧ m'.value e.slot = some (.int k) ∧
      (∀ z : Int, (-2 ^ 31 ≤ z ∧ z ≤ 2 ^ 31 - 1 ∧
        z ≡ e.exactValue (fun name => (valueOf name).toInt) [ZMOD 2 ^ 32]) ↔ z = k.toInt) ∧
      ∀ e' types' s budget', Rearranged e e' → e'.Computes types' valueOf s →
        ∃ s', (e'.eval types' budget').run s = .ok () s' ∧
          s'.value e'.slot = some (.int k) := by
  obtain ⟨m', hrun, hvalue, -⟩ := eval_exact budget e he
  refine ⟨m', _, hrun, hvalue, fun z => eq_wrapped_iff z _, ?_⟩
  intro e' types' s budget' hrearranged he'
  obtain ⟨s', hrun', hvalue', -⟩ := eval_exact budget' e' he'
  exact ⟨s', hrun', by rw [hvalue', hrearranged.exactValue_eq]⟩

/-- A square and the greatest integer, and a negated variable taken away from their sum. -/
def overflowingSum : Node Nat :=
  .apply 0 .minus2 [
    .apply 1 .plus2 [.apply 2 .mult [.var 3 "i", .var 3 "i"], .int 4 2147483647],
    .apply 5 .minus1 [.var 6 "i"]]

/-- The same with the greatest integer in front of the square. -/
def reorderedSum : Node Nat :=
  .apply 7 .minus2 [
    .apply 8 .plus2 [.int 4 2147483647, .apply 2 .mult [.var 3 "i", .var 3 "i"]],
    .apply 5 .minus1 [.var 6 "i"]]

/-- With `i` at a hundred thousand the square and the sum are beyond thirty-two bits. -/
theorem overflowingSum_wraps_once :
    let types : TypeMap := fun _ => some .int
    let valueOf : String → Int32 := fun _ => 100000
    let m : Machine := Machine.store {} (.name "i") (some (.int 100000))
    overflowingSum.Computes types valueOf m ∧ Rearranged overflowingSum reorderedSum ∧
      reorderedSum.Computes types valueOf m ∧
      overflowingSum.exactValue (fun name => (valueOf name).toInt) = 12147583647 ∧
      ∃ m' k, (overflowingSum.eval types 0).run m = .ok () m' ∧
        m'.value overflowingSum.slot = some (.int k) ∧ k.toInt = -737318241 ∧
        ∃ s', (reorderedSum.eval types 0).run m = .ok () s' ∧
          s'.value reorderedSum.slot = some (.int k) := by
  intro types valueOf m
  have hi (number : Nat) : IsPolynomial (.var number "i") := .var number "i"
  have hsquare : IsPolynomial (.apply 2 .mult [.var 3 "i", .var 3 "i"]) :=
    .apply 2 rfl rfl (by simp [hi])
  have hnegated : IsPolynomial (.apply 5 .minus1 [.var 6 "i"]) := .apply 5 rfl rfl (by simp [hi])
  have hgreatest : IsPolynomial (.int 4 2147483647) := .int 4 2147483647
  have hsum (number : Nat) {l r : Node Nat} (hl : IsPolynomial l) (hr : IsPolynomial r) :
      IsPolynomial (.apply number .plus2 [l, r]) := .apply number rfl rfl (by simp [hl, hr])
  have hknown {e : Node Nat} (hnames : e.names.all (· = "i") = true) :
      ∀ name ∈ e.names, m.value (.name name) = some (.int (valueOf name)) := by
    intro name hname
    have hname : name = "i" := by simpa using List.all_eq_true.mp hnames name hname
    rw [hname]
    rfl
  have he : overflowingSum.Computes types valueOf m :=
    ⟨.apply 0 rfl rfl (by simp [hsum 1 hsquare hgreatest, hnegated]), fun _ _ => rfl,
      hknown (by decide)⟩
  have he' : reorderedSum.Computes types valueOf m :=
    ⟨.apply 7 rfl rfl (by simp [hsum 8 hgreatest hsquare, hnegated]), fun _ _ => rfl,
      hknown (by decide)⟩
  have hrearranged : Rearranged overflowingSum reorderedSum :=
    .binary 0 7 .minus2 (.reorder 1 8 _ _ (.inl rfl)) (.sign 5 5 .minus1 (.var 6 6 "i"))
  obtain ⟨m', k, hrun, hvalue, hclass, hsame⟩ := polynomial_value_wraps_once he 0
  exact ⟨he, hrearranged, he', by decide, m', k, hrun, hvalue,
    ((hclass (-737318241)).mp ⟨by decide, by decide, by decide⟩).symm,
    hsame reorderedSum types m 0 hrearranged he'⟩

end ProgramTrees
