import ProgramTrees.Evaluation

namespace ProgramTrees

@[simp] theorem Eval.fault_run {α : Type} (fault : Fault) (m : Machine) :
    (Eval.fault fault : Eval α).run m = .error (.fault fault) m := rfl

@[simp] theorem Eval.store_run (slot : Slot) (value : Option Value) (m : Machine) :
    (Eval.store slot value).run m = .ok () (m.store slot value) := rfl

@[simp] theorem Eval.load_run (slot : Slot) (m : Machine) :
    (Eval.load slot).run m = .ok (m.value slot) m := rfl

theorem Machine.value_store (m : Machine) (slot other : Slot) (value : Option Value) :
    (m.store slot value).value other = if other = slot then value else m.value other := by
  unfold Machine.value Machine.store
  rw [Table.get?_set]
  split
  next => rfl
  next => rfl

@[simp] theorem Machine.value_store_self (m : Machine) (slot : Slot) (value : Option Value) :
    (m.store slot value).value slot = value := by
  simp [Machine.value_store]

@[simp] theorem Machine.value_print (m : Machine) (line : String) (slot : Slot) :
    (m.print line).value slot = m.value slot := rfl

@[simp] theorem Machine.value_endLoop (m : Machine) (rounds : Nat) (slot : Slot) :
    (m.endLoop rounds).value slot = m.value slot := rfl

variable {types : TypeMap} {budget number : Nat} {m m' : Machine} {stop : Stop}
variable {name text : String} {value condition body : Node Nat}

theorem eval_assign_ok :
    ((Node.assign number name value).eval types budget).run m = .ok () m' ↔
      ∃ s, (value.eval types budget).run m = .ok () s ∧
        m' = (s.store (.node number) (s.value value.slot)).store (.name name)
          (s.value value.slot) := by
  rw [Node.eval, EStateM.run_bind]
  cases (value.eval types budget).run m <;> simp [eq_comm]

theorem eval_assign_error :
    ((Node.assign number name value).eval types budget).run m = .error stop m' ↔
      (value.eval types budget).run m = .error stop m' := by
  rw [Node.eval, EStateM.run_bind]
  cases (value.eval types budget).run m <;> simp

theorem eval_declare_ok {ty : Ty} :
    ((Node.declare number ty name (some value)).eval types budget).run m = .ok () m' ↔
      ∃ s, (value.eval types budget).run m = .ok () s ∧
        m' = s.store (.name name) (s.value value.slot) := by
  rw [Node.eval, EStateM.run_bind]
  cases (value.eval types budget).run m <;> simp [eq_comm]

theorem eval_declare_error {ty : Ty} :
    ((Node.declare number ty name (some value)).eval types budget).run m = .error stop m' ↔
      (value.eval types budget).run m = .error stop m' := by
  rw [Node.eval, EStateM.run_bind]
  cases (value.eval types budget).run m <;> simp

theorem eval_print_ok :
    ((Node.print number text (some value)).eval types budget).run m = .ok () m' ↔
      ∃ s, (value.eval types budget).run m = .ok () s ∧
        m' = s.print (text ++ Value.text (s.value value.slot)) := by
  rw [Node.eval, EStateM.run_bind]
  cases (value.eval types budget).run m <;> simp [eq_comm]

theorem eval_print_error :
    ((Node.print number text (some value)).eval types budget).run m = .error stop m' ↔
      (value.eval types budget).run m = .error stop m' := by
  rw [Node.eval, EStateM.run_bind]
  cases (value.eval types budget).run m <;> simp

theorem eval_apply_ok {op : Operator} {operands : List (Node Nat)} :
    ((Node.apply number op operands).eval types budget).run m = .ok () m' ↔
      ∃ function values s result, op.function? (types (.node number)) = some function ∧
        (Node.evalOperands types budget operands).run m = .ok values s ∧
        function (values.map Value.toNumber) = .ok result ∧
        m' = s.store (.node number) (some result) := by
  rw [Node.eval]
  cases op.function? (types (.node number)) with
  | none => simp
  | some function =>
    simp only [EStateM.run_bind, Option.some.injEq]
    cases (Node.evalOperands types budget operands).run m with
    | error stop s => simp
    | ok values s =>
      cases h : function (values.map Value.toNumber) with
      | error fault => simp [h, and_assoc]
      | ok result => simp [h, and_assoc, @eq_comm _ m']

theorem eval_apply_error {op : Operator} {operands : List (Node Nat)} :
    ((Node.apply number op operands).eval types budget).run m = .error stop m' ↔
      (op.function? (types (.node number)) = none ∧ m' = m ∧
        stop = .fault (.noFunction op (types (.node number)) ⟨number, .operatorExpression⟩)) ∨
      ∃ function, op.function? (types (.node number)) = some function ∧
        ((Node.evalOperands types budget operands).run m = .error stop m' ∨
          ∃ values fault, (Node.evalOperands types budget operands).run m = .ok values m' ∧
            function (values.map Value.toNumber) = .error fault ∧
            stop = .fault (.operands fault ⟨number, .operatorExpression⟩)) := by
  rw [Node.eval]
  cases op.function? (types (.node number)) with
  | none => simp [eq_comm, and_comm]
  | some function =>
    simp only [EStateM.run_bind, reduceCtorEq, false_and, false_or, Option.some.injEq,
      exists_eq_left']
    cases (Node.evalOperands types budget operands).run m with
    | error stop s => simp
    | ok values s =>
      cases h : function (values.map Value.toNumber) with
      | error fault => simp [h, and_assoc, @eq_comm _ stop, and_comm]
      | ok result => simp [h, and_assoc]

theorem evalOperands_cons_ok {e : Node Nat} {es : List (Node Nat)} {values : List Value} :
    (Node.evalOperands types budget (e :: es)).run m = .ok values m' ↔
      ∃ s value rest, (e.eval types budget).run m = .ok () s ∧ s.value e.slot = some value ∧
        (Node.evalOperands types budget es).run s = .ok rest m' ∧ values = value :: rest := by
  rw [Node.evalOperands, EStateM.run_bind]
  cases (e.eval types budget).run m with
  | error stop s => simp
  | ok _ s =>
    cases hv : s.value e.slot with
    | none => simp [hv]
    | some value =>
      simp only [EStateM.run_bind, Eval.load_run, hv]
      cases h : (Node.evalOperands types budget es).run s with
      | error stop t => simp [hv, h]
      | ok rest t => simp [hv, h, and_assoc, @eq_comm _ values, and_comm]

theorem evalOperands_cons_error {e : Node Nat} {es : List (Node Nat)} :
    (Node.evalOperands types budget (e :: es)).run m = .error stop m' ↔
      (e.eval types budget).run m = .error stop m' ∨
      ∃ s, (e.eval types budget).run m = .ok () s ∧
        ((s.value e.slot = none ∧ m' = s ∧ stop = .fault (.missingOperand e.site)) ∨
          ((s.value e.slot).isSome ∧
            (Node.evalOperands types budget es).run s = .error stop m')) := by
  rw [Node.evalOperands, EStateM.run_bind]
  cases (e.eval types budget).run m with
  | error stop s => simp
  | ok _ s =>
    cases hv : s.value e.slot with
    | none => simp [hv, @eq_comm _ m', @eq_comm _ stop, and_comm]
    | some value =>
      simp only [EStateM.run_bind, Eval.load_run, hv]
      cases h : (Node.evalOperands types budget es).run s <;> simp [hv, h]

theorem evalAll_cons_ok {n : Node Nat} {ns : List (Node Nat)} :
    (Node.evalAll types budget (n :: ns)).run m = .ok () m' ↔
      ∃ s, (n.eval types budget).run m = .ok () s ∧
        (Node.evalAll types budget ns).run s = .ok () m' := by
  rw [Node.evalAll, EStateM.run_bind]
  cases (n.eval types budget).run m <;> simp

theorem evalAll_cons_error {n : Node Nat} {ns : List (Node Nat)} :
    (Node.evalAll types budget (n :: ns)).run m = .error stop m' ↔
      (n.eval types budget).run m = .error stop m' ∨
      ∃ s, (n.eval types budget).run m = .ok () s ∧
        (Node.evalAll types budget ns).run s = .error stop m' := by
  rw [Node.evalAll, EStateM.run_bind]
  cases (n.eval types budget).run m <;> simp

/-- The test of a loop before each of its rounds. -/
def loopTest (types : TypeMap) (budget : Nat) (condition : Node Nat) : Eval Bool := do
  condition.eval types budget
  return Value.keepsLooping (← Eval.load condition.slot)

theorem eval_loop :
    (Node.loop number condition body).eval types budget =
      repeatWhile (loopTest types budget condition) (body.eval types budget) 0 budget := by
  simp only [Node.eval, loopTest]

theorem loopTest_ok {again : Bool} :
    (loopTest types budget condition).run m = .ok again m' ↔
      (condition.eval types budget).run m = .ok () m' ∧
        again = Value.keepsLooping (m'.value condition.slot) := by
  rw [loopTest, EStateM.run_bind]
  cases (condition.eval types budget).run m with
  | error stop s => simp
  | ok _ s =>
    simp only [EStateM.run_bind, Eval.load_run, EStateM.run_pure, EStateM.Result.ok.injEq,
      true_and]
    constructor
    · rintro ⟨rfl, rfl⟩
      exact ⟨rfl, rfl⟩
    · rintro ⟨rfl, rfl⟩
      exact ⟨rfl, rfl⟩

theorem loopTest_error :
    (loopTest types budget condition).run m = .error stop m' ↔
      (condition.eval types budget).run m = .error stop m' := by
  rw [loopTest, EStateM.run_bind]
  cases (condition.eval types budget).run m <;> simp [EStateM.run_bind, -bind_pure_comp]

theorem repeatWhile_ok {test : Eval Bool} {body : Eval Unit} {rounds : Nat} :
    (repeatWhile test body rounds budget).run m = .ok () m' ↔
      (∃ s, test.run m = .ok false s ∧ m' = s.endLoop rounds) ∨
      ∃ s t rest, budget = rest + 1 ∧ test.run m = .ok true s ∧ body.run s = .ok () t ∧
        (repeatWhile test body (rounds + 1) rest).run t = .ok () m' := by
  cases budget with
  | zero =>
    rw [repeatWhile, EStateM.run_bind]
    rcases test.run m with ⟨_ | _, s⟩ | _ <;> simp [eq_comm]
  | succ budget =>
    rw [repeatWhile, EStateM.run_bind]
    rcases test.run m with ⟨_ | _, s⟩ | _
    · simp [eq_comm]
    · cases h : body.run s <;> simp [h]
    · simp

theorem repeatWhile_error {test : Eval Bool} {body : Eval Unit} {rounds : Nat} :
    (repeatWhile test body rounds budget).run m = .error stop m' ↔
      test.run m = .error stop m' ∨
      (budget = 0 ∧ stop = .outOfRounds ∧ test.run m = .ok true m') ∨
      ∃ s rest, budget = rest + 1 ∧ test.run m = .ok true s ∧
        (body.run s = .error stop m' ∨
          ∃ t, body.run s = .ok () t ∧
            (repeatWhile test body (rounds + 1) rest).run t = .error stop m') := by
  cases budget with
  | zero =>
    rw [repeatWhile, EStateM.run_bind]
    rcases test.run m with ⟨_ | _, s⟩ | _ <;> simp [eq_comm]
  | succ budget =>
    rw [repeatWhile, EStateM.run_bind]
    rcases test.run m with ⟨_ | _, s⟩ | _
    · simp
    · cases h : body.run s <;> simp [h]
    · simp

end ProgramTrees
