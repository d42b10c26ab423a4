import ProgramTrees.Proofs.Outcome
import ProgramTrees.Proofs.Subterms

namespace ProgramTrees

/-- Evaluating the first node from the first state comes to evaluating the second node from the
second state. A loop that has done a round is evaluated anew. -/
inductive Visits (types : TypeMap) : Node Nat → Machine → Node Nat → Machine → Prop where
  | start (n : Node Nat) (m : Machine) : Visits types n m n m
  | operand {number : Nat} {op : Operator} {before after : List (Node Nat)} {e n : Node Nat}
      {budget : Nat} {values : List Value} {m m' s : Machine} :
      op.function? (types (.node number)) ≠ none →
      (Node.evalOperands types budget before).run m = .ok values m' →
      Visits types e m' n s → Visits types (.apply number op (before ++ e :: after)) m n s
  | assigned {number : Nat} {name : String} {value n : Node Nat} {m s : Machine} :
      Visits types value m n s → Visits types (.assign number name value) m n s
  | statement {number : Nat} {before after : List (Node Nat)} {statement n : Node Nat}
      {budget : Nat} {m m' s : Machine} :
      (Node.evalAll types budget before).run m = .ok () m' →
      Visits types statement m' n s →
      Visits types (.sequence number (before ++ statement :: after)) m n s
  | initializer {number : Nat} {ty : Ty} {name : String} {value n : Node Nat} {m s : Machine} :
      Visits types value m n s → Visits types (.declare number ty name (some value)) m n s
  | printed {number : Nat} {text : String} {value n : Node Nat} {m s : Machine} :
      Visits types value m n s → Visits types (.print number text (some value)) m n s
  | condition {number : Nat} {condition body n : Node Nat} {m s : Machine} :
      Visits types condition m n s → Visits types (.loop number condition body) m n s
  | body {number : Nat} {condition body n : Node Nat} {budget : Nat} {m m' s : Machine} :
      (condition.eval types budget).run m = .ok () m' →
      Value.keepsLooping (m'.value condition.slot) = true →
      Visits types body m' n s → Visits types (.loop number condition body) m n s
  | round {number : Nat} {condition body n : Node Nat} {budget : Nat} {m m' m'' s : Machine} :
      (condition.eval types budget).run m = .ok () m' →
      Value.keepsLooping (m'.value condition.slot) = true →
      (body.eval types budget).run m' = .ok () m'' →
      Visits types (.loop number condition body) m'' n s →
      Visits types (.loop number condition body) m n s

/-- The state between the two changes that an assignment makes. -/
def BetweenStores (types : TypeMap) (n : Node Nat) (m s : Machine) : Prop :=
  ∃ number name value budget m', n = .assign number name value ∧
    (value.eval types budget).run m = .ok () m' ∧
    s = m'.store (.node number) (m'.value value.slot)

/-- Evaluating the node from the first state goes through the second: some node is visited in it,
or left in it, be it at the end of the visit or at a stop, or an assignment has made one of its two
changes. All other nodes change the state once, and last. -/
def PassesThrough (types : TypeMap) (p : Node Nat) (m s : Machine) : Prop :=
  ∃ n m', Visits types p m n m' ∧
    (s = m' ∨ (∃ budget, s = ((n.eval types budget).runFrom m').machine) ∨
      BetweenStores types n m' s)

variable {types : TypeMap} {budget : Nat} {m m' s : Machine} {n p : Node Nat}

theorem Visits.mem_subterms (h : Visits types p m n s) : n ∈ p.subterms := by
  induction h with
  | start => exact Node.self_mem_subterms _
  | operand _ _ _ ih => exact Node.mem_subterms_of_child (by simp [Node.children]) ih
  | statement _ _ ih => exact Node.mem_subterms_of_child (by simp [Node.children]) ih
  | round _ _ _ _ ih => exact ih
  | assigned _ ih | initializer _ ih | printed _ ih | condition _ ih | body _ _ _ ih =>
    exact Node.mem_subterms_of_child (by simp [Node.children]) ih

/-- Why the visit of an operation from a state has a fault of its own in another one: there is no
function, an operand has no value, or the function fails. -/
inductive OperationFault (types : TypeMap) (number : Nat) (op : Operator)
    (operands : List (Node Nat)) : Machine → Fault → Machine → Prop where
  | noFunction {m : Machine} : op.function? (types (.node number)) = none →
      OperationFault types number op operands m
        (.noFunction op (types (.node number)) ⟨number, .operatorExpression⟩) m
  | missing {before after : List (Node Nat)} {e : Node Nat} {budget : Nat} {values : List Value}
      {m m' s : Machine} : operands = before ++ e :: after →
      op.function? (types (.node number)) ≠ none →
      (Node.evalOperands types budget before).run m = .ok values m' →
      (e.eval types budget).run m' = .ok () s → s.value e.slot = none →
      OperationFault types number op operands m (.missingOperand e.site) s
  | failed {function : List Number → Except OperandFault Value} {budget : Nat}
      {values : List Value} {fault : OperandFault} {m s : Machine} :
      op.function? (types (.node number)) = some function →
      (Node.evalOperands types budget operands).run m = .ok values s →
      function (values.map Value.toNumber) = .error fault →
      OperationFault types number op operands m
        (.operands fault ⟨number, .operatorExpression⟩) s

theorem evalOperands_stop {es : List (Node Nat)} {stop : Stop}
    (h : (Node.evalOperands types budget es).run m = .error stop m') :
    ∃ before e after values s, es = before ++ e :: after ∧
      (Node.evalOperands types budget before).run m = .ok values s ∧
      ((e.eval types budget).run s = .error stop m' ∨
        ((e.eval types budget).run s = .ok () m' ∧ m'.value e.slot = none ∧
          stop = .fault (.missingOperand e.site))) := by
  induction es generalizing m with
  | nil => simp [Node.evalOperands] at h
  | cons e es ih =>
    rcases evalOperands_cons_error.mp h with h | ⟨s, he, ⟨hv, rfl, rfl⟩ | ⟨hv, h⟩⟩
    · exact ⟨[], e, es, [], m, rfl, rfl, .inl h⟩
    · exact ⟨[], e, es, [], m, rfl, rfl, .inr ⟨he, hv, rfl⟩⟩
    · obtain ⟨before, e', after, values, t, rfl, hb, hstop⟩ := ih h
      obtain ⟨v, hv⟩ := Option.isSome_iff_exists.mp hv
      refine ⟨e :: before, e', after, v :: values, t, rfl, ?_, hstop⟩
      exact evalOperands_cons_ok.mpr ⟨s, v, values, he, hv, hb, rfl⟩

theorem evalAll_stop {ns : List (Node Nat)} {stop : Stop}
    (h : (Node.evalAll types budget ns).run m = .error stop m') :
    ∃ before n after s, ns = before ++ n :: after ∧
      (Node.evalAll types budget before).run m = .ok () s ∧
      (n.eval types budget).run s = .error stop m' := by
  induction ns generalizing m with
  | nil => simp [Node.evalAll] at h
  | cons n ns ih =>
    rcases evalAll_cons_error.mp h with h | ⟨s, hn, h⟩
    · exact ⟨[], n, ns, m, rfl, rfl, h⟩
    · obtain ⟨before, n', after, t, rfl, hb, hstop⟩ := ih h
      exact ⟨n :: before, n', after, t, rfl, evalAll_cons_ok.mpr ⟨s, hn, hb⟩, hstop⟩

/-- Every fault is the own fault of an operation that is visited. -/
theorem fault_origin {fault : Fault} (n : Node Nat) {m m' : Machine}
    (h : (n.eval types budget).run m = .error (.fault fault) m') :
    ∃ number op operands s, Visits types n m (.apply number op operands) s ∧
      OperationFault types number op operands s fault m' := by
  induction n using Node.induction generalizing m with
  | int | float | var => simp [Node.eval] at h
  | apply number op operands ih =>
    rcases eval_apply_error.mp h with ⟨hf, rfl, heq⟩ | ⟨function, hf, h | ⟨values, why, he, hr, heq⟩⟩
    · cases heq
      exact ⟨number, op, operands, m', .start _ _, .noFunction hf⟩
    · obtain ⟨before, e, after, values, s, rfl, hb, h | ⟨he, hv, heq⟩⟩ := evalOperands_stop h
      · obtain ⟨k, op', es, t, hvisit, horigin⟩ := ih e (by simp) h
        exact ⟨k, op', es, t, .operand (by simp [hf]) hb hvisit, horigin⟩
      · cases heq
        exact ⟨number, op, _, m, .start _ _, .missing rfl (by simp [hf]) hb he hv⟩
    · cases heq
      exact ⟨number, op, operands, m, .start _ _, .failed hf he hr⟩
  | assign number name value ih =>
    obtain ⟨k, op, es, s, hvisit, horigin⟩ := ih (eval_assign_error.mp h)
    exact ⟨k, op, es, s, .assigned hvisit, horigin⟩
  | sequence number statements ih =>
    rw [Node.eval] at h
    obtain ⟨before, n, after, s, rfl, hb, h⟩ := evalAll_stop h
    obtain ⟨k, op, es, t, hvisit, horigin⟩ := ih n (by simp) h
    exact ⟨k, op, es, t, .statement hb hvisit, horigin⟩
  | declare number ty name value ih =>
    cases value with
    | none => simp [Node.eval] at h
    | some value =>
      obtain ⟨k, op, es, s, hvisit, horigin⟩ := ih value rfl (eval_declare_error.mp h)
      exact ⟨k, op, es, s, .initializer hvisit, horigin⟩
  | print number text value ih =>
    cases value with
    | none => simp [Node.eval] at h
    | some value =>
      obtain ⟨k, op, es, s, hvisit, horigin⟩ := ih value rfl (eval_print_error.mp h)
      exact ⟨k, op, es, s, .printed hvisit, horigin⟩
  | loop number condition body hcondition hbody =>
    rw [eval_loop] at h
    -- the rounds that are left bound the induction; the budget of the parts stays what it is
    suffices rounds : ∀ left done m,
        (repeatWhile (loopTest types budget condition) (body.eval types budget) done left).run m =
          .error (.fault fault) m' →
        ∃ number' op operands s,
          Visits types (.loop number condition body) m (.apply number' op operands) s ∧
            OperationFault types number' op operands s fault m' from rounds _ _ _ h
    intro left
    induction left with
    | zero =>
      intro done m h
      rcases repeatWhile_error.mp h with h | ⟨_, heq, _⟩ | ⟨_, _, heq, _⟩
      · obtain ⟨k, op, es, s, hvisit, horigin⟩ := hcondition (loopTest_error.mp h)
        exact ⟨k, op, es, s, .condition hvisit, horigin⟩
      · cases heq
      · cases heq
    | succ left ih =>
      intro done m h
      rcases repeatWhile_error.mp h with h | ⟨heq, _⟩ | ⟨s, rest, heq, htest, h⟩
      · obtain ⟨k, op, es, s, hvisit, horigin⟩ := hcondition (loopTest_error.mp h)
        exact ⟨k, op, es, s, .condition hvisit, horigin⟩
      · cases heq
      · cases heq
        obtain ⟨hc, hagain⟩ := loopTest_ok.mp htest
        rcases h with h | ⟨t, hb, h⟩
        · obtain ⟨k, op, es, u, hvisit, horigin⟩ := hbody h
          exact ⟨k, op, es, u, .body hc hagain.symm hvisit, horigin⟩
        · obtain ⟨k, op, es, u, hvisit, horigin⟩ := ih (done + 1) t h
          exact ⟨k, op, es, u, .round hc hagain.symm hb hvisit, horigin⟩

end ProgramTrees
