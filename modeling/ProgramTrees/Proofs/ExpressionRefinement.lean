import ProgramTrees.Proofs.Budget
import ProgramTrees.Proofs.Environment

namespace ProgramTrees

/-- What the semantics on environments sees of a state. -/
def Machine.environment (m : Machine) : Environment where
  value name := m.value (.name name)
  output := m.output

@[simp] theorem Machine.output_store (m : Machine) (slot : Slot) (value : Option Value) :
    (m.store slot value).output = m.output := rfl

@[simp] theorem Machine.environment_store_node (m : Machine) (number : Nat)
    (value : Option Value) : (m.store (.node number) value).environment = m.environment := by
  simp [environment, value_store]

@[simp] theorem Machine.environment_store_name (m : Machine) (name : String)
    (value : Option Value) :
    (m.store (.name name) value).environment = m.environment.assign name value := by
  simp [environment, value_store, Environment.assign]

@[simp] theorem Machine.environment_print (m : Machine) (line : String) :
    (m.print line).environment = m.environment.print line := rfl

@[simp] theorem Machine.environment_endLoop (m : Machine) (rounds : Nat) :
    (m.endLoop rounds).environment = m.environment := rfl

/-- What the semantics on environments sees of the end of an evaluation whose result is read off
by `read`; a run that was given up shows nothing. -/
def reading {α β : Type} (read : α → Machine → β) :
    EStateM.Result Stop Machine α → Option (Except Fault β × Environment)
  | .ok a s => some (.ok (read a s), s.environment)
  | .error (.fault fault) s => some (.error fault, s.environment)
  | .error .outOfRounds _ => none

abbrev leftIn (slot : Slot) :
    EStateM.Result Stop Machine Unit → Option (Except Fault (Option Value) × Environment) :=
  reading fun _ s => s.value slot

theorem reading_eq_ok {α β : Type} {read : α → Machine → β}
    {result : EStateM.Result Stop Machine α} {b : β} {env : Environment} :
    reading read result = some (.ok b, env) ↔
      ∃ a s, result = .ok a s ∧ read a s = b ∧ s.environment = env := by
  rcases result with ⟨a, s⟩ | ⟨_ | _, s⟩ <;> simp [reading, and_assoc]

theorem reading_eq_error {α β : Type} {read : α → Machine → β}
    {result : EStateM.Result Stop Machine α} {fault : Fault} {env : Environment} :
    reading read result = some (.error fault, env) ↔
      ∃ s, result = .error (.fault fault) s ∧ s.environment = env := by
  rcases result with ⟨a, s⟩ | ⟨_ | _, s⟩ <;> simp [reading, and_assoc]

variable {types : TypeMap} {budget : Nat}

theorem evalOperands_of_yieldsAll {es : List (Node Nat)}
    (ih : ∀ e ∈ es, ∀ {m : Machine} {r : Except Fault (Option Value)} {env : Environment},
      Yields types e m.environment r env →
        leftIn e.slot ((e.eval types budget).run m) = some (r, env))
    {m : Machine} {r : Except Fault (List Value)} {env : Environment}
    (h : YieldsAll types es m.environment r env) :
    reading (fun values _ => values) ((Node.evalOperands types budget es).run m) =
      some (r, env) := by
  induction es generalizing m r with
  | nil =>
    cases h
    rfl
  | cons e es ih' =>
    have he := fun {m : Machine} {r : Except Fault (Option Value)} {env : Environment} =>
      @ih e (by simp) m r env
    have hrest := fun {m : Machine} {r : Except Fault (List Value)} =>
      @ih' (fun e' he' => ih e' (by simp [he'])) m r
    cases h with
    | cons h htail =>
      obtain ⟨_, s, hs, hv, rfl⟩ := reading_eq_ok.mp (he h)
      obtain ⟨vs, t, ht, rfl, rfl⟩ := reading_eq_ok.mp (hrest htail)
      exact reading_eq_ok.mpr
        ⟨_, t, evalOperands_cons_ok.mpr ⟨s, _, vs, hs, hv, ht, rfl⟩, rfl, rfl⟩
    | later h htail =>
      obtain ⟨_, s, hs, hv, rfl⟩ := reading_eq_ok.mp (he h)
      obtain ⟨t, ht, rfl⟩ := reading_eq_error.mp (hrest htail)
      exact reading_eq_error.mpr
        ⟨t, evalOperands_cons_error.mpr (.inr ⟨s, hs, .inr ⟨by simp [hv], ht⟩⟩), rfl⟩
    | missing h =>
      obtain ⟨_, s, hs, hv, rfl⟩ := reading_eq_ok.mp (he h)
      exact reading_eq_error.mpr
        ⟨s, evalOperands_cons_error.mpr (.inr ⟨s, hs, .inl ⟨hv, rfl, rfl⟩⟩), rfl⟩
    | fault h =>
      obtain ⟨s, hs, rfl⟩ := reading_eq_error.mp (he h)
      exact reading_eq_error.mpr ⟨s, evalOperands_cons_error.mpr (.inl hs), rfl⟩

theorem eval_of_yields (budget : Nat) (e : Node Nat) {m : Machine} {r : Except Fault (Option Value)}
    {env : Environment} (h : Yields types e m.environment r env) :
    leftIn e.slot ((e.eval types budget).run m) = some (r, env) := by
  induction e using Node.induction generalizing m r env with
  | int number n =>
    cases h
    exact reading_eq_ok.mpr ⟨(), m.store (.node number) _, by rw [Node.eval]; rfl,
      by simp [Node.slot, Node.tag], by simp⟩
  | float number x =>
    cases h
    exact reading_eq_ok.mpr ⟨(), m.store (.node number) _, by rw [Node.eval]; rfl,
      by simp [Node.slot, Node.tag], by simp⟩
  | var number name =>
    cases h
    exact reading_eq_ok.mpr ⟨(), m, by rw [Node.eval]; rfl, rfl, rfl⟩
  | apply number op operands ih =>
    cases h with
    | noFunction hf =>
      exact reading_eq_error.mpr ⟨m, eval_apply_error.mpr (.inl ⟨hf, rfl, rfl⟩), rfl⟩
    | operandFault hf hes =>
      obtain ⟨function, hf⟩ := Option.ne_none_iff_exists'.mp hf
      obtain ⟨s, hs, rfl⟩ := reading_eq_error.mp (evalOperands_of_yieldsAll ih hes)
      exact reading_eq_error.mpr
        ⟨s, eval_apply_error.mpr (.inr ⟨function, hf, .inl hs⟩), rfl⟩
    | applied hf hes hr =>
      obtain ⟨values, s, hs, rfl, rfl⟩ := reading_eq_ok.mp (evalOperands_of_yieldsAll ih hes)
      exact reading_eq_ok.mpr ⟨(), _, eval_apply_ok.mpr ⟨_, values, s, _, hf, hs, hr, rfl⟩,
        by simp [Node.slot, Node.tag], by simp⟩
    | failed hf hes hr =>
      obtain ⟨values, s, hs, rfl, rfl⟩ := reading_eq_ok.mp (evalOperands_of_yieldsAll ih hes)
      exact reading_eq_error.mpr
        ⟨s, eval_apply_error.mpr (.inr ⟨_, hf, .inr ⟨values, _, hs, hr, rfl⟩⟩), rfl⟩
  | assign number name value ih =>
    cases h with
    | assign h =>
      obtain ⟨_, s, hs, rfl, rfl⟩ := reading_eq_ok.mp (ih h)
      exact reading_eq_ok.mpr ⟨(), _, eval_assign_ok.mpr ⟨s, hs, rfl⟩,
        by simp [Node.slot, Node.tag, Machine.value_store], by simp⟩
    | assignFault h =>
      obtain ⟨s, hs, rfl⟩ := reading_eq_error.mp (ih h)
      exact reading_eq_error.mpr ⟨s, eval_assign_error.mpr hs, rfl⟩
  | sequence | declare | print | loop => cases h

theorem yieldsAll_of_evalOperands {es : List (Node Nat)}
    (ih : ∀ e ∈ es, ∀ m : Machine, ∃ r env,
      leftIn e.slot ((e.eval types budget).run m) = some (r, env) ∧
        Yields types e m.environment r env) (m : Machine) :
    ∃ r env, reading (fun values _ => values) ((Node.evalOperands types budget es).run m) =
        some (r, env) ∧ YieldsAll types es m.environment r env := by
  induction es generalizing m with
  | nil => exact ⟨.ok [], m.environment, rfl, .nil⟩
  | cons e es ih' =>
    obtain ⟨r, env, hr, hy⟩ := ih e (by simp) m
    cases r with
    | error fault =>
      obtain ⟨s, hs, rfl⟩ := reading_eq_error.mp hr
      exact ⟨_, _, reading_eq_error.mpr ⟨s, evalOperands_cons_error.mpr (.inl hs), rfl⟩,
        .fault hy⟩
    | ok v =>
      obtain ⟨_, s, hs, hv, rfl⟩ := reading_eq_ok.mp hr
      cases v with
      | none =>
        exact ⟨_, _, reading_eq_error.mpr
          ⟨s, evalOperands_cons_error.mpr (.inr ⟨s, hs, .inl ⟨hv, rfl, rfl⟩⟩), rfl⟩, .missing hy⟩
      | some v =>
        obtain ⟨r, env, hr, hrest⟩ := ih' (fun e' he' => ih e' (by simp [he'])) s
        cases r with
        | error fault =>
          obtain ⟨t, ht, rfl⟩ := reading_eq_error.mp hr
          exact ⟨_, _, reading_eq_error.mpr ⟨t, evalOperands_cons_error.mpr
            (.inr ⟨s, hs, .inr ⟨by simp [hv], ht⟩⟩), rfl⟩, .later hy hrest⟩
        | ok vs =>
          obtain ⟨vs, t, ht, rfl, rfl⟩ := reading_eq_ok.mp hr
          exact ⟨_, _, reading_eq_ok.mpr ⟨_, t, evalOperands_cons_ok.mpr
            ⟨s, v, vs, hs, hv, ht, rfl⟩, rfl, rfl⟩, .cons hy hrest⟩

/-- The evaluation of an expression comes to its end or to a fault, and the expression yields what
is then in its place. -/
theorem yields_of_eval (types : TypeMap) (budget : Nat) {e : Node Nat} (he : IsExpr e)
    (m : Machine) :
    ∃ r env, leftIn e.slot ((e.eval types budget).run m) = some (r, env) ∧
      Yields types e m.environment r env := by
  induction he generalizing m with
  | int number n =>
    exact ⟨_, _, reading_eq_ok.mpr ⟨(), m.store (.node number) _, by rw [Node.eval]; rfl,
      by simp [Node.slot, Node.tag], by simp⟩, .int number n⟩
  | float number x =>
    exact ⟨_, _, reading_eq_ok.mpr ⟨(), m.store (.node number) _, by rw [Node.eval]; rfl,
      by simp [Node.slot, Node.tag], by simp⟩, .float number x⟩
  | var number name =>
    exact ⟨_, _, reading_eq_ok.mpr ⟨(), m, by rw [Node.eval]; rfl, rfl, rfl⟩, .var number name⟩
  | @apply number op operands _ ih =>
    cases hf : op.function? (types (.node number)) with
    | none =>
      exact ⟨_, _, reading_eq_error.mpr ⟨m, eval_apply_error.mpr (.inl ⟨hf, rfl, rfl⟩), rfl⟩,
        .noFunction hf⟩
    | some function =>
      obtain ⟨r, env, hr, hy⟩ := yieldsAll_of_evalOperands ih m
      cases r with
      | error fault =>
        obtain ⟨s, hs, rfl⟩ := reading_eq_error.mp hr
        exact ⟨_, _, reading_eq_error.mpr
          ⟨s, eval_apply_error.mpr (.inr ⟨function, hf, .inl hs⟩), rfl⟩,
          .operandFault (by simp [hf]) hy⟩
      | ok values =>
        obtain ⟨values, s, hs, rfl, rfl⟩ := reading_eq_ok.mp hr
        cases hresult : function (values.map Value.toNumber) with
        | error fault =>
          exact ⟨_, _, reading_eq_error.mpr ⟨s, eval_apply_error.mpr
            (.inr ⟨function, hf, .inr ⟨values, fault, hs, hresult, rfl⟩⟩), rfl⟩,
            .failed hf hy hresult⟩
        | ok result =>
          exact ⟨_, _, reading_eq_ok.mpr ⟨(), _, eval_apply_ok.mpr
            ⟨function, values, s, result, hf, hs, hresult, rfl⟩, by simp [Node.slot, Node.tag],
            by simp⟩, .applied hf hy hresult⟩
  | @assign number name value _ ih =>
    obtain ⟨r, env, hr, hy⟩ := ih m
    cases r with
    | error fault =>
      obtain ⟨s, hs, rfl⟩ := reading_eq_error.mp hr
      exact ⟨_, _, reading_eq_error.mpr ⟨s, eval_assign_error.mpr hs, rfl⟩, .assignFault hy⟩
    | ok v =>
      obtain ⟨_, s, hs, rfl, rfl⟩ := reading_eq_ok.mp hr
      exact ⟨_, _, reading_eq_ok.mpr ⟨(), _, eval_assign_ok.mpr ⟨s, hs, rfl⟩,
        by simp [Node.slot, Node.tag, Machine.value_store], by simp⟩, .assign hy⟩

theorem yields_iff {e : Node Nat} (he : IsExpr e) {m : Machine}
    {r : Except Fault (Option Value)} {env : Environment} :
    Yields types e m.environment r env ↔
      leftIn e.slot ((e.eval types budget).run m) = some (r, env) := by
  refine ⟨eval_of_yields budget e, ?_⟩
  intro h
  obtain ⟨r', env', hr, hy⟩ := yields_of_eval types budget he m
  obtain ⟨rfl, rfl⟩ := Prod.mk.inj (Option.some.inj (hr.symm.trans h))
  exact hy

end ProgramTrees
