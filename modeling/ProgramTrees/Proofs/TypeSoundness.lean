import ProgramTrees.Proofs.TypeTable
import ProgramTrees.Proofs.TypedOperands
import ProgramTrees.Proofs.Visits

namespace ProgramTrees

/-- Each value has the type of its place. -/
def Machine.Typed (types : TypeMap) (m : Machine) : Prop :=
  ∀ slot v, m.value slot = some v → types slot = some v.ty

variable {types : TypeMap} {budget : Nat} {m m' s : Machine} {n p : Node Nat}

theorem Machine.Typed.store (h : m.Typed types) {slot : Slot} {value : Option Value}
    (hv : ∀ v, value = some v → types slot = some v.ty) : (m.store slot value).Typed types := by
  intro other v hs
  rw [Machine.value_store] at hs
  split at hs
  next heq =>
    subst heq
    exact hv v hs
  next => exact h other v hs

theorem Machine.Typed.empty : ({} : Machine).Typed types := by
  intro slot v h
  cases h

theorem Machine.Typed.endLoop (h : m.Typed types) (rounds : Nat) :
    (m.endLoop rounds).Typed types := h

/-- An evaluation keeps the values typed, also where it stops. -/
def KeepsTyped (types : TypeMap) {α : Type} (evaluation : Eval α) : Prop :=
  ∀ m : Machine, m.Typed types →
    (∀ a m', evaluation.run m = .ok a m' → m'.Typed types) ∧
      ∀ stop m', evaluation.run m = .error stop m' → m'.Typed types

theorem evalOperands_typed {es : List (Node Nat)}
    (ih : ∀ e ∈ es, KeepsTyped types (e.eval types budget)) :
    KeepsTyped types (Node.evalOperands types budget es) := by
  induction es with
  | nil =>
    intro m hm
    exact ⟨fun a m' h => by cases h; exact hm, fun stop m' h => by cases h⟩
  | cons e es ih' =>
    have hrest := ih' fun e' he' => ih e' (by simp [he'])
    intro m hm
    obtain ⟨hok, herror⟩ := ih e (by simp) m hm
    refine ⟨?_, ?_⟩
    · intro values m' h
      obtain ⟨s, v, rest, he, -, hr, -⟩ := evalOperands_cons_ok.mp h
      exact (hrest s (hok _ s he)).1 rest m' hr
    · intro stop m' h
      rcases evalOperands_cons_error.mp h with h | ⟨s, he, ⟨-, rfl, -⟩ | ⟨-, h⟩⟩
      · exact herror stop m' h
      · exact hok _ m' he
      · exact (hrest s (hok _ s he)).2 stop m' h

theorem evalOperands_ty {es : List (Node Nat)} {ty : Ty}
    (ih : ∀ e ∈ es, KeepsTyped types (e.eval types budget))
    (hty : ∀ e ∈ es, types e.slot = some ty) {values : List Value} (hm : m.Typed types)
    (h : (Node.evalOperands types budget es).run m = .ok values m') :
    ∀ v ∈ values, v.ty = ty := by
  induction es generalizing m values with
  | nil =>
    cases h
    simp
  | cons e es ih' =>
    obtain ⟨s, v, rest, he, hv, hr, rfl⟩ := evalOperands_cons_ok.mp h
    have hs := (ih e (by simp) m hm).1 _ s he
    have hvty : v.ty = ty := Option.some.inj ((hs _ v hv).symm.trans (hty e (by simp)))
    have hrest := ih' (fun e' he' => ih e' (by simp [he'])) (fun e' he' => hty e' (by simp [he']))
      hs hr
    simpa [hvty] using hrest

theorem evalOperands_length {es : List (Node Nat)} {values : List Value}
    (h : (Node.evalOperands types budget es).run m = .ok values m') :
    values.length = es.length := by
  induction es generalizing m values with
  | nil =>
    cases h
    rfl
  | cons e es ih =>
    obtain ⟨s, v, rest, -, -, hr, rfl⟩ := evalOperands_cons_ok.mp h
    simp [ih hr]

theorem evalAll_typed {ns : List (Node Nat)}
    (ih : ∀ n ∈ ns, KeepsTyped types (n.eval types budget)) :
    KeepsTyped types (Node.evalAll types budget ns) := by
  induction ns with
  | nil =>
    intro m hm
    exact ⟨fun a m' h => by cases h; exact hm, fun stop m' h => by cases h⟩
  | cons n ns ih' =>
    have hrest := ih' fun n' hn' => ih n' (by simp [hn'])
    intro m hm
    obtain ⟨hok, herror⟩ := ih n (by simp) m hm
    refine ⟨?_, ?_⟩
    · intro _ m' h
      obtain ⟨s, hn, hr⟩ := evalAll_cons_ok.mp h
      exact (hrest s (hok _ s hn)).1 _ m' hr
    · intro stop m' h
      rcases evalAll_cons_error.mp h with h | ⟨s, hn, h⟩
      · exact herror stop m' h
      · exact (hrest s (hok _ s hn)).2 stop m' h

theorem repeatWhile_typed {condition body : Node Nat} (done left : Nat)
    (hc : KeepsTyped types (condition.eval types budget))
    (hb : KeepsTyped types (body.eval types budget)) :
    KeepsTyped types
      (repeatWhile (loopTest types budget condition) (body.eval types budget) done left) := by
  have htest {again : Bool} {m s : Machine} (hm : m.Typed types)
      (h : (loopTest types budget condition).run m = .ok again s) : s.Typed types :=
    (hc m hm).1 _ s (loopTest_ok.mp h).1
  induction left generalizing done with
  | zero =>
    intro m hm
    refine ⟨?_, ?_⟩
    · intro _ m' h
      rcases repeatWhile_ok.mp h with ⟨s, ht, rfl⟩ | ⟨_, _, _, heq, _⟩
      · exact (htest hm ht).endLoop done
      · cases heq
    · intro stop m' h
      rcases repeatWhile_error.mp h with h | ⟨_, _, ht⟩ | ⟨_, _, heq, _⟩
      · exact (hc m hm).2 stop m' (loopTest_error.mp h)
      · exact htest hm ht
      · cases heq
  | succ left ih =>
    intro m hm
    refine ⟨?_, ?_⟩
    · intro _ m' h
      rcases repeatWhile_ok.mp h with ⟨s, ht, rfl⟩ | ⟨s, t, rest, heq, ht, hbody, h⟩
      · exact (htest hm ht).endLoop done
      · cases heq
        exact (ih (done + 1) t ((hb s (htest hm ht)).1 _ t hbody)).1 _ m' h
    · intro stop m' h
      rcases repeatWhile_error.mp h with h | ⟨heq, _⟩ | ⟨s, rest, heq, ht, h⟩
      · exact (hc m hm).2 stop m' (loopTest_error.mp h)
      · cases heq
      · cases heq
        have hs := htest hm ht
        rcases h with h | ⟨t, hbody, h⟩
        · exact (hb s hs).2 stop m' h
        · exact (ih (done + 1) t ((hb s hs).1 _ t hbody)).2 stop m' h

theorem literal_typed {number : Nat} {value : Value}
    (hnumber : types (.node number) = some value.ty) :
    KeepsTyped types (Eval.store (.node number) (some value)) := by
  intro m hm
  refine ⟨?_, fun stop m' h => by cases h⟩
  intro _ m' h
  cases h
  refine hm.store fun v hv => ?_
  cases hv
  exact hnumber

theorem apply_typed {number : Nat} {op : Operator} {operands : List (Node Nat)} {ty : Ty}
    (hbelow : ∀ e ∈ operands, KeepsTyped types (e.eval types budget))
    (hnumber : types (.node number) = some ty) :
    KeepsTyped types ((Node.apply number op operands).eval types budget) := by
  intro m hm
  obtain ⟨hok, herror⟩ := evalOperands_typed hbelow m hm
  refine ⟨?_, ?_⟩
  · intro _ m' h
    obtain ⟨function, values, s, result, hf, he, hr, rfl⟩ := eval_apply_ok.mp h
    rw [hnumber] at hf
    refine (hok values s he).store fun v hv => ?_
    cases hv
    rw [Operator.function_ok hf hr]
    exact hnumber
  · intro stop m' h
    rcases eval_apply_error.mp h with ⟨-, rfl, -⟩ | ⟨function, hf, h | ⟨values, _, he, -, -⟩⟩
    · exact hm
    · exact herror stop m' h
    · exact hok values m' he

theorem assign_typed {number : Nat} {name : String} {value : Node Nat} {ty : Ty}
    (hbelow : KeepsTyped types (value.eval types budget))
    (hnumber : types (.node number) = some ty) (hname : types (.name name) = some ty)
    (hvalue : types value.slot = some ty) :
    KeepsTyped types ((Node.assign number name value).eval types budget) := by
  intro m hm
  obtain ⟨hok, herror⟩ := hbelow m hm
  refine ⟨?_, fun stop m' h => herror stop m' (eval_assign_error.mp h)⟩
  intro _ m' h
  obtain ⟨s, he, rfl⟩ := eval_assign_ok.mp h
  have hs := hok _ s he
  have htype : ∀ v, s.value value.slot = some v → v.ty = ty := fun v hv =>
    Option.some.inj ((hs _ v hv).symm.trans hvalue)
  refine (hs.store fun v hv => ?_).store fun v hv => ?_
  · rw [htype v hv]
    exact hnumber
  · rw [htype v hv]
    exact hname

theorem declare_typed {number : Nat} {ty : Ty} {name : String} {value : Node Nat}
    (hbelow : KeepsTyped types (value.eval types budget))
    (hname : types (.name name) = some ty) (hvalue : types value.slot = some ty) :
    KeepsTyped types ((Node.declare number ty name (some value)).eval types budget) := by
  intro m hm
  obtain ⟨hok, herror⟩ := hbelow m hm
  refine ⟨?_, fun stop m' h => herror stop m' (eval_declare_error.mp h)⟩
  intro _ m' h
  obtain ⟨s, he, rfl⟩ := eval_declare_ok.mp h
  have hs := hok _ s he
  refine hs.store fun v hv => ?_
  rw [hname, ← hvalue, hs _ v hv]

theorem print_typed {number : Nat} {text : String} {value : Node Nat}
    (hbelow : KeepsTyped types (value.eval types budget)) :
    KeepsTyped types ((Node.print number text (some value)).eval types budget) := by
  intro m hm
  obtain ⟨hok, herror⟩ := hbelow m hm
  refine ⟨?_, fun stop m' h => herror stop m' (eval_print_error.mp h)⟩
  intro _ m' h
  obtain ⟨s, he, rfl⟩ := eval_print_ok.mp h
  exact hok _ s he

theorem eval_typed (n : Node Nat) (hn : ∀ a ∈ n.subterms, a.Accepted types) :
    KeepsTyped types (n.eval types budget) := by
  induction n using Node.induction with
  | int number k =>
    obtain ⟨ty, hty, rfl⟩ := hn _ (Node.self_mem_subterms _)
    exact literal_typed hty
  | float number x =>
    obtain ⟨ty, hty, rfl⟩ := hn _ (Node.self_mem_subterms _)
    exact literal_typed hty
  | var number name =>
    intro m hm
    exact ⟨fun a m' h => by cases h; exact hm, fun stop m' h => by cases h⟩
  | apply number op operands ih =>
    obtain ⟨ty, hty, -⟩ := hn _ (Node.self_mem_subterms _)
    refine apply_typed (fun e he => ?_) hty
    exact ih e he fun a ha => hn a (Node.mem_subterms_of_child he ha)
  | assign number name value ih =>
    obtain ⟨ty, hty, hname, hvalue⟩ := hn _ (Node.self_mem_subterms _)
    refine assign_typed (ih fun a ha => ?_) hty hname hvalue
    exact hn a (Node.mem_subterms_of_child (by simp [Node.children]) ha)
  | sequence number statements ih =>
    rw [Node.eval]
    refine evalAll_typed fun n hmem => ih n hmem fun a ha => ?_
    exact hn a (Node.mem_subterms_of_child hmem ha)
  | declare number ty name value ih =>
    cases value with
    | none =>
      intro m hm
      exact ⟨fun a m' h => by cases h; exact hm, fun stop m' h => by cases h⟩
    | some value =>
      obtain ⟨hname, hvalue⟩ := hn _ (Node.self_mem_subterms _)
      refine declare_typed (ih value rfl fun a ha => ?_) hname hvalue
      exact hn a (Node.mem_subterms_of_child (by simp [Node.children]) ha)
  | print number text value ih =>
    cases value with
    | none =>
      intro m hm
      exact ⟨fun a m' h => by cases h; exact hm, fun stop m' h => by cases h⟩
    | some value =>
      refine print_typed (ih value rfl fun a ha => ?_)
      exact hn a (Node.mem_subterms_of_child (by simp [Node.children]) ha)
  | loop number condition body hcondition hbody =>
    rw [eval_loop]
    refine repeatWhile_typed 0 budget (hcondition fun a ha => ?_) (hbody fun a ha => ?_)
    · exact hn a (Node.mem_subterms_of_child (by simp [Node.children]) ha)
    · exact hn a (Node.mem_subterms_of_child (by simp [Node.children]) ha)

theorem Visits.typed (h : Visits types p m n s) (hp : ∀ a ∈ p.subterms, a.Accepted types)
    (hm : m.Typed types) : s.Typed types := by
  induction h with
  | start => exact hm
  | @operand number op before after e n budget values m m' s hf hbefore _ ih =>
    have hbelow : ∀ c ∈ before ++ e :: after, ∀ a ∈ c.subterms, a.Accepted types :=
      fun c hc a ha => hp a (Node.mem_subterms_of_child hc ha)
    have hm' := (evalOperands_typed (fun c hc => eval_typed c (hbelow c (by simp [hc]))) m hm).1
      values m' hbefore
    exact ih (hbelow e (by simp)) hm'
  | assigned _ ih | initializer _ ih | printed _ ih | condition _ ih =>
    exact ih (fun a ha => hp a (Node.mem_subterms_of_child (by simp [Node.children]) ha)) hm
  | @statement number before after statement n budget m m' s hbefore _ ih =>
    have hbelow : ∀ c ∈ before ++ statement :: after, ∀ a ∈ c.subterms, a.Accepted types :=
      fun c hc a ha => hp a (Node.mem_subterms_of_child hc ha)
    have hm' := (evalAll_typed (fun c hc => eval_typed c (hbelow c (by simp [hc]))) m hm).1
      _ m' hbefore
    exact ih (hbelow statement (by simp)) hm'
  | @body number condition body n budget m m' s hcondition _ _ ih =>
    have hbelow : ∀ c ∈ [condition, body], ∀ a ∈ c.subterms, a.Accepted types :=
      fun c hc a ha => hp a (Node.mem_subterms_of_child hc ha)
    exact ih (hbelow body (by simp))
      ((eval_typed condition (hbelow condition (by simp)) m hm).1 _ m' hcondition)
  | @round number condition body n budget m m' m'' s hcondition _ hbody _ ih =>
    have hbelow : ∀ c ∈ [condition, body], ∀ a ∈ c.subterms, a.Accepted types :=
      fun c hc a ha => hp a (Node.mem_subterms_of_child hc ha)
    have hm' := (eval_typed condition (hbelow condition (by simp)) m hm).1 _ m' hcondition
    exact ih hp ((eval_typed body (hbelow body (by simp)) m' hm').1 _ m'' hbody)

theorem PassesThrough.typed (h : PassesThrough types p m s)
    (hp : ∀ a ∈ p.subterms, a.Accepted types) (hm : m.Typed types) : s.Typed types := by
  obtain ⟨n, m', hvisit, h⟩ := h
  have hn : ∀ a ∈ n.subterms, a.Accepted types := fun a ha =>
    hp a (Node.subterms_trans ha hvisit.mem_subterms)
  have hm' := hvisit.typed hp hm
  rcases h with rfl | ⟨budget, rfl⟩ | ⟨number, name, value, budget, t, rfl, hv, rfl⟩
  · exact hm'
  · unfold Eval.runFrom
    split
    next heq => exact (eval_typed n hn m' hm').1 _ _ heq
    next heq => exact (eval_typed n hn m' hm').2 _ _ heq
  · obtain ⟨ty, hty, -, hvalue⟩ := hn _ (Node.self_mem_subterms _)
    have ht := (eval_typed value
      (fun a ha => hn a (Node.mem_subterms_of_child (by simp [Node.children]) ha)) m' hm').1 _ t hv
    refine ht.store fun v hs => ?_
    rw [← hvalue.symm.trans (ht _ v hs)]
    exact hty

/-- Operands of one type reach the function of an operator as they are. -/
def TakenAsTheyAre (ty : Ty) (values : List Value) : Prop :=
  match ty with
  | .int => ∃ ns : List Int32, values = ns.map Value.int ∧
      convertAll Number.toInt (values.map Value.toNumber) = .ok (ns.map Int32.toInt)
  | .float => ∃ xs : List Single, values = xs.map Value.float ∧
      convertAll Number.toSingle (values.map Value.toNumber) = .ok xs

theorem takenAsTheyAre {ty : Ty} {values : List Value} (h : ∀ v ∈ values, v.ty = ty) :
    TakenAsTheyAre ty values := by
  cases ty with
  | int =>
    obtain ⟨ns, rfl⟩ := exists_ints h
    exact ⟨ns, rfl, convertAll_ints ns⟩
  | float =>
    obtain ⟨xs, rfl⟩ := exists_singles h
    exact ⟨xs, rfl, convertAll_singles xs⟩

/-- What may still go wrong in an operation of a checked program: its divisor is zero, an operand
has no value, or it has a number of operands that its operator does not take. -/
inductive ResidualFault (types : TypeMap) (number : Nat) (op : Operator)
    (operands : List (Node Nat)) (m : Machine) : Fault → Prop where
  | division {a b : Node Nat} : op = .div → operands = [a, b] →
      types (.node number) = some .int → m.value b.slot = some (.int 0) →
      ResidualFault types number op operands m
        (.operands .divisionByZero ⟨number, .operatorExpression⟩)
  | remainder {a b : Node Nat} : op = .mod → operands = [a, b] →
      types (.node number) = some .int → m.value b.slot = some (.int 0) →
      ResidualFault types number op operands m
        (.operands .remainderByZero ⟨number, .operatorExpression⟩)
  | missing {e : Node Nat} : e ∈ operands → m.value e.slot = none →
      ResidualFault types number op operands m (.missingOperand e.site)
  | arity : operands.length ≠ op.arity →
      ResidualFault types number op operands m
        (.operands (.wrongCount op operands.length) ⟨number, .operatorExpression⟩)

theorem ResidualFault.channel {number : Nat} {op : Operator} {operands : List (Node Nat)}
    {fault : Fault} (h : ResidualFault types number op operands m fault) :
    fault.channel = .arithmetic ∨ fault.channel = .evaluation := by
  cases h with
  | division => exact .inl rfl
  | remainder => exact .inl rfl
  | missing => exact .inr rfl
  | arity => exact .inr rfl

theorem evalOperands_last {a b : Node Nat} {v w : Value}
    (h : (Node.evalOperands types budget [a, b]).run m = .ok [v, w] m') :
    m'.value b.slot = some w := by
  obtain ⟨s, _, _, -, -, hrest, heq⟩ := evalOperands_cons_ok.mp h
  obtain ⟨t, _, _, -, hv, hnil, heq'⟩ := evalOperands_cons_ok.mp hrest
  cases hnil
  cases heq
  cases heq'
  exact hv

theorem OperationFault.residual {number : Nat} {op : Operator} {operands : List (Node Nat)}
    {fault : Fault} (h : OperationFault types number op operands m fault m')
    (hp : ∀ a ∈ (Node.apply number op operands).subterms, a.Accepted types)
    (hm : m.Typed types) : ResidualFault types number op operands m' fault := by
  obtain ⟨ty, hty, hsupports, -, hoperands⟩ := hp _ (Node.self_mem_subterms _)
  have hnumber : types (.node number) = some ty := hty
  have hbelow (budget : Nat) : ∀ e ∈ operands, KeepsTyped types (e.eval types budget) :=
    fun e he => eval_typed e fun a ha => hp a (Node.mem_subterms_of_child he ha)
  cases h with
  | noFunction hf =>
    rw [hnumber] at hf
    exact absurd hf (Operator.supports_iff_function.mp hsupports)
  | missing heq _ _ _ hv => exact .missing (by simp [heq]) hv
  | failed hf hvalues hfault =>
    rw [hnumber] at hf
    have htypes := evalOperands_ty (hbelow _) hoperands hm hvalues
    have hlen := evalOperands_length hvalues
    rcases Operator.function_error hf htypes hfault with
      ⟨hcount, rfl⟩ | ⟨rfl, ⟨v, rfl⟩, hwhy⟩
    · rw [hlen] at hcount ⊢
      exact .arity hcount
    · obtain ⟨a, b, rfl⟩ := List.length_eq_two.mp hlen.symm
      have hzero := evalOperands_last hvalues
      rcases hwhy with ⟨hop, rfl⟩ | ⟨hop, rfl⟩
      · exact .division hop rfl hnumber hzero
      · exact .remainder hop rfl hnumber hzero

/-- Where checking finds no problem, a run goes through states in which each value has the type
that is recorded for its place; operators take their operands as they are; and a fault is that of a
visited operation with a zero divisor, an operand without a value, or a number of operands that its
operator does not take. Nodes may be shared. -/
theorem checked_program_sound {p : Node Nat} (coherent : p.Coherent)
    (ok : p.findings.ok = true) :
    (∀ s, PassesThrough p.findings.typeOf p {} s → s.Typed p.findings.typeOf) ∧
    (∀ number op operands s, Visits p.findings.typeOf p {} (.apply number op operands) s →
      ∃ ty, p.findings.typeOf (.node number) = some ty ∧
        ∀ budget values t,
          (Node.evalOperands p.findings.typeOf budget operands).run s = .ok values t →
          TakenAsTheyAre ty values) ∧
    ∀ budget fault m, (p.eval p.findings.typeOf budget).run {} = .error (.fault fault) m →
      (fault.channel = .arithmetic ∨ fault.channel = .evaluation) ∧
      ∃ number op operands s, Visits p.findings.typeOf p {} (.apply number op operands) s ∧
        ResidualFault p.findings.typeOf number op operands m fault := by
  have hp := accepted_of_ok coherent ok
  have hempty : ({} : Machine).Typed p.findings.typeOf := Machine.Typed.empty
  have hvisited {n : Node Nat} {s : Machine} (h : Visits p.findings.typeOf p {} n s) :
      ∀ a ∈ n.subterms, a.Accepted p.findings.typeOf := fun a ha =>
    hp a (Node.subterms_trans ha h.mem_subterms)
  refine ⟨fun s h => h.typed hp hempty, ?_, ?_⟩
  · intro number op operands s h
    obtain ⟨ty, hty, -, -, hoperands⟩ := hvisited h _ (Node.self_mem_subterms _)
    refine ⟨ty, hty, ?_⟩
    intro budget values t hvalues
    refine takenAsTheyAre (evalOperands_ty ?_ hoperands (h.typed hp hempty) hvalues)
    exact fun e he => eval_typed e fun a ha => hvisited h a (Node.mem_subterms_of_child he ha)
  · intro budget fault m h
    obtain ⟨number, op, operands, s, hvisit, horigin⟩ := fault_origin p h
    have hfault := horigin.residual (hvisited hvisit) (hvisit.typed hp hempty)
    exact ⟨hfault.channel, number, op, operands, s, hvisit, hfault⟩

/-- A program that declares `i` to be one and prints a quotient; all literals are one node. -/
def sharedQuotient : Node Nat :=
  let one : Node Nat := .int 2 1
  .sequence 0 [.declare 1 .int "i" (some one),
    .print 3 "q: " (some (.apply 4 .div [one, .apply 6 .minus2 [.var 5 "i", one]]))]

theorem sharedQuotient_sound :
    sharedQuotient.Coherent ∧ sharedQuotient.findings.ok = true ∧
      (∀ s, PassesThrough sharedQuotient.findings.typeOf sharedQuotient {} s →
        s.Typed sharedQuotient.findings.typeOf) ∧
      ∃ fault m, (sharedQuotient.eval sharedQuotient.findings.typeOf 0).run {} =
          .error (.fault fault) m ∧ fault.channel = .arithmetic ∧
        ∃ number op operands s,
          Visits sharedQuotient.findings.typeOf sharedQuotient {} (.apply number op operands) s ∧
            ResidualFault sharedQuotient.findings.typeOf number op operands m fault := by
  have coherent : sharedQuotient.Coherent := by
    intro a ha b hb h
    simp only [sharedQuotient, Node.subterms, Node.allSubterms, List.cons_append,
      List.nil_append, List.append_nil, List.mem_cons, List.not_mem_nil, or_false] at ha hb
    rcases ha with rfl | rfl | rfl | rfl | rfl | rfl | rfl | rfl | rfl <;>
      rcases hb with rfl | rfl | rfl | rfl | rfl | rfl | rfl | rfl | rfl <;>
      first | rfl | cases h
  have ok : sharedQuotient.findings.ok = true := by decide
  obtain ⟨htyped, -, hfault⟩ := checked_program_sound coherent ok
  obtain ⟨fault, m, hrun, hchannel⟩ : ∃ fault m,
      (sharedQuotient.eval sharedQuotient.findings.typeOf 0).run {} = .error (.fault fault) m ∧
        fault.channel = .arithmetic := ⟨_, _, rfl, rfl⟩
  exact ⟨coherent, ok, htyped, fault, m, hrun, hchannel, (hfault 0 fault m hrun).2⟩

end ProgramTrees
