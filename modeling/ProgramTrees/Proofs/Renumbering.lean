import ProgramTrees.Pipeline
import ProgramTrees.Proofs.ExpressionRefinement
import ProgramTrees.Proofs.Retagging

namespace ProgramTrees

def Slot.renumber (f : Nat → Nat) : Slot → Slot
  | .name word => .name word
  | .node number => .node (f number)

def Site.renumber (f : Nat → Nat) (site : Site) : Site :=
  { site with number := f site.number }

def Fault.renumber (f : Nat → Nat) : Fault → Fault
  | .noFunction op ty site => .noFunction op ty (site.renumber f)
  | .missingOperand site => .missingOperand (site.renumber f)
  | .operands fault site => .operands fault (site.renumber f)

def Stop.renumber (f : Nat → Nat) : Stop → Stop
  | .fault reason => .fault (reason.renumber f)
  | .outOfRounds => .outOfRounds

/-- The table with its slots renumbered. -/
def renumberTable {α : Type} (f : Nat → Nat) (table : Table Slot α) : Table Slot α :=
  table.map fun (slot, value) => (slot.renumber f, value)

def Findings.renumber (f : Nat → Nat) (s : Findings) : Findings :=
  { s with types := renumberTable f s.types }

def Machine.renumber (f : Nat → Nat) (m : Machine) : Machine :=
  { m with values := renumberTable f m.values }

def Run.renumber (f : Nat → Nat) (run : Run) : Run :=
  ⟨run.machine.renumber f, run.stop.map (·.renumber f)⟩

section Faults

variable (f : Nat → Nat)

theorem Fault.channel_renumber (fault : Fault) : (fault.renumber f).channel = fault.channel := by
  cases fault with
  | operands fault => cases fault <;> rfl
  | _ => rfl

theorem Fault.message_renumber (fault : Fault) : (fault.renumber f).message = fault.message := by
  cases fault with
  | operands fault => cases fault <;> rfl
  | _ => rfl

theorem slot_retag (n : Node Nat) : (n.retag f).slot = n.slot.renumber f := by
  cases n with
  | declare _ _ _ value | print _ _ value => cases value <;> rfl
  | _ => rfl

theorem site_retag (e : Node Nat) : (e.retag f).site = e.site.renumber f := by
  rw [Node.site, Node.site, Node.tag_retag, Node.kind_retag]
  rfl

end Faults

section Tables

variable {α : Type} {f : Nat → Nat} (hf : Function.Injective f)

include hf

theorem Slot.renumber_injective : Function.Injective (Slot.renumber f) := by
  intro a b h
  match a, b, h with
  | .name _, .name _, h => rw [Slot.name.inj h]
  | .node _, .node _, h => rw [hf (Slot.node.inj h)]

theorem get?_renumberTable (table : Table Slot α) (slot : Slot) :
    (renumberTable f table).get? (slot.renumber f) = table.get? slot := by
  induction table with
  | nil => rfl
  | cons entry rest ih =>
    rw [renumberTable, List.map_cons, Table.get?_cons, Table.get?_cons]
    simp only [(Slot.renumber_injective hf).eq_iff]
    split
    next => rfl
    next => exact ih

theorem set_renumberTable (table : Table Slot α) (slot : Slot) (value : α) :
    (renumberTable f table).set (slot.renumber f) value =
      renumberTable f (table.set slot value) := by
  induction table with
  | nil => rfl
  | cons entry rest ih =>
    obtain ⟨k, v⟩ := entry
    rw [renumberTable, List.map_cons, Table.set, Table.set]
    simp only [(Slot.renumber_injective hf).eq_iff]
    split
    next => rfl
    next =>
      rw [← renumberTable, ih]
      rfl

end Tables

section Checking

variable {f : Nat → Nat} (hf : Function.Injective f) (s : Findings)

theorem declared_renumber : (s.renumber f).declared = s.declared := rfl

include hf

theorem typeOf_renumber (slot : Slot) :
    (s.renumber f).typeOf (slot.renumber f) = s.typeOf slot :=
  get?_renumberTable hf s.types slot

theorem typeOf_name_renumber (name : String) :
    (s.renumber f).typeOf (.name name) = s.typeOf (.name name) :=
  typeOf_renumber hf s (.name name)

theorem record_slot_renumber (slot : Slot) (ty : Ty) :
    (s.renumber f).record (slot.renumber f) ty = (s.record slot ty).renumber f := by
  have h := set_renumberTable hf s.types slot ty
  rw [Findings.record, Findings.renumber]
  dsimp only
  rw [h]
  rfl

theorem record_renumber (number : Nat) (ty : Ty) :
    (s.renumber f).record (.node (f number)) ty = (s.record (.node number) ty).renumber f :=
  record_slot_renumber hf s (.node number) ty

omit hf in
theorem enter_renumber (name : String) :
    (s.renumber f).enter name = (s.enter name).renumber f := by
  rw [Findings.enter, Findings.enter, declared_renumber]
  split <;> rfl

theorem declare_renumber (name : String) (ty : Ty) :
    (s.renumber f).declare name ty = (s.declare name ty).renumber f := by
  rw [Findings.declare, enter_renumber]
  exact record_slot_renumber hf (s.enter name) (.name name) ty

theorem checkUse_renumber (name : String) :
    (s.renumber f).checkUse name = (s.checkUse name).renumber f := by
  simp only [Findings.checkUse, declared_renumber, typeOf_name_renumber hf]
  split
  next => rfl
  next => split <;> rfl

theorem checkTarget_renumber (number : Nat) (name : String) (value : Slot) :
    (s.renumber f).checkTarget (f number) name (value.renumber f) =
      (s.checkTarget number name value).renumber f := by
  simp only [Findings.checkTarget, declared_renumber, typeOf_name_renumber hf, typeOf_renumber hf]
  split
  next => rfl
  next =>
    split
    next => rfl
    next =>
      cases s.typeOf (.name name) with
      | none => rfl
      | some ty => exact record_renumber hf s number ty

theorem checkDeclaration_renumber (ty : Ty) (name : String) (value : Option Slot) :
    (s.renumber f).checkDeclaration ty name (value.map (·.renumber f)) =
      (s.checkDeclaration ty name value).renumber f := by
  simp only [Findings.checkDeclaration, declared_renumber, typeOf_name_renumber hf,
    declare_renumber hf]
  split
  next => rfl
  next =>
    cases value with
    | none => rfl
    | some slot =>
      simp only [Option.map_some, typeOf_renumber hf]
      split <;> rfl

theorem checkCondition_renumber (condition : Slot) :
    (s.renumber f).checkCondition (condition.renumber f) =
      (s.checkCondition condition).renumber f := by
  simp only [Findings.checkCondition, typeOf_renumber hf]
  split <;> rfl

omit hf in
theorem compare_renumber (op : Operator) (seen : Agreement) (found : Option Ty) :
    (s.renumber f).compare op seen found =
      ((s.compare op seen found).1.renumber f, (s.compare op seen found).2) := by
  unfold Findings.compare
  cases found with
  | none => rfl
  | some found =>
    dsimp only
    split
    next => rfl
    next => split <;> rfl

theorem conclude_renumber (number : Nat) (op : Operator) (seen : Agreement) :
    (s.renumber f).conclude (f number) op seen = (s.conclude number op seen).renumber f := by
  unfold Findings.conclude
  split
  next => rfl
  next =>
    rw [record_renumber hf]
    split
    next => split <;> rfl
    next => rfl

section Trees

theorem checkOperands_retag (op : Operator) {es : List (Node Nat)}
    (ih : ∀ e ∈ es, ∀ s : Findings, (e.retag f).check (s.renumber f) = (e.check s).renumber f)
    (s : Findings) (seen : Agreement) :
    Node.checkOperands op (Node.allRetag f es) (s.renumber f) seen =
      ((Node.checkOperands op es s seen).1.renumber f, (Node.checkOperands op es s seen).2) := by
  induction es generalizing s seen with
  | nil => rfl
  | cons e es ih' =>
    obtain ⟨he, hes⟩ := List.forall_mem_cons.mp ih
    rw [Node.allRetag, Node.checkOperands, Node.checkOperands]
    simp only [he, slot_retag, typeOf_renumber hf, compare_renumber, ih' hes]

omit hf in
theorem checkAll_retag {ns : List (Node Nat)}
    (ih : ∀ n ∈ ns, ∀ s : Findings, (n.retag f).check (s.renumber f) = (n.check s).renumber f)
    (s : Findings) :
    Node.checkAll (Node.allRetag f ns) (s.renumber f) = (Node.checkAll ns s).renumber f := by
  induction ns generalizing s with
  | nil => rfl
  | cons n ns ih' =>
    obtain ⟨hn, hns⟩ := List.forall_mem_cons.mp ih
    rw [Node.allRetag, Node.checkAll, Node.checkAll, hn, ih' hns]

/-- Checking under other numbers finds the same, at those numbers. -/
theorem check_retag (n : Node Nat) (s : Findings) :
    (n.retag f).check (s.renumber f) = (n.check s).renumber f := by
  induction n using Node.induction generalizing s with
  | int number n =>
    rw [Node.retag, Node.check, Node.check, record_renumber hf]
  | float number x =>
    rw [Node.retag, Node.check, Node.check, record_renumber hf]
  | var number name =>
    rw [Node.retag, Node.check, Node.check, checkUse_renumber hf]
  | apply number op operands ih =>
    rw [Node.retag, Node.check, Node.check, checkOperands_retag hf op ih]
    exact conclude_renumber hf _ number op _
  | assign number name value ih =>
    rw [Node.retag, Node.check, Node.check, ih, slot_retag, checkTarget_renumber hf]
  | sequence number statements ih =>
    rw [Node.retag, Node.check, Node.check, checkAll_retag ih]
  | declare number ty name value ih =>
    cases value with
    | none =>
      rw [Node.retag, Node.check, Node.check]
      exact checkDeclaration_renumber hf s ty name none
    | some value =>
      rw [Node.retag, Node.check, Node.check, ih value rfl, slot_retag]
      exact checkDeclaration_renumber hf _ ty name (some value.slot)
  | print number text value ih =>
    cases value with
    | none => rw [Node.retag, Node.check, Node.check]
    | some value => rw [Node.retag, Node.check, Node.check, ih value rfl]
  | loop number condition body hcondition hbody =>
    rw [Node.retag, Node.check, Node.check, hcondition, slot_retag, checkCondition_renumber hf,
      hbody]

theorem findings_retag (p : Node Nat) : (p.retag f).findings = p.findings.renumber f :=
  check_retag hf p {}

end Trees

end Checking

section Machines

variable {f : Nat → Nat} (hf : Function.Injective f) (m : Machine)

theorem names_renumber : (m.renumber f).names = m.names := by
  rw [Machine.names, Machine.names, Machine.renumber, renumberTable, List.filterMap_map]
  congr 2
  funext ⟨slot, value⟩
  cases slot <;> rfl

include hf

theorem value_renumber (slot : Slot) : (m.renumber f).value (slot.renumber f) = m.value slot := by
  rw [Machine.value, Machine.value, Machine.renumber, get?_renumberTable hf]

theorem environment_renumber : (m.renumber f).environment = m.environment := by
  have hvalue : (fun name => (m.renumber f).value (.name name)) =
      fun name => m.value (.name name) :=
    funext fun name => value_renumber hf m (.name name)
  rw [Machine.environment, hvalue]
  rfl

theorem store_renumber (slot : Slot) (value : Option Value) :
    (m.renumber f).store (slot.renumber f) value = (m.store slot value).renumber f := by
  rw [Machine.store, Machine.renumber, set_renumberTable hf]
  rfl

end Machines

section Evaluation

def renumberResult {α : Type} (f : Nat → Nat) :
    EStateM.Result Stop Machine α → EStateM.Result Stop Machine α
  | .ok a m => .ok a (m.renumber f)
  | .error stop m => .error (stop.renumber f) (m.renumber f)

/-- The second evaluation does at the new numbers what the first does at the old ones. -/
def Renumbers {α : Type} (f : Nat → Nat) (x y : Eval α) : Prop :=
  ∀ m : Machine, y.run (m.renumber f) = renumberResult f (x.run m)

variable {α β : Type} {f : Nat → Nat}

theorem Renumbers.pure (a : α) : Renumbers f (pure a) (pure a) := fun _ => rfl

theorem Renumbers.outOfRounds : Renumbers f (throw .outOfRounds : Eval α) (throw .outOfRounds) :=
  fun _ => rfl

theorem Renumbers.fault (fault : Fault) :
    Renumbers f (Eval.fault fault : Eval α) (Eval.fault (fault.renumber f)) := fun _ => rfl

theorem Renumbers.print (line : String) :
    Renumbers f (modify (·.print line)) (modify (·.print line)) := fun _ => rfl

theorem Renumbers.endLoop (rounds : Nat) :
    Renumbers f (modify (·.endLoop rounds)) (modify (·.endLoop rounds)) := fun _ => rfl

theorem Renumbers.bind {x x' : Eval α} {g g' : α → Eval β} (h : Renumbers f x x')
    (hg : ∀ a, Renumbers f (g a) (g' a)) : Renumbers f (x >>= g) (x' >>= g') := by
  intro m
  rw [EStateM.run_bind, EStateM.run_bind, h m]
  cases x.run m with
  | ok a s => exact hg a s
  | error stop s => rfl

theorem Renumbers.repeatWhile {test test' : Eval Bool} {body body' : Eval Unit}
    (htest : Renumbers f test test') (hbody : Renumbers f body body') (rounds budget : Nat) :
    Renumbers f (repeatWhile test body rounds budget) (repeatWhile test' body' rounds budget) := by
  induction budget generalizing rounds with
  | zero =>
    rw [ProgramTrees.repeatWhile, ProgramTrees.repeatWhile]
    refine htest.bind fun again => ?_
    split
    next => exact .outOfRounds
    next => exact .endLoop rounds
  | succ budget ih =>
    rw [ProgramTrees.repeatWhile, ProgramTrees.repeatWhile]
    refine htest.bind fun again => ?_
    split
    next => exact hbody.bind fun _ => ih (rounds + 1)
    next => exact .endLoop rounds

variable (hf : Function.Injective f)

include hf

theorem Renumbers.store (slot : Slot) (value : Option Value) :
    Renumbers f (Eval.store slot value) (Eval.store (slot.renumber f) value) := by
  intro m
  rw [Eval.store_run, Eval.store_run, store_renumber hf]
  rfl

theorem Renumbers.load (slot : Slot) :
    Renumbers f (Eval.load slot) (Eval.load (slot.renumber f)) := by
  intro m
  rw [Eval.load_run, Eval.load_run, value_renumber hf]
  rfl

variable {types types' : TypeMap} (htypes : ∀ slot, types' (slot.renumber f) = types slot)
  {budget : Nat}

theorem evalOperands_retag {es : List (Node Nat)}
    (ih : ∀ e ∈ es, Renumbers f (e.eval types budget) ((e.retag f).eval types' budget)) :
    Renumbers f (Node.evalOperands types budget es)
      (Node.evalOperands types' budget (Node.allRetag f es)) := by
  induction es with
  | nil => exact .pure []
  | cons e es ih' =>
    obtain ⟨he, hes⟩ := List.forall_mem_cons.mp ih
    rw [Node.allRetag, Node.evalOperands, Node.evalOperands, slot_retag, site_retag]
    refine he.bind fun _ => (Renumbers.load hf e.slot).bind fun value => ?_
    cases value with
    | none => exact .fault (.missingOperand e.site)
    | some value => exact (ih' hes).bind fun values => .pure (value :: values)

omit hf in
theorem evalAll_retag {ns : List (Node Nat)}
    (ih : ∀ n ∈ ns, Renumbers f (n.eval types budget) ((n.retag f).eval types' budget)) :
    Renumbers f (Node.evalAll types budget ns)
      (Node.evalAll types' budget (Node.allRetag f ns)) := by
  induction ns with
  | nil => exact .pure ()
  | cons n ns ih' =>
    obtain ⟨hn, hns⟩ := List.forall_mem_cons.mp ih
    rw [Node.allRetag, Node.evalAll, Node.evalAll]
    exact hn.bind fun _ => ih' hns

include htypes

/-- Evaluation under other numbers does the same at those numbers. -/
theorem eval_retag (n : Node Nat) :
    Renumbers f (n.eval types budget) ((n.retag f).eval types' budget) := by
  induction n using Node.induction with
  | int number n =>
    rw [Node.retag, Node.eval, Node.eval]
    exact .store hf (.node number) _
  | float number x =>
    rw [Node.retag, Node.eval, Node.eval]
    exact .store hf (.node number) _
  | var number name =>
    rw [Node.retag, Node.eval, Node.eval]
    exact .pure ()
  | apply number op operands ih =>
    have hty : types' (.node (f number)) = types (.node number) := htypes (.node number)
    rw [Node.retag, Node.eval, Node.eval, hty]
    cases op.function? (types (.node number)) with
    | none => exact .fault (.noFunction op _ ⟨number, .operatorExpression⟩)
    | some function =>
      refine (evalOperands_retag hf ih).bind fun values => ?_
      cases function (values.map Value.toNumber) with
      | ok result => exact .store hf (.node number) _
      | error fault => exact .fault (.operands fault ⟨number, .operatorExpression⟩)
  | assign number name value ih =>
    rw [Node.retag, Node.eval, Node.eval, slot_retag]
    refine ih.bind fun _ => (Renumbers.load hf value.slot).bind fun result => ?_
    exact (Renumbers.store hf (.node number) result).bind fun _ => .store hf (.name name) result
  | sequence number statements ih =>
    rw [Node.retag, Node.eval, Node.eval]
    exact evalAll_retag ih
  | declare number ty name value ih =>
    cases value with
    | none =>
      rw [Node.retag, Node.eval, Node.eval]
      exact .pure ()
    | some value =>
      rw [Node.retag, Node.eval, Node.eval, slot_retag]
      refine (ih value rfl).bind fun _ => (Renumbers.load hf value.slot).bind fun result => ?_
      exact .store hf (.name name) result
  | print number text value ih =>
    cases value with
    | none =>
      rw [Node.retag, Node.eval, Node.eval]
      exact .print text
    | some value =>
      rw [Node.retag, Node.eval, Node.eval, slot_retag]
      exact (ih value rfl).bind fun _ => (Renumbers.load hf value.slot).bind fun _ => .print _
  | loop number condition body hcondition hbody =>
    rw [Node.retag, eval_loop, eval_loop, loopTest, loopTest, slot_retag]
    refine Renumbers.repeatWhile ?_ hbody 0 budget
    exact hcondition.bind fun _ => (Renumbers.load hf condition.slot).bind fun _ => .pure _

theorem runFrom_retag (n : Node Nat) (m : Machine) :
    ((n.retag f).eval types' budget).runFrom (m.renumber f) =
      ((n.eval types budget).runFrom m).renumber f := by
  rw [Eval.runFrom, Eval.runFrom, eval_retag hf htypes n m]
  cases (n.eval types budget).run m <;> rfl

end Evaluation

end ProgramTrees
