import ProgramTrees.Arithmetic
import ProgramTrees.Table
import ProgramTrees.Tree

namespace ProgramTrees

inductive Fault where
  | noFunction (op : Operator) (ty : Option Ty) (site : Site)
  | missingOperand (site : Site)
  | operands (fault : OperandFault) (site : Site)
deriving DecidableEq

/-- The node that a fault names; a failed conversion names none. -/
def Fault.site? : Fault → Option Site
  | .noFunction _ _ site | .missingOperand site => some site
  | .operands (.conversion _) _ => none
  | .operands _ site => some site

def Fault.summary : Fault → String
  | .noFunction op ty _ =>
    s!"No function of this type available: operator {op.name}, type {Ty.nameOrUndefined ty}"
  | .missingOperand _ => "Value of subexpression does not exist"
  | .operands fault _ => fault.message

/-- A message about a node, if there is one. -/
def atNode (kind : Option NodeKind) (message : String) : String :=
  match kind with
  | some kind => s!"{message} [at {kind.name}]"
  | none => message

def Fault.message (fault : Fault) : String :=
  atNode (fault.site?.map (·.kind)) fault.summary

/-- The channels on which a fault is reported: a division by zero, any other reason that evaluation
knows, and a conversion that no one expected. -/
inductive FaultChannel where
  | arithmetic
  | evaluation
  | conversion (fault : ConversionFault)
deriving DecidableEq

def Fault.channel : Fault → FaultChannel
  | .operands .divisionByZero _ | .operands .remainderByZero _ => .arithmetic
  | .operands (.conversion fault) _ => .conversion fault
  | _ => .evaluation

/-- The state of a running program: the latest value of each expression and variable, which may be
missing, the printed lines, and how many rounds each loop took that has ended. -/
structure Machine where
  values : Table Slot (Option Value) := []
  output : Array String := #[]
  rounds : Array Nat := #[]

def Machine.value (m : Machine) (slot : Slot) : Option Value :=
  (m.values.get? slot).join

def Machine.store (m : Machine) (slot : Slot) (value : Option Value) : Machine :=
  { m with values := m.values.set slot value }

def Machine.print (m : Machine) (line : String) : Machine :=
  { m with output := m.output.push line }

def Machine.endLoop (m : Machine) (rounds : Nat) : Machine :=
  { m with rounds := m.rounds.push rounds }

def Machine.names (m : Machine) : List String :=
  sortNames (m.values.filterMap fun (slot, _) =>
    match slot with
    | .name name => some name
    | .node _ => none)

/-- A run ends before its end at a fault, or when a loop has used up its budget of rounds. -/
inductive Stop where
  | fault (fault : Fault)
  | outOfRounds
deriving DecidableEq

/-- An evaluation changes the state of the machine, also where it stops. -/
abbrev Eval := EStateM Stop Machine

def Eval.store (slot : Slot) (value : Option Value) : Eval Unit :=
  modify (·.store slot value)

def Eval.load (slot : Slot) : Eval (Option Value) :=
  return (← get).value slot

def Eval.fault {α : Type} (fault : Fault) : Eval α :=
  throw (.fault fault)

/-- The types that checking has found. -/
abbrev TypeMap := Slot → Option Ty

/-- Evaluates `body` as long as `condition` allows another round; `budget` bounds the rounds. -/
def repeatWhile (condition : Eval Bool) (body : Eval Unit) (rounds : Nat) : Nat → Eval Unit
  | 0 => do
    if ← condition then throw .outOfRounds
    else modify (·.endLoop rounds)
  | budget + 1 => do
    if ← condition then
      body
      repeatWhile condition body (rounds + 1) budget
    else modify (·.endLoop rounds)

mutual

/-- Evaluates a node; each run of a loop in it may take `budget` rounds. After an expression its
place holds its value. The function of an operator is chosen by the type of its node before any
operand is evaluated. -/
def Node.eval (types : TypeMap) (budget : Nat) : Node Nat → Eval Unit
  | .int number n => Eval.store (.node number) (some (.int n))
  | .float number x => Eval.store (.node number) (some (.float (x.convert .single)))
  | .var .. => pure ()
  | .apply number op operands => do
    let site : Site := ⟨number, .operatorExpression⟩
    let ty := types (.node number)
    match op.function? ty with
    | none => Eval.fault (.noFunction op ty site)
    | some function =>
      let values ← Node.evalOperands types budget operands
      match function (values.map Value.toNumber) with
      | .ok result => Eval.store (.node number) (some result)
      | .error fault => Eval.fault (.operands fault site)
  | .assign number name value => do
    value.eval types budget
    let result ← Eval.load value.slot
    Eval.store (.node number) result
    Eval.store (.name name) result
  | .sequence _ statements => Node.evalAll types budget statements
  | .declare _ _ _ none => pure ()
  | .declare _ _ name (some value) => do
    value.eval types budget
    Eval.store (.name name) (← Eval.load value.slot)
  | .print _ text none => modify (·.print text)
  | .print _ text (some value) => do
    value.eval types budget
    let result ← Eval.load value.slot
    modify (·.print (text ++ Value.text result))
  | .loop _ condition body =>
    let test : Eval Bool := do
      condition.eval types budget
      return Value.keepsLooping (← Eval.load condition.slot)
    repeatWhile test (body.eval types budget) 0 budget

/-- The values of operands, each taken before the next operand is evaluated. -/
def Node.evalOperands (types : TypeMap) (budget : Nat) : List (Node Nat) → Eval (List Value)
  | [] => pure []
  | e :: es => do
    e.eval types budget
    match ← Eval.load e.slot with
    | none => Eval.fault (.missingOperand e.site)
    | some value => return value :: (← Node.evalOperands types budget es)

def Node.evalAll (types : TypeMap) (budget : Nat) : List (Node Nat) → Eval Unit
  | [] => pure ()
  | n :: ns => do
    n.eval types budget
    Node.evalAll types budget ns

end

/-- The state after a run and why it stopped, if it did. -/
structure Run where
  machine : Machine
  stop : Option Stop

def Eval.runFrom (evaluation : Eval Unit) (m : Machine) : Run :=
  match EStateM.run evaluation m with
  | .ok _ m => ⟨m, none⟩
  | .error stop m => ⟨m, some stop⟩

/-- A budget that no run uses up in a lifetime. -/
def ampleBudget : Nat := 4611686018427387904

def Node.run (types : TypeMap) (node : Node Nat) : Run :=
  (node.eval types ampleBudget).runFrom {}

end ProgramTrees
