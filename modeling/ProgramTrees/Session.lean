import ProgramTrees.Evaluation
import ProgramTrees.TreeReader
import ProgramTrees.Typing

namespace ProgramTrees

/-- Where an evaluator takes its types from: what a checker holds at the time, findings kept from a
check, or a fixed map. -/
inductive TypeSource where
  | checker (name : String)
  | findings (index : Nat)
  | fixed (types : Table Slot (Option Ty))

/-- An evaluator and the index of the state that it works on. -/
structure Evaluator where
  source : TypeSource
  machine : Nat

/-- A bench on which nodes are built one by one, placed anywhere and shared, and on which checkers
and evaluators live on. The number of a node tells it from all others. Findings and machine states
stay where they were made, and everything that shares one refers to it by its index. -/
structure Session where
  nodes : Table String (Node Nat) := []
  nextNumber : Nat := 0
  findings : Array Findings := #[]
  checkers : Table String Nat := []
  results : Table String Nat := []
  machines : Array Machine := #[]
  evaluators : Table String Evaluator := []
  kept : Table String Nat := []

inductive SessionError where
  | unknown (name : String)
  | notVariable (kind : NodeKind)
  | tree (error : TreeError)
  | booleanLiteral
  | literalOutOfRange (n : Int)
  | noTypes

def SessionError.message : SessionError → String
  | .unknown name => quoted name
  | .notVariable kind => s!"Object of type {kind.name} is not JSON serializable"
  | .tree error => error.message none
  | .booleanLiteral => "MiniJava has no boolean literals"
  | .literalOutOfRange n => (NodeFault.outOfRange n).message
  | .noTypes => "Evaluation requires the result of a type check"

/-- The variable of a declaration or an assignment: a name, or the variable of a node. -/
inductive VarRef where
  | name (name : String)
  | node (id : String)

/-- What a new node is made of; other nodes stand in it by their names. -/
inductive Blueprint where
  | int (n : Int)
  | float (x : Double)
  | bool
  | var (name : String)
  | apply (op : Operator) (operands : List String)
  | sequence (statements : List String)
  | declare (ty : Ty) (target : VarRef) (value : Option String)
  | assign (target : VarRef) (value : String)
  | print (text : String) (value : Option String)
  | loop (condition body : String)
  | program (program : Program)

namespace Session

variable (s : Session)

def node (id : String) : Except SessionError (Node Nat) :=
  (s.nodes.get? id).elim (.error (.unknown id)) .ok

def optionalNode : Option String → Except SessionError (Option (Node Nat))
  | none => .ok none
  | some id => return some (← s.node id)

def variableName : VarRef → Except SessionError String
  | .name name => .ok name
  | .node id => do
    match ← s.node id with
    | .var _ name => .ok name
    | node => .error (.notVariable node.kind)

/-- The new node of a blueprint, numbered from the next number on, and the number after the last. -/
def construct : Blueprint → Except SessionError (Node Nat × Nat)
  | .int n =>
    if isInt32 n then .ok (.int s.nextNumber (Int32.ofInt n), s.nextNumber + 1)
    else .error (.literalOutOfRange n)
  | .float x => .ok (.float s.nextNumber x, s.nextNumber + 1)
  | .bool => .error .booleanLiteral
  | .var name => .ok (.var s.nextNumber name, s.nextNumber + 1)
  | .apply op operands => do
    return (.apply s.nextNumber op (← operands.mapM s.node), s.nextNumber + 1)
  | .sequence statements => do
    return (.sequence s.nextNumber (← statements.mapM s.node), s.nextNumber + 1)
  | .declare ty ref value => do
    let name ← s.variableName ref
    return (.declare s.nextNumber ty name (← s.optionalNode value), s.nextNumber + 1)
  | .assign ref value => do
    let name ← s.variableName ref
    return (.assign s.nextNumber name (← s.node value), s.nextNumber + 1)
  | .print text value => do
    return (.print s.nextNumber text (← s.optionalNode value), s.nextNumber + 1)
  | .loop condition body => do
    return (.loop s.nextNumber (← s.node condition) (← s.node body), s.nextNumber + 1)
  | .program program => .ok (program.numberedFrom s.nextNumber)

def build (id : String) (blueprint : Blueprint) : Except SessionError (Session × Node Nat) := do
  let (node, next) ← s.construct blueprint
  return ({ s with nodes := s.nodes.set id node, nextNumber := next }, node)

/-- Two variables are the same if their names are; all other nodes are the same only as
themselves. -/
def same (a b : String) : Except SessionError Bool := do
  match ← s.node a, ← s.node b with
  | .var _ x, .var _ y => return x == y
  | a, b => return a.tag == b.tag

/-- The named expressions in the order in which their names came. -/
def namedExprs : List (String × Node Nat) :=
  s.nodes.filter fun (_, node) => node.kind.isExpression

def nameOfSite (site : Site) : Option String :=
  (s.nodes.find? fun (_, node) => node.tag == site.number).map (·.1)

def findingsAt (index : Nat) : Findings :=
  s.findings[index]?.getD {}

def machineAt (index : Nat) : Machine :=
  s.machines[index]?.getD {}

/-- A checker, made at its first use, and the index of what it holds. -/
def checker (name : String) : Session × Nat :=
  match s.checkers.get? name with
  | some index => (s, index)
  | none =>
    let index := s.findings.size
    ({ s with findings := s.findings.push {}, checkers := s.checkers.set name index }, index)

/-- Changes what a checker holds. -/
def revise (name : String) (change : Findings → Findings) : Session × Findings :=
  let (s, index) := s.checker name
  let revised := change (s.findingsAt index)
  ({ s with findings := s.findings.setIfInBounds index revised }, revised)

/-- A check from a clean slate: the checker lets go of what it held before. -/
def check (name id : String) (keep : Option String) :
    Except SessionError (Session × Findings) := do
  let node ← s.node id
  let fresh := node.check {}
  let index := s.findings.size
  let results := keep.elim s.results fun result => s.results.set result index
  return ({ s with
    findings := s.findings.push fresh, checkers := s.checkers.set name index, results }, fresh)

/-- A check that adds to what the checker holds. -/
def visit (name id : String) : Except SessionError (Session × Findings) := do
  let node ← s.node id
  return s.revise name node.check

def result (name : String) : Except SessionError Findings :=
  (s.results.get? name).elim (.error (.unknown name)) fun index => .ok (s.findingsAt index)

def fixedTypes (types : List (String × Option Ty)) :
    Except SessionError (Table Slot (Option Ty)) :=
  types.foldlM (fun table (id, ty) => return table.set (← s.node id).slot ty) []

inductive SourceRef where
  | checker (name : String)
  | result (name : String)
  | mapping (types : List (String × Option Ty))
  | missing

def addEvaluator (id : String) (ref : SourceRef) : Except SessionError Session := do
  let (s, source) ← match ref with
    | .checker name => pure ((s.checker name).1, TypeSource.checker name)
    | .result name =>
      match s.results.get? name with
      | some index => pure (s, TypeSource.findings index)
      | none => throw (SessionError.unknown name)
    | .mapping types => pure (s, TypeSource.fixed (← s.fixedTypes types))
    | .missing => throw SessionError.noTypes
  return { s with
    evaluators := s.evaluators.set id ⟨source, s.machines.size⟩, machines := s.machines.push {} }

def types : TypeSource → TypeMap
  | .checker name => fun slot =>
    (s.checkers.get? name).bind fun index => (s.findingsAt index).typeOf slot
  | .findings index => (s.findingsAt index).typeOf
  | .fixed types => fun slot => (types.get? slot).join

def evaluator (id : String) : Except SessionError Evaluator :=
  (s.evaluators.get? id).elim (.error (.unknown id)) .ok

def machineOf (id : String) : Except SessionError Machine :=
  return s.machineAt (← s.evaluator id).machine

def exec (id node : String) : Except SessionError (Session × Run) := do
  let evaluator ← s.evaluator id
  let node ← s.node node
  let evaluation := node.eval (s.types evaluator.source) ampleBudget
  let run := evaluation.runFrom (s.machineAt evaluator.machine)
  return ({ s with machines := s.machines.setIfInBounds evaluator.machine run.machine }, run)

/-- Evaluates a node on a new empty state; it is kept only if the run comes to its end. -/
def run (id node : String) (keep : Option String) : Except SessionError (Session × Run) := do
  let evaluator ← s.evaluator id
  let node ← s.node node
  let run := node.run (s.types evaluator.source)
  let index := s.machines.size
  let kept := match run.stop, keep with
    | none, some name => s.kept.set name index
    | _, _ => s.kept
  return ({ s with
    machines := s.machines.push run.machine
    evaluators := s.evaluators.set id { evaluator with machine := index }, kept }, run)

def keptMachine (name : String) : Except SessionError Machine :=
  (s.kept.get? name).elim (.error (.unknown name)) fun index => .ok (s.machineAt index)

end Session

end ProgramTrees
