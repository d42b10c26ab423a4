import ProgramTrees.Diagnostic
import ProgramTrees.Problem
import ProgramTrees.Table
import ProgramTrees.Tree

namespace ProgramTrees

/-- What checking has found: the types of expressions and variables, the declared names in the
order of their declarations, and the problems and the diagnostics in the order in which they came
up. -/
structure Findings where
  types : Table Slot Ty := []
  declared : List String := []
  problems : List Problem := []
  diagnostics : List Diagnostic := []

def Findings.typeOf (s : Findings) (slot : Slot) : Option Ty :=
  s.types.get? slot

def Findings.record (s : Findings) (slot : Slot) (ty : Ty) : Findings :=
  { s with types := s.types.set slot ty }

def Findings.report (s : Findings) (problem : Problem) : Findings :=
  { s with problems := s.problems ++ [problem] }

def Findings.emit (s : Findings) (d : Diagnostic) : Findings :=
  { s with diagnostics := s.diagnostics ++ [d] }

/-- Enters a name among the declared ones. -/
def Findings.enter (s : Findings) (name : String) : Findings :=
  if name ∈ s.declared then s else { s with declared := s.declared ++ [name] }

def Findings.declare (s : Findings) (name : String) (ty : Ty) : Findings :=
  (s.enter name).record (.name name) ty

def Findings.declaredNames (s : Findings) : List String :=
  s.declared.mergeSort fun a b => !decide (b < a)

def Findings.messages (s : Findings) : List String :=
  s.problems.map Problem.message

def Findings.ok (s : Findings) : Bool :=
  s.problems.isEmpty

/-- What the operands seen so far have in common: the type of the first that has one, and whether
all others have it too. -/
structure Agreement where
  ty : Option Ty := none
  consistent : Bool := true

def Findings.compare (s : Findings) (op : Operator) (seen : Agreement) :
    Option Ty → Findings × Agreement
  | none =>
    let s := (s.report (.untypedOperand op)).emit
      (.error .noType s!"an operand of '{op.symbol}' does not have a type")
    (s, { seen with consistent := false })
  | some found =>
    match seen.ty with
    | none => (s, { seen with ty := some found })
    | some first =>
      if found = first then (s, seen)
      else
        let s := (s.report (.mixedOperands op)).emit
          ((Diagnostic.error .mixedOperands
            s!"operands of '{op.symbol}' mix '{first.name}' and '{found.name}'").withHelp
            "all operands of an operator must have the same type")
        (s, { seen with consistent := false })

/-- The verdict on an operation whose operands have been seen. -/
def Findings.conclude (s : Findings) (number : Nat) (op : Operator) (seen : Agreement) :
    Findings :=
  match seen.ty with
  | none =>
    (s.report (.noTypedOperand op)).emit
      (.error .noType s!"'{op.symbol}' has no typed operands")
  | some ty =>
    if op.supports ty then if seen.consistent then s.record (.node number) ty else s
    else
      (s.report (.unsupportedType op ty)).emit
        ((Diagnostic.error .unsupportedOperand
          s!"operator {op.name} does not support operands of type '{ty.name}'").withNote
          op.supportedNote)

def Findings.checkUse (s : Findings) (name : String) : Findings :=
  if name ∉ s.declared then
    (s.report (.undeclaredUse name)).emit (.undefinedVariable name s.declaredNames)
  else if s.typeOf (.name name) = none then
    (s.report (.untypedVariable name)).emit
      (.error .noType s!"variable '{name}' does not have a type")
  else s

/-- An assignment whose value has been checked and keeps its type at `value`. -/
def Findings.checkTarget (s : Findings) (number : Nat) (name : String) (value : Slot) :
    Findings :=
  if name ∉ s.declared then
    (s.report (.undeclaredTarget name)).emit (.undefinedVariable name s.declaredNames)
  else
    let expected := s.typeOf (.name name)
    let found := s.typeOf value
    if expected ≠ found then
      (s.report (.wrongAssignment name expected)).emit
        (.typeMismatch (Ty.nameOrUndefined expected) (found.map Ty.name)
          s!"in assignment to '{name}'")
    else expected.elim s (s.record (.node number))

/-- A declaration whose value, if it has one, has been checked and keeps its type at `value`. -/
def Findings.checkDeclaration (s : Findings) (ty : Ty) (name : String) (value : Option Slot) :
    Findings :=
  if name ∈ s.declared then
    let first := Ty.nameOrUndefined (s.typeOf (.name name))
    (s.report (.redeclared name)).emit
      ((Diagnostic.error .redefinition s!"variable '{name}' is declared more than once").withNote
        s!"the first declaration as '{first}' stays in effect")
  else
    let s := s.declare name ty
    match value with
    | none => s
    | some slot =>
      let found := s.typeOf slot
      if found = some ty then s
      else
        (s.report (.wrongInitializer ty name found)).emit
          (.typeMismatch ty.name (found.map Ty.name) s!"in declaration of '{name}'")

/-- A loop whose condition has been checked and keeps its type at `condition`. -/
def Findings.checkCondition (s : Findings) (condition : Slot) : Findings :=
  let found := s.typeOf condition
  if found = some .int then s
  else
    (s.report (.wrongCondition found)).emit
      ((Diagnostic.error .conditionNotInt
        s!"loop condition must be 'int', found '{Ty.nameOrUndefined found}'").withHelp
        "the loop runs while the condition value is >= 0")

mutual

/-- Checks a node after what has been found so far. -/
def Node.check : Node Nat → Findings → Findings
  | .int number _, s => s.record (.node number) .int
  | .float number _, s => s.record (.node number) .float
  | .var _ name, s => s.checkUse name
  | .apply number op operands, s =>
    let (s, seen) := Node.checkOperands op operands s {}
    s.conclude number op seen
  | .assign number name value, s => (value.check s).checkTarget number name value.slot
  | .sequence _ statements, s => Node.checkAll statements s
  | .declare _ ty name none, s => s.checkDeclaration ty name none
  | .declare _ ty name (some value), s => (value.check s).checkDeclaration ty name value.slot
  | .print _ _ none, s => s
  | .print _ _ (some value), s => value.check s
  | .loop _ condition body, s => body.check ((condition.check s).checkCondition condition.slot)

def Node.checkOperands (op : Operator) :
    List (Node Nat) → Findings → Agreement → Findings × Agreement
  | [], s, seen => (s, seen)
  | e :: es, s, seen =>
    let s := e.check s
    let (s, seen) := s.compare op seen (s.typeOf e.slot)
    Node.checkOperands op es s seen

def Node.checkAll : List (Node Nat) → Findings → Findings
  | [], s => s
  | n :: ns, s => Node.checkAll ns (n.check s)

end

end ProgramTrees
