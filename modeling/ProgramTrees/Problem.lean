import ProgramTrees.Operator

namespace ProgramTrees

/-- What checking types finds wrong, with what its message shows. -/
inductive Problem where
  | redeclared (name : String)
  | wrongInitializer (ty : Ty) (name : String) (found : Option Ty)
  | wrongCondition (found : Option Ty)
  | undeclaredTarget (name : String)
  | wrongAssignment (name : String) (expected : Option Ty)
  | undeclaredUse (name : String)
  | untypedVariable (name : String)
  | untypedOperand (op : Operator)
  | mixedOperands (op : Operator)
  | noTypedOperand (op : Operator)
  | unsupportedType (op : Operator) (ty : Ty)
deriving DecidableEq

def Problem.message : Problem → String
  | .redeclared name => s!"Variable {name} declared more than once."
  | .wrongInitializer ty name found =>
    s!"Type mismatch for declaration of {ty.name} {name}: expression is type " ++
      s!"{Ty.nameOrUndefined found}."
  | .wrongCondition found => s!"Not an int: {Ty.nameOrUndefined found}"
  | .undeclaredTarget name => s!"Variable {name} not defined."
  | .wrongAssignment name expected =>
    s!"Type mismatch for assignment to variable {name} of type {Ty.nameOrUndefined expected}."
  | .undeclaredUse name => s!"Variable not defined {name}"
  | .untypedVariable name => s!"Variable {name} does not have a type."
  | .untypedOperand op => s!"A subexpression of {op.symbol} does not have a type."
  | .mixedOperands op => s!"Subexpressions of operator do not match for {op.symbol}."
  | .noTypedOperand op =>
    s!"Subexpression(s) of operand do not have a type: Operator {op.name}"
  | .unsupportedType op ty =>
    "Operator does not support the type of its operands. " ++
      s!"Operator is {op.name} and operand type is {ty.name}"

/-- The types that an operator supports, as a note names them. -/
def Operator.supportedNote (op : Operator) : String :=
  let names := ", ".intercalate (op.supported.map fun ty => "'" ++ ty.name ++ "'")
  s!"{op.name} supports {names}"

end ProgramTrees
