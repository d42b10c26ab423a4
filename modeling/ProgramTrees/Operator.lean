namespace ProgramTrees

inductive Ty where
  | int
  | float
deriving DecidableEq

def Ty.all : List Ty := [.int, .float]

def Ty.name : Ty → String
  | .int => "int"
  | .float => "float"

def Ty.ofName? (name : String) : Option Ty :=
  Ty.all.find? (·.name == name)

def Ty.nameOrUndefined : Option Ty → String
  | some ty => ty.name
  | none => "undefined"

/-- The side from which operators of equal precedence group. -/
inductive Associativity where
  | leftToRight
  | rightToLeft
deriving DecidableEq

/-- The operators: two signs and five binary ones. -/
inductive Operator where
  | plus1
  | minus1
  | plus2
  | minus2
  | mult
  | div
  | mod
deriving DecidableEq

def Operator.all : List Operator :=
  [.plus1, .minus1, .plus2, .minus2, .mult, .div, .mod]

/-- The name of an operator in trees and messages; a sign and the binary operator with the same
symbol differ in it. -/
def Operator.name : Operator → String
  | .plus1 => "PLUS1"
  | .minus1 => "MINUS1"
  | .plus2 => "PLUS2"
  | .minus2 => "MINUS2"
  | .mult => "MULT"
  | .div => "DIV"
  | .mod => "MOD"

def Operator.ofName? (name : String) : Option Operator :=
  Operator.all.find? (·.name == name)

def Operator.symbol : Operator → String
  | .plus1 | .plus2 => "+"
  | .minus1 | .minus2 => "-"
  | .mult => "*"
  | .div => "/"
  | .mod => "%"

/-- The operators of higher precedence bind tighter. -/
def Operator.precedence : Operator → Nat
  | .plus1 | .minus1 => 3
  | .mult | .div | .mod => 2
  | .plus2 | .minus2 => 1

def Operator.associativity : Operator → Associativity
  | .plus1 | .minus1 => .rightToLeft
  | _ => .leftToRight

def Operator.arity : Operator → Nat
  | .plus1 | .minus1 => 1
  | _ => 2

/-- The types that the operator accepts; its operands and its result share one. -/
def Operator.supported : Operator → List Ty
  | .mod => [.int]
  | _ => [.int, .float]

def Operator.supports (op : Operator) (ty : Ty) : Bool :=
  ty ∈ op.supported

end ProgramTrees
