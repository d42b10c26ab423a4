import ProgramTrees.Decimal
import ProgramTrees.Tree

namespace ProgramTrees

def thousandths (units : Int) : Program :=
  .float () (Decimal.round .double (units < 0) ⟨units.natAbs, -3⟩)

def whole (n : Int) : Program := .int () (Int32.ofInt n)

def use (name : String) : Program := .var () name

def chainedInts : Program :=
  .sequence () [
    .declare () .int "i" none,
    .declare () .int "j" (some (.assign () "i"
      (.apply () .plus2 [whole 2, .assign () "i" (whole 3)])))]

def chainedFloats : Program :=
  .sequence () [
    .declare () .float "i" none,
    .declare () .float "j" (some (.assign () "i"
      (.apply () .minus2 [thousandths 2750, .assign () "i" (thousandths 3210)])))]

def stepDown (name : String) : Program :=
  .assign () name (.apply () .minus2 [use name, whole 1])

def nestedLoops : Program :=
  .sequence () [
    .declare () .int "i" (some (whole 5)),
    .declare () .int "sum" (some (whole 0)),
    .loop () (use "i") (.sequence () [
      .declare () .int "j" (some (use "i")),
      .loop () (use "j") (.sequence () [
        .assign () "sum" (.apply () .plus2 [use "sum", use "j"]),
        stepDown "j",
        .print () " i: " (some (use "i")),
        .print () " j: " (some (use "j"))]),
      stepDown "i"])]

/-- The sum of `- + start` and `seven`, less `one`. -/
def signedSum (start seven one : Program) : Program :=
  .apply () .minus2 [
    .apply () .plus2 [.apply () .minus1 [.apply () .plus1 [start]], seven], one]

def operators : Program :=
  .sequence () [
    .declare () .int "i" (some (signedSum (whole (-1)) (whole 7) (whole 1))),
    .print () " - + -1 + 7 - 1: " (some (use "i")),
    .declare () .float "x"
      (some (signedSum (thousandths (-1500)) (thousandths 7000) (thousandths 1000))),
    .print () " - + -1.5f + 7.0f - 1.0f: " (some (use "x")),
    .declare () .int "j" (some (.apply () .mod [whole 36, whole 7])),
    .print () "36 % 7: " (some (use "j")),
    .declare () .int "k" (some (.apply () .div [whole 36, whole 7])),
    .print () "36 / 7: " (some (use "k")),
    .declare () .float "y" (some (.apply () .div [thousandths 36000, thousandths 7000])),
    .print () "36.0f / 7.0f: " (some (use "y"))]

def multiplication : Program :=
  .sequence () [
    .declare () .int "i" (some (.apply () .mult [whole 3, whole 5])),
    .declare () .float "x" (some (.apply () .mult [thousandths 3500, thousandths 2000])),
    .print () "3 * 5 = " (some (use "i")),
    .print () "3.5f * 2.0f = " (some (use "x"))]

def divisionByZero : Program :=
  .sequence () [.declare () .int "i" (some (.apply () .div [whole 5, whole 0]))]

def mistyped : Program :=
  .sequence () [
    .declare () .float "i" none,
    .declare () .int "j" none,
    .declare () .float "j" (some (.assign () "i"
      (.apply () .minus2 [thousandths 2750, .assign () "i" (thousandths 3210)]))),
    .assign () "i" (use "k"),
    .assign () "k" (whole 3)]

def samples : List (String × Program) := [
  ("chained-ints", chainedInts),
  ("chained-floats", chainedFloats),
  ("nested-loops", nestedLoops),
  ("operators", operators),
  ("multiplication", multiplication),
  ("division-by-zero", divisionByZero),
  ("mistyped", mistyped)]

end ProgramTrees
