import ProgramTrees.Evaluation
import ProgramTrees.Typing

namespace ProgramTrees

def pluralEnding (count : Nat) : String :=
  if count = 1 then "" else "s"

/-- What checking and running a program comes to. Where problems forbid it, the program has not
been run. -/
structure ProgramRun where
  findings : Findings
  run : Option Run

/-- Checks a program from a clean slate. -/
def Node.findings (program : Node Nat) : Findings :=
  program.check {}

/-- Checks a program and runs it; with `strict`, only if checking has found no problem. -/
def Node.checkAndRun (strict : Bool) (program : Node Nat) : ProgramRun :=
  let findings := program.findings
  if strict && !findings.ok then ⟨findings, none⟩
  else ⟨findings, some (program.run findings.typeOf)⟩

def refusalSummary (problems : List String) : String :=
  s!"Type check failed with {problems.length} problem{pluralEnding problems.length}"

/-- The summary and a line for each problem. -/
def refusalMessage (problems : List String) : String :=
  refusalSummary problems ++ String.join (problems.map fun problem => "\n  - " ++ problem)

def streamText (lines : Array String) : String :=
  String.join (lines.toList.map (· ++ "\n"))

end ProgramTrees
