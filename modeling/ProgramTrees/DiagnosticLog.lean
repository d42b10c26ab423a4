import ProgramTrees.Diagnostic
import ProgramTrees.Table

namespace ProgramTrees

/-- Drafts under their names, and the diagnostics that have been emitted, the oldest first. -/
structure DiagnosticLog where
  drafts : Table String Diagnostic := []
  emitted : List Diagnostic := []

namespace DiagnosticLog

variable (log : DiagnosticLog)

def draft (id : String) (d : Diagnostic) : DiagnosticLog :=
  { log with drafts := log.drafts.set id d }

/-- Adds to a draft; what has been emitted of it stays as it was. -/
def revise? (id : String) (change : Diagnostic → Diagnostic) : Option DiagnosticLog :=
  (log.drafts.get? id).map fun d => log.draft id (change d)

def emit (d : Diagnostic) : DiagnosticLog :=
  { log with emitted := log.emitted ++ [d] }

theorem emitted_draft (id : String) (d : Diagnostic) : (log.draft id d).emitted = log.emitted :=
  rfl

theorem emitted_emit (d : Diagnostic) : (log.emit d).emitted = log.emitted ++ [d] :=
  rfl

theorem emitted_revise {id : String} {change : Diagnostic → Diagnostic} {revised : DiagnosticLog}
    (h : log.revise? id change = some revised) : revised.emitted = log.emitted := by
  obtain ⟨d, _, rfl⟩ := Option.map_eq_some_iff.mp h
  rfl

end DiagnosticLog

end ProgramTrees
