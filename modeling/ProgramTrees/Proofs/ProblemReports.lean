import ProgramTrees.Proofs.TextLines
import ProgramTrees.Typing

namespace ProgramTrees

/-- The code that belongs to each kind of problem. -/
def Problem.code : Problem → String
  | .redeclared .. => "E0112"
  | .wrongInitializer .. | .wrongAssignment .. => "E0101"
  | .undeclaredUse .. | .undeclaredTarget .. => "E0102"
  | .untypedVariable .. | .untypedOperand .. | .noTypedOperand .. => "E0113"
  | .mixedOperands .. => "E0105"
  | .unsupportedType .. => "E0114"
  | .wrongCondition .. => "E0115"

/-- The names that the message of a problem shows. -/
def Problem.names : Problem → List String
  | .redeclared name | .wrongInitializer _ name _ | .undeclaredTarget name
  | .wrongAssignment name _ | .undeclaredUse name | .untypedVariable name => [name]
  | .wrongCondition _ | .untypedOperand _ | .mixedOperands _ | .noTypedOperand _
  | .unsupportedType .. => []

theorem oneLine_nameOrUndefined (ty : Option Ty) : OneLine (Ty.nameOrUndefined ty) := by
  cases ty with
  | none => decide
  | some ty => exact oneLine_ty ty

theorem oneLine_operator (op : Operator) :
    OneLine op.symbol ∧ OneLine op.name ∧ OneLine op.supportedNote := by
  cases op <;> decide

theorem mem_of_mem_upTo {α : Type} {count : Int} {xs : List α} {x : α} (h : x ∈ upTo count xs) :
    x ∈ xs := by
  unfold upTo at h
  split at h <;> exact List.mem_of_mem_take h

theorem mem_of_mem_suggestions {limits : SuggestionLimits} {name : String}
    {candidates : List String} {similar : String}
    (h : similar ∈ suggestions limits name candidates) : similar ∈ candidates := by
  obtain ⟨⟨distance, candidate⟩, hscored, rfl⟩ := List.mem_map.mp h
  have hsorted := mem_of_mem_upTo hscored
  rw [List.mem_mergeSort] at hsorted
  obtain ⟨candidate, hcandidate, hmap⟩ := List.mem_filterMap.mp hsorted
  obtain ⟨distance, -, heq⟩ := Option.map_eq_some_iff.mp hmap
  cases heq
  exact hcandidate

theorem oneLine_undefinedHelp {name : String} {candidates : List String} (hname : OneLine name)
    (hcandidates : ∀ candidate ∈ candidates, OneLine candidate) :
    OneLine (undefinedHelp name candidates) := by
  have hsimilar : ∀ similar ∈ suggestions {} name candidates, OneLine similar :=
    fun similar h => hcandidates similar (mem_of_mem_suggestions h)
  unfold undefinedHelp
  split
  next => simpa [OneLine, toString] using hname
  next similar heq =>
    have hone : OneLine similar := hsimilar similar (by simp [heq])
    simpa [OneLine, toString] using hone
  next =>
    have hnames : OneLine (", ".intercalate
        ((suggestions {} name candidates).map fun s => "'" ++ s ++ "'")) := by
      refine oneLine_intercalate (by decide) ?_
      intro part hpart
      obtain ⟨similar, hmem, rfl⟩ := List.mem_map.mp hpart
      simpa [OneLine] using hsimilar similar hmem
    simpa [OneLine, toString] using hnames

/-- No part of the diagnostic goes over a line break. -/
structure Diagnostic.Unbroken (d : Diagnostic) : Prop where
  code : OneLine d.code
  message : OneLine d.message
  notes : ∀ note ∈ d.notes, OneLine note
  helps : ∀ help ∈ d.helps, OneLine help

namespace Diagnostic.Unbroken

variable {d : Diagnostic}

theorem error (code : ProblemCode) {message : String} (h : OneLine message) :
    (Diagnostic.error code message).Unbroken := by
  have hcode : OneLine code.name := by cases code <;> decide
  exact ⟨hcode, h, by simp [Diagnostic.error], by simp [Diagnostic.error]⟩

theorem withNote {note : String} (h : d.Unbroken) (hnote : OneLine note) :
    (d.withNote note).Unbroken :=
  ⟨h.code, h.message, by simpa [Diagnostic.withNote, or_imp, forall_and] using ⟨h.notes, hnote⟩,
    h.helps⟩

theorem withHelp {help : String} (h : d.Unbroken) (hhelp : OneLine help) :
    (d.withHelp help).Unbroken :=
  ⟨h.code, h.message, h.notes,
    by simpa [Diagnostic.withHelp, or_imp, forall_and] using ⟨h.helps, hhelp⟩⟩

end Diagnostic.Unbroken

/-- A diagnostic reports a problem: it is an error with the code of the problem's kind, and no part
of it goes over a line break unless a known name does. -/
structure Diagnostic.Reports (d : Diagnostic) (problem : Problem) (known : List String) : Prop where
  severity : d.severity = .error
  code : d.code = problem.code
  unbroken : (∀ name ∈ known, OneLine name) → d.Unbroken

namespace Diagnostic.Reports

variable {d : Diagnostic} {problem : Problem} {known known' : List String}

theorem mono (h : d.Reports problem known) (hknown : known ⊆ known') : d.Reports problem known' :=
  ⟨h.severity, h.code, fun hlines => h.unbroken fun name hname => hlines name (hknown hname)⟩

theorem error {code : ProblemCode} {message : String} (hcode : code.name = problem.code)
    (hmessage : (∀ name ∈ known, OneLine name) → OneLine message) :
    (Diagnostic.error code message).Reports problem known :=
  ⟨rfl, hcode, fun hlines => .error code (hmessage hlines)⟩

theorem withNote {note : String} (h : d.Reports problem known)
    (hnote : (∀ name ∈ known, OneLine name) → OneLine note) :
    (d.withNote note).Reports problem known :=
  ⟨h.severity, h.code, fun hlines => (h.unbroken hlines).withNote (hnote hlines)⟩

theorem withHelp {help : String} (h : d.Reports problem known)
    (hhelp : (∀ name ∈ known, OneLine name) → OneLine help) :
    (d.withHelp help).Reports problem known :=
  ⟨h.severity, h.code, fun hlines => (h.unbroken hlines).withHelp (hhelp hlines)⟩

theorem undefinedVariable {name : String} {candidates : List String}
    (hcode : problem.code = "E0102") (hname : name ∈ known) (hcandidates : candidates ⊆ known) :
    (Diagnostic.undefinedVariable name candidates).Reports problem known := by
  refine .withHelp (.error hcode.symm fun hlines => ?_) fun hlines => ?_
  · have hone := hlines name hname
    simpa [OneLine, toString] using hone
  · exact oneLine_undefinedHelp (hlines name hname) fun candidate h =>
      hlines candidate (hcandidates h)

theorem typeMismatch {expected context : String} {found : Option Ty}
    (hcode : problem.code = "E0101") (hexpected : OneLine expected)
    (hcontext : (∀ name ∈ known, OneLine name) → OneLine context) :
    (Diagnostic.typeMismatch expected (found.map Ty.name) context).Reports problem known := by
  have hshown : OneLine (if (found.map Ty.name).getD "" = "" then "undefined"
      else (found.map Ty.name).getD "") := by
    cases found with
    | none => decide
    | some ty => cases ty <;> decide
  unfold Diagnostic.typeMismatch
  generalize (if (found.map Ty.name).getD "" = "" then "undefined"
      else (found.map Ty.name).getD "") = shown at hshown
  have hmessage : OneLine s!"expected type '{expected}', found '{shown}'" := by
    simpa [OneLine, toString] using ⟨hexpected, hshown⟩
  have hplaced (hlines : ∀ name ∈ known, OneLine name) :
      OneLine (if context = "" then s!"expected type '{expected}', found '{shown}'"
        else s!"expected type '{expected}', found '{shown}'" ++ " " ++ context) := by
    split
    next => exact hmessage
    next =>
      exact oneLine_append.mpr ⟨oneLine_append.mpr ⟨hmessage, by decide⟩, hcontext hlines⟩
  simp only
  split
  next => exact .withNote (.error hcode.symm hplaced) fun _ => by decide
  next => exact .withHelp (.error hcode.symm hplaced) fun _ => by decide

end Diagnostic.Reports

end ProgramTrees
