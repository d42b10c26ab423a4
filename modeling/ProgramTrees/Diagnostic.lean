import ProgramTrees.Suggestion

namespace ProgramTrees

inductive Severity where
  | error
  | note
  | help
deriving DecidableEq

def Severity.name : Severity → String
  | .error => "error"
  | .note => "note"
  | .help => "help"

def Severity.ofName? (name : String) : Option Severity :=
  [Severity.error, .note, .help].find? (·.name == name)

def Severity.color : Severity → Nat
  | .error => 91
  | .note => 96
  | .help => 92

/-- The terminal sequence that selects a style, or nothing without colors. -/
def ansi (color : Bool) (style : Nat) : String :=
  if color then "\x1b[" ++ toString style ++ "m" else ""

inductive ProblemCode where
  | typeMismatch
  | undefinedVariable
  | mixedOperands
  | redefinition
  | noType
  | unsupportedOperand
  | conditionNotInt
deriving DecidableEq

def ProblemCode.all : List ProblemCode :=
  [.typeMismatch, .undefinedVariable, .mixedOperands, .redefinition, .noType,
    .unsupportedOperand, .conditionNotInt]

def ProblemCode.name : ProblemCode → String
  | .typeMismatch => "E0101"
  | .undefinedVariable => "E0102"
  | .mixedOperands => "E0105"
  | .redefinition => "E0112"
  | .noType => "E0113"
  | .unsupportedOperand => "E0114"
  | .conditionNotInt => "E0115"

/-- A message with a code, and notes and hints that follow it. The code may be none of the known
ones. -/
structure Diagnostic where
  code : String
  severity : Severity
  message : String
  notes : List String := []
  helps : List String := []
deriving DecidableEq

def Diagnostic.error (code : ProblemCode) (message : String) : Diagnostic :=
  ⟨code.name, .error, message, [], []⟩

def Diagnostic.withNote (d : Diagnostic) (note : String) : Diagnostic :=
  { d with notes := d.notes ++ [note] }

def Diagnostic.withHelp (d : Diagnostic) (help : String) : Diagnostic :=
  { d with helps := d.helps ++ [help] }

def Diagnostic.hasKnownCode (d : Diagnostic) : Bool :=
  ProblemCode.all.any (·.name == d.code)

/-- The lines of a diagnostic. Only a known code is shown. -/
def Diagnostic.lines (color : Bool) (d : Diagnostic) : List String :=
  let reset := ansi color 0
  let bold := ansi color 1
  let blue := ansi color 94
  let green := ansi color 92
  let code := if d.hasKnownCode then "[" ++ d.code ++ "]" else ""
  let header := ansi color d.severity.color ++ bold ++ d.severity.name ++ code ++ reset ++ ": " ++
    bold ++ d.message ++ reset
  let notes := d.notes.map fun note =>
    "   " ++ blue ++ "=" ++ reset ++ " " ++ bold ++ "note:" ++ reset ++ " " ++ note
  let helps := d.helps.map fun help =>
    "   " ++ blue ++ "=" ++ reset ++ " " ++ green ++ "help:" ++ reset ++ " " ++ help
  header :: notes ++ helps

def Diagnostic.render (color : Bool) (d : Diagnostic) : String :=
  "\n".intercalate (d.lines color)

def Diagnostic.summary (d : Diagnostic) : String :=
  "[" ++ d.code ++ "] " ++ d.message

def renderAll (color : Bool) (ds : List Diagnostic) : String :=
  "\n\n".intercalate (ds.map (·.render color))

def errorCount (ds : List Diagnostic) : Nat :=
  ds.countP (·.severity == .error)

def undefinedHelp (name : String) (candidates : List String) : String :=
  match suggestions {} name candidates with
  | [] => s!"declare '{name}' before using it"
  | [similar] => s!"did you mean '{similar}'?"
  | similar =>
    let names := ", ".intercalate (similar.map fun s => "'" ++ s ++ "'")
    s!"did you mean one of: {names}?"

/-- The use of a name that is not declared, where `candidates` are. -/
def Diagnostic.undefinedVariable (name : String) (candidates : List String) : Diagnostic :=
  (Diagnostic.error .undefinedVariable s!"undefined variable '{name}'").withHelp
    (undefinedHelp name candidates)

/-- A value of another type than expected; the actual type may be missing. -/
def Diagnostic.typeMismatch (expected : String) (actual : Option String) (context : String) :
    Diagnostic :=
  let found := if actual.getD "" = "" then "undefined" else actual.getD ""
  let message := s!"expected type '{expected}', found '{found}'"
  let d := Diagnostic.error .typeMismatch
    (if context = "" then message else message ++ " " ++ context)
  if actual = none then
    d.withNote "the value expression could not be typed; see the earlier errors"
  else d.withHelp "MiniJava has no implicit conversions between int and float"

end ProgramTrees
