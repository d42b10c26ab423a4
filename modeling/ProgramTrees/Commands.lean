import ProgramTrees.FileStore
import ProgramTrees.Pipeline
import ProgramTrees.Samples
import ProgramTrees.SourceText
import ProgramTrees.TreeFile
import ProgramTrees.TreeJson
import ProgramTrees.Usage
import ProgramTrees.Utf8

namespace ProgramTrees

inductive Crash where
  | file (path : Path) (fault : FileFault)
  | encoding (error : Utf8Error)
  | format (error : FileError)
  | conversion (fault : ConversionFault)
  | noIndent
  | wideIndent
  | outOfMemory
  | noPath

def Crash.message : Crash → String
  | .file path fault => fault.message path
  | .encoding error => error.message
  | .format error => error.message none
  | .conversion fault => fault.message
  | .noIndent => "'<' not supported between instances of 'list' and 'int'"
  | .noPath => "expected str, bytes or os.PathLike object, not list"
  | .wideIndent => "cannot fit 'int' into an index-sized integer"
  | .outOfMemory => ""

inductive Ending where
  | exit (code : Nat)
  | crash (crash : Crash)

/-- The terminal: whether it shows colors, and what the environment says against them. -/
structure Terminal where
  isTerminal : Bool := false
  noColor : String := ""

/-- What a run has printed, and the files as it leaves them. -/
structure Console where
  color : Bool
  debug : Bool
  files : FileStore
  out : String := ""
  err : String := ""

/-- A command prints and writes, and stops early at its ending. -/
abbrev Command := EStateM Ending Console

namespace Command

def print (text : String) : Command Unit :=
  modify fun c => { c with out := c.out ++ text }

def printLine (line : String) : Command Unit :=
  print (line ++ "\n")

def complain (line : String) : Command Unit :=
  modify fun c => { c with err := c.err ++ line ++ "\n" }

def styled (style : Nat) (text : String) : Command String := do
  let color := (← get).color
  return ansi color style ++ text ++ ansi color 0

/-- A record of what is going on, for whoever asks for all of them. -/
def record (origin message : String) : Command Unit := do
  if (← get).debug then complain s!"DEBUG {programName}.{origin}: {message}"

def stop {α : Type} (code : Nat) : Command α :=
  throw (.exit code)

def crash {α : Type} (crash : Crash) : Command α :=
  throw (.crash crash)

def refuse {α : Type} (message : String) : Command α := do
  let title ← styled 91 "Error:"
  complain s!"{title} {message}"
  stop 1

/-- The program in a file. A path without a file, a directory and a text that is no tree are
reported; other failures are not expected. -/
def loadFile (path : Path) : Command Program := do
  match (← get).files.read path with
  | .error .nullCharacter => crash (.file path .nullCharacter)
  | .error fault => refuse (fault.message path)
  | .ok bytes =>
    match decodeUtf8 bytes with
    | .error error => crash (.encoding error)
    | .ok text =>
      match readTree (String.ofList text) with
      | .ok program => return program
      | .error error =>
        if error.isReported then refuse (error.message (some path.text))
        else crash (.format error)

def load (name : String) : Command Program := do
  match samples.lookup name with
  | some program =>
    record "cli" s!"Using bundled sample '{name}'"
    return program
  | none =>
    let path := Path.ofString name
    match (← get).files.holds path with
    | .error fault => crash (.file path fault)
    | .ok false => refuse s!"'{name}' is neither a sample nor an existing file"
    | .ok true => loadFile path

def checkTypes (program : Node Nat) : Command Findings := do
  record "compiler.type_checker" s!"Type checking {program.kind.name}"
  let findings := program.findings
  record "compiler.type_checker" s!"Type check finished with {findings.problems.length} problem(s)"
  return findings

def listSamples : Command Unit := do
  for (name, _) in samples do
    let name ← styled 96 name
    printLine s!"  {name}"

def printProblems (findings : Findings) (plain : Bool) : Command Unit := do
  if plain then
    for problem in findings.messages do
      let title ← styled 91 "error:"
      printLine s!"  {title} {problem}"
  else printLine (renderAll (← get).color findings.diagnostics)

def check (i : Invocation) : Command Unit := do
  let program ← load i.program
  let findings ← checkTypes program.numbered
  if findings.ok then
    let verdict ← styled 92 "[ok]"
    printLine s!"{verdict} Type check passed (0 problems)"
  else
    let verdict ← styled 91 "[!!]"
    let count := errorCount findings.diagnostics
    printLine s!"{verdict} Type check failed ({count} problem{pluralEnding count})"
    printLine ""
    printProblems findings (i.has .plain)
    stop 1

def warn (findings : Findings) : Command Unit := do
  let title ← styled 93 "warning:"
  complain s!"{title} type check reported {findings.problems.length} problem(s)"
  for problem in findings.messages do
    let line ← styled 90 s!"- {problem}"
    complain s!"  {line}"

def reportFault (fault : Fault) : Command Unit := do
  match fault.channel with
  | .conversion fault => crash (.conversion fault)
  | .arithmetic =>
    let title ← styled 91 "Arithmetic fault:"
    complain s!"{title} {fault.message}"
  | .evaluation =>
    let title ← styled 91 "Runtime error:"
    complain s!"{title} {fault.message}"
  stop 1

/-- Evaluates a program that has been checked, with what it prints. -/
def evaluate (program : Node Nat) (findings : Findings) : Command Machine := do
  let origin := "compiler.evaluator"
  record origin s!"Evaluating {program.kind.name}"
  let ⟨m, ended⟩ := program.run findings.typeOf
  print (streamText m.output)
  for rounds in m.rounds do
    record origin s!"Loop finished after {rounds} iteration(s)"
  if let some (.fault fault) := ended then reportFault fault
  record origin s!"Evaluation finished, {m.output.size} line(s) printed"
  return m

def showValues (findings : Findings) (m : Machine) : Command Unit := do
  printLine ""
  for name in sortNames findings.declared do
    let title ← styled 1 name
    let value := Value.text (m.value (.name name))
    printLine s!"{title} = {value}"

def run (i : Invocation) : Command Unit := do
  let program := (← load i.program).numbered
  let findings ← checkTypes program
  if !findings.ok then
    warn findings
    if i.has .strict then stop 1
  let m ← evaluate program findings
  if i.has .showValues then showValues findings m

def widestIndent : Int := 9223372036854775807

def widestIndentInMemory : Int := 68719476736

def fmt (i : Invocation) : Command Unit := do
  let program ← load i.program
  match i.indent with
  | none => crash .noIndent
  | some width =>
    if width < 0 then refuse "--indent must not be negative"
    if widestIndent < width then crash .wideIndent
    if widestIndentInMemory < width then crash .outOfMemory
    let style : SourceStyle := { indent := String.ofList (List.replicate width.toNat ' ') }
    let text := program.source style 0
    print (if text.endsWith "\n" then text else text ++ "\n")

def dump (i : Invocation) : Command Unit := do
  let program ← load i.program
  let text := program.dump
  match i.output? with
  | none => print text
  | some none => crash .noPath
  | some (some path) =>
    match (← get).files.write path text.toUTF8.toList with
    | .error fault => crash (.file path fault)
    | .ok files =>
      modify fun c => { c with files }
      let title ← styled 92 "Wrote"
      printLine s!"{title} {path.text}"

def perform (i : Invocation) : Command Unit :=
  match i.command with
  | none => print mainSpec.help
  | some .samples => listSamples
  | some .check => check i
  | some .run => run i
  | some .fmt => fmt i
  | some .dump => dump i

/-- What is printed where reading the command line has ended the program. -/
def explain : Stopped → Command Unit
  | .help spec => print spec.help
  | .version => print versionText
  | .usage spec message => do
    modify fun c => { c with err := c.err ++ spec.usage }
    complain s!"{spec.caller}: error: {message}"
    stop 2

end Command

/-- The ending of a run, what it printed on the two streams, and the files that it leaves. -/
structure Outcome where
  ending : Ending
  out : String
  err : String
  files : FileStore

def runCommandLine (terminal : Terminal) (files : FileStore) (texts : List String) : Outcome :=
  let (command, color, debug) : Command Unit × Bool × Bool :=
    match Invocation.read texts with
    | .error stopped => (Command.explain stopped, false, false)
    | .ok i =>
      (Command.perform i, terminal.isTerminal && terminal.noColor = "" && !i.has .noColor,
        2 ≤ i.verbosity)
  match EStateM.run command { color, debug, files } with
  | .ok _ c => ⟨.exit 0, c.out, c.err, c.files⟩
  | .error ending c => ⟨ending, c.out, c.err, c.files⟩

end ProgramTrees
