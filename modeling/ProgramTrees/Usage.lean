import ProgramTrees.Arguments
import ProgramTrees.FileStore

namespace ProgramTrees

def textOfLines (lines : List String) : String :=
  String.join (lines.map (· ++ "\n"))

def helpOption : OptionSpec := ⟨["-h", "--help"], .help⟩

def programName : String := "minijava"

def versionText : String := "minijava 0.1.0\n"

def mainUsage : List String := [
  "usage: minijava [-h] [-V] [-v] [--no-color]",
  "                \x7bsamples,check,tc,run,r,fmt,format,dump\x7d ..."]

def mainHelp : List String := mainUsage ++ [
  "",
  "MiniJava - type check, run and pretty-print MiniJava program trees",
  "",
  "positional arguments:",
  "  \x7bsamples,check,tc,run,r,fmt,format,dump\x7d",
  "                        Available commands",
  "    samples             List the bundled sample programs",
  "    check (tc)          Type check a program",
  "    run (r)             Type check and evaluate a program",
  "    fmt (format)        Print a program as source text",
  "    dump                Print a program as a JSON tree",
  "",
  "options:",
  "  -h, --help            show this help message and exit",
  "  -V, --version         show program's version number and exit",
  "  -v, --verbose         Increase log output (-v info, -vv debug)",
  "  --no-color            Disable colored output"]

def mainSpec : CommandSpec where
  caller := programName
  usage := textOfLines mainUsage
  help := textOfLines mainHelp
  options := [helpOption,
    ⟨["-V", "--version"], .version⟩,
    ⟨["-v", "--verbose"], .set .verbose⟩,
    ⟨["--no-color"], .set .noColor⟩]
  positional := .rest

def checkUsage : List String := [
  "usage: minijava check [-h] [--plain] program"]

def checkHelp : List String := checkUsage ++ [
  "",
  "positional arguments:",
  "  program     Sample name or JSON tree file",
  "",
  "options:",
  "  -h, --help  show this help message and exit",
  "  --plain     Print plain problem messages instead of coded diagnostics"]

def checkSpec : CommandSpec where
  caller := programName ++ " check"
  usage := textOfLines checkUsage
  help := textOfLines checkHelp
  options := [helpOption,
    ⟨["--plain"], .set .plain⟩]
  positional := .one "program"

def runUsage : List String := [
  "usage: minijava run [-h] [--strict] [--show-values] program"]

def runHelp : List String := runUsage ++ [
  "",
  "positional arguments:",
  "  program        Sample name or JSON tree file",
  "",
  "options:",
  "  -h, --help     show this help message and exit",
  "  --strict       Do not evaluate when the type checker reports problems",
  "  --show-values  Print the final value of every declared variable"]

def runSpec : CommandSpec where
  caller := programName ++ " run"
  usage := textOfLines runUsage
  help := textOfLines runHelp
  options := [helpOption,
    ⟨["--strict"], .set .strict⟩,
    ⟨["--show-values"], .set .showValues⟩]
  positional := .one "program"

def fmtUsage : List String := [
  "usage: minijava fmt [-h] [--indent INDENT] program"]

def fmtHelp : List String := fmtUsage ++ [
  "",
  "positional arguments:",
  "  program          Sample name or JSON tree file",
  "",
  "options:",
  "  -h, --help       show this help message and exit",
  "  --indent INDENT  Spaces per indentation level (default: 2)"]

def fmtSpec : CommandSpec where
  caller := programName ++ " fmt"
  usage := textOfLines fmtUsage
  help := textOfLines fmtHelp
  options := [helpOption,
    ⟨["--indent"], .setInteger .indent⟩]
  positional := .one "program"

def dumpUsage : List String := [
  "usage: minijava dump [-h] [-o OUTPUT] program"]

def dumpHelp : List String := dumpUsage ++ [
  "",
  "positional arguments:",
  "  program               Sample name or JSON tree file",
  "",
  "options:",
  "  -h, --help            show this help message and exit",
  "  -o OUTPUT, --output OUTPUT",
  "                        Write the JSON to this file instead of stdout"]

def dumpSpec : CommandSpec where
  caller := programName ++ " dump"
  usage := textOfLines dumpUsage
  help := textOfLines dumpHelp
  options := [helpOption,
    ⟨["-o", "--output"], .setText .output⟩]
  positional := .one "program"

def samplesUsage : List String := [
  "usage: minijava samples [-h]"]

def samplesHelp : List String := samplesUsage ++ [
  "",
  "options:",
  "  -h, --help  show this help message and exit"]

def samplesSpec : CommandSpec where
  caller := programName ++ " samples"
  usage := textOfLines samplesUsage
  help := textOfLines samplesHelp
  options := [helpOption]
  positional := .none

inductive CommandName where
  | samples
  | check
  | run
  | fmt
  | dump
deriving DecidableEq

def commandNames : List (String × CommandName) := [
  ("samples", .samples), ("check", .check), ("tc", .check), ("run", .run), ("r", .run),
  ("fmt", .fmt), ("format", .fmt), ("dump", .dump)]

def CommandName.spec : CommandName → CommandSpec
  | .samples => samplesSpec
  | .check => checkSpec
  | .run => runSpec
  | .fmt => fmtSpec
  | .dump => dumpSpec

/-- A command with what its command line settles. -/
structure Invocation where
  command : Option CommandName
  program : String
  settings : List Setting

/-- Reads the command line, then that of the command. What neither of them knows is an error of the
command line itself. -/
def Invocation.read (texts : List String) : Except Stopped Invocation := do
  let reading ← mainSpec.read texts
  match reading.positional with
  | [] =>
    rejectLeftover reading.leftover
    return ⟨none, "", reading.settings⟩
  | name :: rest =>
    match commandNames.lookup name with
    | none =>
      let choices := ", ".intercalate (commandNames.map fun (name, _) => quoted name)
      .error (.usage mainSpec
        s!"argument command: invalid choice: {quoted name} (choose from {choices})")
    | some command =>
      let further ← command.spec.read rest
      rejectLeftover (reading.leftover ++ further.leftover)
      return ⟨some command, further.positional.headD "", reading.settings ++ further.settings⟩
where
  rejectLeftover (leftover : List String) : Except Stopped Unit :=
    if leftover.isEmpty then .ok ()
    else
      let names := " ".intercalate leftover
      .error (.usage mainSpec s!"unrecognized arguments: {names}")

def Invocation.verbosity (i : Invocation) : Nat :=
  i.settings.count .verbose

def Invocation.has (i : Invocation) (setting : Setting) : Bool :=
  setting ∈ i.settings

/-- The width of an indentation, by the last option that gives one; it may give none. -/
def Invocation.indent (i : Invocation) : Option Int :=
  (i.settings.reverse.findSome? fun setting =>
    match setting with
    | .indent width => some width
    | _ => none).getD (some 2)

/-- The path to write to, by the last option that gives one, if there is such an option; it may give
none. -/
def Invocation.output? (i : Invocation) : Option (Option Path) :=
  i.settings.reverse.findSome? fun setting =>
    match setting with
    | .output path => some (path.map Path.ofString)
    | _ => none

def Invocation.paths (i : Invocation) : List Path :=
  Path.ofString i.program :: i.output?.join.toList

end ProgramTrees
