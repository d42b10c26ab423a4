import ProgramTrees.IntegerText
import ProgramTrees.Quoted

namespace ProgramTrees

/-- What an option settles. One that takes an argument may be left without a value. -/
inductive Setting where
  | verbose
  | noColor
  | plain
  | strict
  | showValues
  | indent (width : Option Int)
  | output (path : Option String)
deriving DecidableEq

/-- What an option does. Some take an argument. -/
inductive OptionEffect where
  | help
  | version
  | set (setting : Setting)
  | setInteger (setting : Option Int → Setting)
  | setText (setting : Option String → Setting)

/-- An option with its names, the short one first. -/
structure OptionSpec where
  names : List String
  effect : OptionEffect

def OptionSpec.takesArgument (option : OptionSpec) : Bool :=
  match option.effect with
  | .setInteger _ | .setText _ => true
  | _ => false

def OptionSpec.title (option : OptionSpec) : String :=
  "/".intercalate option.names

/-- The positional arguments of a command line. -/
inductive Positional where
  | none
  /-- One argument, which must be there. -/
  | one (name : String)
  /-- A first argument and everything after it. -/
  | rest

/-- A command line that can be read: what calls it, its texts, its options and its positional
arguments. -/
structure CommandSpec where
  caller : String
  usage : String
  help : String
  options : List OptionSpec
  positional : Positional

inductive Stopped where
  | help (spec : CommandSpec)
  | version
  | usage (spec : CommandSpec) (message : String)

/-- An option that an argument names, and the text that the argument attaches to it. -/
structure OptionUse where
  option : OptionSpec
  name : String
  attached : Option (List Char) := none

inductive Token where
  | plain (text : String)
  | separator
  | option (use : OptionUse)
  | unknown (text : String)

def Token.text : Token → String
  | .plain text | .unknown text => text
  | .separator => "--"
  | .option use => use.name

def Token.isOption : Token → Bool
  | .option _ | .unknown _ => true
  | _ => false

structure Argument where
  text : String
  token : Token

namespace CommandSpec

variable (spec : CommandSpec)

def namedOptions : List (String × OptionSpec) :=
  spec.options.flatMap fun option => option.names.map fun name => (name, option)

def find? (name : String) : Option OptionSpec :=
  spec.namedOptions.lookup name

def splitAtEquals (text : String) : String × Option (List Char) :=
  let before := text.toList.takeWhile (· != '=')
  let after := (text.toList.dropWhile (· != '=')).tail?
  (String.ofList before, after)

/-- The options that a shortened long name or a short name with text after it may mean. -/
def candidates (text : String) : List OptionUse :=
  if text.startsWith "--" then
    let (stem, attached) := splitAtEquals text
    spec.namedOptions.filterMap fun (name, option) =>
      if name.startsWith stem then some ⟨option, name, attached⟩ else none
  else
    let short := String.ofList (text.toList.take 2)
    spec.namedOptions.filterMap fun (name, option) =>
      if name = short then some ⟨option, name, some (text.toList.drop 2)⟩
      else if name.startsWith text then some ⟨option, name, none⟩
      else none

/-- A minus before digits, or before a point with digits after it. -/
def isNegativeNumber (text : String) : Bool :=
  let isDigit (c : Char) : Bool := (decimalDigit? c).isSome
  let digits (cs : List Char) : Bool := !cs.isEmpty && cs.all isDigit
  let body := match text.toList.reverse with
    | '\n' :: rest => rest.reverse
    | _ => text.toList
  match body with
  | '-' :: rest =>
    digits rest ||
      (rest.dropWhile isDigit).head? == some '.' && digits ((rest.dropWhile isDigit).drop 1)
  | _ => false

/-- What an argument before the separator is. -/
def token (text : String) : Except Stopped Token :=
  if !text.startsWith "-" then .ok (.plain text)
  else
    match spec.find? text with
    | some option => .ok (.option ⟨option, text, none⟩)
    | none =>
      if text.length = 1 then .ok (.plain text)
      else
        let (stem, attached) := splitAtEquals text
        match attached.bind fun _ => spec.find? stem with
        | some option => .ok (.option ⟨option, stem, attached⟩)
        | none =>
          match spec.candidates text with
          | [use] => .ok (.option use)
          | [] =>
            if isNegativeNumber text || text.contains ' ' then .ok (.plain text)
            else .ok (.unknown text)
          | uses =>
            let names := ", ".intercalate (uses.map (·.name))
            .error (.usage spec s!"ambiguous option: {text} could match {names}")

/-- The arguments with their tokens; after the separator all are plain. -/
def arguments : List String → Except Stopped (List Argument)
  | [] => .ok []
  | text :: texts => do
    if text = "--" then
      return ⟨text, .separator⟩ :: texts.map fun text => ⟨text, .plain text⟩
    else
      let token ← spec.token text
      return ⟨text, token⟩ :: (← arguments texts)

def optionError {α : Type} (option : OptionSpec) (message : String) : Except Stopped α :=
  .error (.usage spec s!"argument {option.title}: {message}")

/-- The options that one argument uses, one after the other, with their arguments. -/
structure Uses where
  uses : List (OptionSpec × String) := []
  /-- The argument of the last one is the next on the command line. -/
  takesNext : Bool := false

/-- An option with no text attached: its argument is the next one on the command line. -/
def unfoldBare (option : OptionSpec) (next : Option Argument) : Except Stopped Uses :=
  if option.takesArgument then
    match next with
    | some ⟨text, .plain _⟩ => .ok ⟨[(option, text)], true⟩
    | _ => spec.optionError option "expected one argument"
  else .ok ⟨[(option, "")], false⟩

/-- An option with text attached: its argument, or the letters of further short options, each of
which must be one. -/
def unfoldAttached (next : Option Argument) (option : OptionSpec) (name : String)
    (text : List Char) : Except Stopped Uses :=
  if option.takesArgument then .ok ⟨[(option, String.ofList text)], false⟩
  else
    let ignored : Except Stopped Uses :=
      spec.optionError option s!"ignored explicit argument {quoted (String.ofList text)}"
    match text with
    | [] => ignored
    | letter :: rest =>
      let further := String.ofList ['-', letter]
      match if name.startsWith "--" then none else spec.find? further with
      | none => ignored
      | some furtherOption => do
        let unfolded ← match rest with
          | [] => spec.unfoldBare furtherOption next
          | letter :: rest => unfoldAttached next furtherOption further (letter :: rest)
        return { unfolded with uses := (option, "") :: unfolded.uses }

def unfold (use : OptionUse) (next : Option Argument) : Except Stopped Uses :=
  match use.attached with
  | none => spec.unfoldBare use.option next
  | some text => spec.unfoldAttached next use.option use.name text

/-- What an option with its argument settles. A separator is never a value, so attached to an
option it leaves the option without one. -/
def apply (option : OptionSpec) (argument : String) : Except Stopped Setting :=
  let value := if argument = "--" then none else some argument
  match option.effect, value with
  | .help, _ => .error (.help spec)
  | .version, _ => .error .version
  | .set setting, _ => .ok setting
  | .setText setting, value => .ok (setting value)
  | .setInteger setting, none => .ok (setting none)
  | .setInteger setting, some text =>
    match readInteger? text with
    | some n => .ok (setting n)
    | none => spec.optionError option s!"invalid int value: {quoted text}"

structure Reading where
  settings : List Setting := []
  positional : List String := []
  leftover : List String := []

/-- The positional arguments at the beginning, if they are there, and what follows them. -/
def takePositional (args : List Argument) : Option (List String × List Argument) :=
  match spec.positional, args with
  | .none, _ => none
  | .one _, ⟨_, .separator⟩ :: ⟨text, .plain _⟩ :: rest => some ([text], rest)
  | .one _, ⟨text, .plain _⟩ :: ⟨_, .separator⟩ :: rest => some ([text], rest)
  | .one _, ⟨text, .plain _⟩ :: rest => some ([text], rest)
  | .rest, ⟨_, .separator⟩ :: ⟨_, .plain _⟩ :: _ | .rest, ⟨_, .plain _⟩ :: _ =>
    some (args.map (·.text), [])
  | _, _ => none

/-- Reads arguments from left to right: options, the positional arguments where they first fit,
and what fits nowhere. The budget is the number of arguments, of which each step takes one or
more. -/
def readArguments (reading : Reading) (args : List Argument) : Nat → Except Stopped Reading
  | 0 => .ok reading
  | budget + 1 =>
    match args with
    | [] => .ok reading
    | ⟨text, .unknown _⟩ :: rest =>
      readArguments { reading with leftover := reading.leftover ++ [text] } rest budget
    | ⟨_, .option use⟩ :: rest => do
      let unfolded ← spec.unfold use rest.head?
      let settings ← unfolded.uses.mapM fun (option, argument) => spec.apply option argument
      let reading := { reading with settings := reading.settings ++ settings }
      readArguments reading (if unfolded.takesNext then rest.tail else rest) budget
    | args =>
      let taken := if reading.positional.isEmpty then spec.takePositional args else none
      match taken with
      | some (positional, rest) => readArguments { reading with positional } rest budget
      | none =>
        let skipped := args.takeWhile (!·.token.isOption)
        let reading := { reading with leftover := reading.leftover ++ skipped.map (·.text) }
        readArguments reading (args.drop skipped.length) budget

def read (texts : List String) : Except Stopped Reading := do
  let args ← spec.arguments texts
  let reading ← spec.readArguments {} args args.length
  match spec.positional with
  | .one name =>
    if reading.positional.isEmpty then
      .error (.usage spec s!"the following arguments are required: {name}")
    else return reading
  | _ => return reading

end CommandSpec

end ProgramTrees
