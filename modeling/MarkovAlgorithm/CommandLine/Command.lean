import MarkovAlgorithm.CommandLine.Token
import MarkovAlgorithm.Data
import MarkovAlgorithm.Word

/-!
# Commands

The tokens of a command line are taken in order.  Asking for help, or for the
version, ends this at once, so it wins over the faults behind it and loses
against those before it.  Requirements that concern several options are
checked when all tokens are taken.
-/

namespace MarkovAlgorithm.CommandLine

/-- The options of a run as they were given. -/
structure RunOptions where
  file : Option Word := none
  sample : Option Word := none
  input : Option Word := none
  stepLimit : Option Nat := none
  unlimited : Bool := false
  noCycleCheck : Bool := false
  animate : Bool := false
  speed : Option Nat := none
  quiet : Bool := false
  deriving DecidableEq

/-- Where a run takes its program from. -/
inductive Origin where
  | file (path : Word)
  | sample (name : Word)
  deriving DecidableEq

/-- A run of a program. -/
structure RunCommand where
  origin : Origin
  input : Option Word
  settings : Settings
  animate : Bool
  quiet : Bool
  deriving DecidableEq

/-- What a command line asks for. -/
inductive Command where
  | help
  | version
  | run (run : RunCommand)
  | check (path : Word)
  | samples
  deriving DecidableEq

/-- Why tokens are not taken any further. -/
inductive Stop where
  | help
  | usage (error : UsageError)
  deriving DecidableEq

/-- Read a number that may have a plus sign and leading zeros. -/
def number? (text : Word) : Option Nat :=
  let digits := match text with
    | '+' :: digits => digits
    | digits => digits
  if digits.isEmpty || digits.any (!·.isDigit) then
    none
  else
    some (digits.foldl (fun value digit => 10 * value + (digit.toNat - '0'.toNat)) 0)

/-- Read a number within bounds. -/
def numberWithin? (least most : Nat) (text : Word) : Option Nat :=
  match number? text with
  | some number => if least ≤ number && number ≤ most then some number else none
  | none => none

/-- A path must not be empty. -/
def readPath (text : Word) : Except Stop Word :=
  if text.isEmpty then .error (.usage .emptyPath) else .ok text

/-- Fill a place that must be free. -/
def fill {α : Type} (switch : Switch) (place : Option α) (value : α) :
    Except Stop (Option α) :=
  match place with
  | some _ => .error (.usage (.repeatedOption switch))
  | none => .ok (some value)

/-- Raise a flag that must be down. -/
def raise (switch : Switch) (flag : Bool) : Except Stop Bool :=
  if flag then .error (.usage (.repeatedOption switch)) else .ok true

/-- Read the number of an option. -/
def readNumber (switch : Switch) (least most : Nat) (text : Word) : Except Stop Nat :=
  match numberWithin? least most text with
  | some number => .ok number
  | none => .error (.usage (.badValue switch text))

namespace RunOptions

/-- Take one token. -/
def take (options : RunOptions) : Token → Except Stop RunOptions
  | .flag .help => .error .help
  | .flag .unlimited =>
      return { options with unlimited := ← raise .unlimited options.unlimited }
  | .flag .noCycleCheck =>
      return { options with noCycleCheck := ← raise .noCycleCheck options.noCycleCheck }
  | .flag .animate => return { options with animate := ← raise .animate options.animate }
  | .flag .quiet => return { options with quiet := ← raise .quiet options.quiet }
  | .setting .sample value =>
      return { options with sample := ← fill .sample options.sample value }
  | .setting .input value => return { options with input := ← fill .input options.input value }
  | .setting .stepLimit value => do
      let limit ← readNumber .stepLimit 0 (countBound - 1) value
      return { options with stepLimit := ← fill .stepLimit options.stepLimit limit }
  | .setting .speed value => do
      let speed ← readNumber .speed Settings.minSpeed Settings.maxSpeed value
      return { options with speed := ← fill .speed options.speed speed }
  | .operand text =>
      match options.file with
      | some _ => .error (.usage (.unexpectedOperand text))
      | none => return { options with file := some (← readPath text) }
  | .fault error => .error (.usage error)
  | .flag switch => .error (.usage (.missingValue switch))
  | .setting switch _ => .error (.usage (.unexpectedValue switch))

/-- Where the program comes from.  There must be exactly one source. -/
def origin (options : RunOptions) : Except Stop Origin :=
  match options.file, options.sample with
  | some path, none => .ok (.file path)
  | none, some name => .ok (.sample name)
  | some _, some _ => .error (.usage (.conflict "FILE" "--example"))
  | none, none => .error (.usage .missingProgram)

/-- The step limit, if there is one. -/
def limit (options : RunOptions) : Except Stop (Option Nat) :=
  match options.stepLimit, options.unlimited with
  | some _, true => .error (.usage (.conflict "--max-steps" "--unlimited"))
  | none, true => .ok none
  | some limit, false => .ok (some limit)
  | none, false => .ok ({} : Settings).stepLimit

/-- The run that the options describe. -/
def finish (options : RunOptions) : Except Stop RunCommand := do
  let origin ← options.origin
  let stepLimit ← options.limit
  let settings : Settings := { stepLimit, detectCycles := !options.noCycleCheck }
  return {
    origin
    input := options.input
    settings := settings.withSpeed (options.speed.getD settings.speed)
    animate := options.animate
    quiet := options.quiet }

end RunOptions

/-- The options of a run. -/
def runSwitches : List Switch :=
  [.help, .sample, .input, .stepLimit, .unlimited, .noCycleCheck, .animate, .speed, .quiet]

/-- Read the arguments of a run. -/
def readRun (arguments : List Word) : Except Stop RunCommand := do
  let options ← (scan runSwitches arguments).foldlM RunOptions.take {}
  options.finish

/-- Take one token where at most one path is expected. -/
def takePath (path : Option Word) : Token → Except Stop (Option Word)
  | .flag .help => .error .help
  | .operand text =>
      match path with
      | some _ => .error (.usage (.unexpectedOperand text))
      | none => return some (← readPath text)
  | .fault error => .error (.usage error)
  | .flag switch => .error (.usage (.unexpectedValue switch))
  | .setting switch _ => .error (.usage (.unexpectedValue switch))

/-- Read the arguments of a check. -/
def readCheck (arguments : List Word) : Except Stop Word := do
  match ← (scan [.help] arguments).foldlM takePath none with
  | some path => return path
  | none => .error (.usage .missingProgram)

/-- Take one token where nothing but a request for help is expected. -/
def takeNothing (_ : Unit) : Token → Except Stop Unit
  | .flag .help => .error .help
  | .operand text => .error (.usage (.unexpectedOperand text))
  | .fault error => .error (.usage error)
  | .flag switch => .error (.usage (.unexpectedValue switch))
  | .setting switch _ => .error (.usage (.unexpectedValue switch))

/-- Read the arguments of a listing. -/
def readSamples (arguments : List Word) : Except Stop Unit :=
  (scan [.help] arguments).foldlM takeNothing ()

/-- The names of the commands. -/
def commandNames : List String :=
  ["run", "check", "examples", "help"]

/-- Read the arguments of a request for help, which may name one command. -/
def readHelp : List Word → Except Stop Unit
  | [] => .ok ()
  | [name] =>
      if commandNames.any (·.toList = name) then
        .ok ()
      else
        .error (.usage (.unknownCommand name))
  | _ :: extra :: _ => .error (.usage (.unexpectedOperand extra))

/-- Read a command line that begins with an option. -/
def readLeadingOption (argument : Word) : Except Stop Command :=
  match readArgument [.help, .version] argument with
  | .tokens (.flag .help :: _) => .ok .help
  | .tokens (.flag .version :: _) => .ok .version
  | .tokens (.fault error :: _) => .error (.usage error)
  | _ => .error (.usage .missingCommand)

/-- A command, unless reading it was stopped by a request for help. -/
def orHelp : Except Stop Command → Except UsageError Command
  | .ok command => .ok command
  | .error .help => .ok .help
  | .error (.usage error) => .error error

/-- Read a command line. -/
def readCommand : List Word → Except UsageError Command
  | [] => .error .missingCommand
  | first :: rest =>
      orHelp <|
        if first = "run".toList then
          (readRun rest).map .run
        else if first = "check".toList then
          (readCheck rest).map .check
        else if first = "examples".toList then
          (readSamples rest).map fun _ => .samples
        else if first = "help".toList then
          (readHelp rest).map fun _ => .help
        else if isValue first then
          .error (.usage (.unknownCommand first))
        else
          readLeadingOption first

end MarkovAlgorithm.CommandLine
