import MarkovAlgorithm.CommandLine.Execution

/-!
# The program

The outer layer: it gathers what a command needs, has the command carried out,
and writes what it answers.  An animated run is played on the `terminal`, which
only prints and waits.
-/

namespace MarkovAlgorithm.CommandLine

/-- What is shown on a request for help. -/
def helpText : String :=
  String.join
    ["Run Markov algorithms\n\n",
      "Usage: markov run [OPTIONS] <FILE>\n",
      "       markov run [OPTIONS] --example <NAME>\n",
      "       markov check <FILE>\n",
      "       markov examples\n\n",
      "A FILE of - is standard input.\n\n",
      "Options of run:\n",
      "  -e, --example <NAME>   run a built-in sample program\n",
      "  -i, --input <TEXT>     input word\n",
      "      --max-steps <N>    stop after this many steps [default: 100000]\n",
      "      --unlimited        never stop on step count\n",
      "      --no-cycle-check   keep going when a state repeats\n",
      "      --animate          print states as they are produced\n",
      "      --speed <1..25>    animation speed [default: 5]\n",
      "  -q, --quiet            print only the final state\n",
      "  -h, --help             print help\n",
      "  -V, --version          print the version\n"]

/-- The wording of a usage error. -/
def UsageError.message : UsageError → String
  | .missingCommand => "a command is required"
  | .unknownCommand name => "unknown command " ++ String.ofList (Text.quoted name)
  | .unknownOption argument => "unknown option " ++ String.ofList (Text.quoted argument)
  | .missingValue switch => "--" ++ switch.longName ++ " needs a value"
  | .unexpectedValue switch => "--" ++ switch.longName ++ " takes no value"
  | .badValue switch value =>
      "bad value " ++ String.ofList (Text.quoted value) ++ " for --" ++ switch.longName
  | .repeatedOption switch => "--" ++ switch.longName ++ " is given twice"
  | .unexpectedOperand operand => "unexpected argument " ++ String.ofList (Text.quoted operand)
  | .emptyPath => "a path must not be empty"
  | .missingProgram => "a rule file or --example is required"
  | .conflict first second => first ++ " cannot be used with " ++ second

/-- The failure that an error of the system stands for. -/
def failureOf : IO.Error → ReadFailure
  | .noFileOrDirectory _ _ _ => .notFound
  | .inappropriateType _ 21 _ => .isFolder
  | .inappropriateType _ _ _ => .notFolder
  | .invalidArgument _ 36 _ => .nameTooLong
  | error => .other (toString error)

/-- Read a file of the system. -/
def loadFile (path : Word) : IO (Except ReadFailure ByteArray) := do
  try
    return .ok (← IO.FS.readBinFile (String.ofList path))
  catch error =>
    return .error (failureOf error)

/-- Read a stream to its end. -/
partial def loadStream (stream : IO.FS.Stream) (done : ByteArray) : IO ByteArray := do
  let block ← stream.read 65536
  if block.isEmpty then return done else loadStream stream (done ++ block)

/-- What a command finds around it when it asks for one path. -/
def surroundingsFor (path : Word) : IO Surroundings := do
  if isStandardInput path then
    let input ← loadStream (← IO.getStdin) ByteArray.empty
    return ⟨fun _ => .error .notFound, input⟩
  else
    let content ← loadFile path
    return ⟨fun _ => content, ByteArray.empty⟩

/-- The path that a command reads. -/
def Command.path? : Command → Option Word
  | .run command =>
      match command.origin with
      | .file path => some path
      | .sample _ => none
  | .check path => some path
  | .help | .version | .samples => none

/-- Write a result and give its exit code. -/
def present (result : Result) : IO UInt32 := do
  IO.print (String.ofList result.output)
  (← IO.getStdout).flush
  IO.eprint (String.ofList result.errors)
  return result.exitCode.toUInt32

/-- The terminal of the user. -/
def terminal (settings : Settings) : Screen IO where
  write text := do
    IO.print (String.ofList text)
    (← IO.getStdout).flush
  wait := IO.sleep (settings.stepInterval / 1000000).toUInt32

/-- What is said of a run that used up its fuel. -/
def endless : Result :=
  ⟨1, [], "error: the run did not end\n".toList⟩

/-- Show an animated run. -/
def presentAnimation (command : RunCommand) (machine : Machine) : IO UInt32 := do
  match ← animate (terminal command.settings) ampleFuel command.settings command.quiet machine with
  | some (.ok outcome) => present (runResult outcome [])
  | some (.error failure) => present failure.result
  | none => present endless

/-- Carry out a command of the user. -/
def serve (command : Command) : IO UInt32 := do
  let surroundings ← match command.path? with
    | some path => surroundingsFor path
    | none => pure ⟨fun _ => .error .notFound, ByteArray.empty⟩
  if let .run run := command then
    if run.animate then
      match run.machine surroundings with
      | .ok machine => return ← presentAnimation run machine
      | .error failure => return ← present failure.result
  match execute ampleFuel surroundings command with
  | some (.result result) => present result
  | some (.usage error) => present ⟨1, [], ("error: " ++ error.message ++ "\n").toList⟩
  | some .help => present ⟨0, helpText.toList, []⟩
  | none => present endless

/-- Read the arguments of the user and carry out the command. -/
def serveArguments (arguments : List String) : IO UInt32 := do
  match readCommand (arguments.map String.toList) with
  | .ok command => serve command
  | .error error => present ⟨1, [], ("error: " ++ error.message ++ "\n").toList⟩

end MarkovAlgorithm.CommandLine

/-- Run the command line. -/
def main (arguments : List String) : IO UInt32 :=
  MarkovAlgorithm.CommandLine.serveArguments arguments
