import MarkovAlgorithm.CommandLine.Command
import MarkovAlgorithm.CommandLine.FileTree
import MarkovAlgorithm.Sample
import MarkovAlgorithm.Text.Quoted

/-!
# Carrying out commands

A command writes text for its user and text about its course, and ends with an
exit code.  A run that ends by itself has the exit code zero; a repetition and
a used-up step limit have their own, and failures have another.
-/

namespace MarkovAlgorithm.CommandLine

/-- What a command finds around it. -/
structure Surroundings where
  fileContent : Word → Except ReadFailure ByteArray
  standardInput : ByteArray

/-- What a command leaves behind. -/
structure Result where
  exitCode : Nat
  output : Word
  errors : Word
  deriving DecidableEq

/-- Why a command fails. -/
inductive Failure where
  | unreadableFile (path : Word) (failure : ReadFailure)
  | unreadableInput (failure : ReadFailure)
  | badProgram (error : LineError)
  | badProgramFile (path : Word) (error : LineError)
  | unknownSample (name : Word)
  | pausedUnexpectedly
  deriving DecidableEq

/-- The wording of a failure. -/
def Failure.message : Failure → Word
  | .unreadableFile path failure =>
      "read ".toList ++ path ++ ": ".toList ++ failure.message.toList
  | .unreadableInput failure => "read program from stdin: ".toList ++ failure.message.toList
  | .badProgram error => "invalid program: ".toList ++ error.message
  | .badProgramFile path error =>
      "invalid program ".toList ++ path ++ ": ".toList ++ error.message
  | .unknownSample name =>
      "unknown example ".toList ++ Text.quoted name ++ " (see `markov examples`)".toList
  | .pausedUnexpectedly => "session paused unexpectedly".toList

/-- The result of a failed command. -/
def Failure.result (failure : Failure) : Result :=
  ⟨1, [], "error: ".toList ++ failure.message ++ ['\n']⟩

/-- The text that bytes spell. -/
def decodeText (bytes : ByteArray) : Except ReadFailure Word :=
  match String.fromUTF8? bytes with
  | some text => .ok text.toList
  | none => .error .notText

/-- Read a program. -/
def readProgram (surroundings : Surroundings) (path : Word) : Except Failure Word :=
  if isStandardInput path then
    (decodeText surroundings.standardInput).mapError .unreadableInput
  else
    (surroundings.fileContent path >>= decodeText).mapError (.unreadableFile path)

/-- The program of a run, and the input it is started on if none is given. -/
def Origin.program (surroundings : Surroundings) : Origin → Except Failure (Word × Word)
  | .sample name =>
      match Sample.find? (String.ofList name) with
      | some found => .ok (found.source, found.input)
      | none => .error (.unknownSample name)
  | .file path => (readProgram surroundings path).map fun program => (program, [])

/-- The machine of a run. -/
def RunCommand.machine (surroundings : Surroundings) (command : RunCommand) :
    Except Failure Machine := do
  let (program, sampleInput) ← command.origin.program surroundings
  (Machine.load program (command.input.getD sampleInput)).mapError .badProgram

/-- A run to the end: its outcome, and the visits or only the last word. -/
def runPlainly (fuel : Nat) (settings : Settings) (quiet : Bool) (machine : Machine) :
    Option (Outcome × Word) :=
  (run fuel settings machine).map fun report =>
    (report.outcome, if quiet then report.machine.word ++ ['\n'] else report.history.render)

/-!
## Animated runs

An animated run shows each word when it is reached.  It does not use a run to
the end: it plays a session tick by tick, counts the moves itself, and writes
one frame after the other.

Where the frames appear and how the pauses between them are made is left to a
`Screen`.  The same animation is written down on `paper` and shown to a user.
-/

/-- Where an animation is shown: how to write a text there, and how to wait between two
moves. -/
structure Screen (m : Type → Type) where
  write : Word → m Unit
  wait : m Unit

/-- What comes after a frame. -/
inductive Progress where
  | continues (session : Session)
  | stops (outcome : Outcome) (session : Session)
  /-- The session was found paused. -/
  | paused

/-- The line that shows the latest visit of a session. -/
def frameLine (session : Session) : Word :=
  Text.decimal (session.history.size - 1) ++ ": ".toList ++ session.machine.word ++ ['\n']

/-- The next frame of an animation, with `moves` moves made before: the line to
show, if the machine has moved, and what comes after it. -/
def nextFrame (settings : Settings) (moves : Nat) (session : Session) :
    Option Word × Progress :=
  if settings.exhaustedBy moves then
    (none, .stops (.stepLimit moves) session)
  else
    match session.tick with
    | (none, _) => (none, .paused)
    | (some .moved, next) => (some (frameLine next), .continues next)
    | (some .terminated, next) => (some (frameLine next), .stops .terminated next)
    | (some .halted, next) => (none, .stops .halted next)
    | (some .idle, next) => (none, .stops .alreadyTerminated next)
    | (some (.cycle cycle), next) => (some (frameLine next), .stops (.cycle cycle) next)

/-- How an animation ended. -/
inductive Finale where
  | ended (outcome : Outcome) (session : Session)
  | pausedUnexpectedly

/-- Show the frames of an animation behind those already shown. -/
@[specialize]
def playFrames {m : Type → Type} [Monad m] (screen : Screen m) (settings : Settings)
    (quiet : Bool) : (fuel moves : Nat) → Session → m (Option Finale)
  | 0, _, _ => pure none
  | fuel + 1, moves, session =>
      match nextFrame settings moves session with
      | (line, progress) => do
          unless quiet do
            line.forM screen.write
          match progress with
          | .continues next =>
              screen.wait
              playFrames screen settings quiet fuel (moves + 1) next
          | .stops outcome last => return some (.ended outcome last)
          | .paused => return some .pausedUnexpectedly

/-- The session that an animation plays, and whether it can be played. -/
def startAnimation (settings : Settings) (machine : Machine) : Bool × Session :=
  ((Session.ofMachine machine).detecting settings.detectCycles).play

/-- How many frames an animation may ask for.  With a step limit one more than
the limit is needed, to find it used up; otherwise the fuel decides. -/
def frameBudget (fuel : Nat) (settings : Settings) : Nat :=
  match settings.stepLimit with
  | some limit => limit + 1
  | none => fuel

/-- Close an animation, with its last word if no frames were shown. -/
@[specialize]
def closeAnimation {m : Type → Type} [Monad m] (screen : Screen m) (quiet : Bool) :
    Finale → m (Except Failure Outcome)
  | .ended outcome last => do
      if quiet then
        screen.write (last.machine.word ++ ['\n'])
      return .ok outcome
  | .pausedUnexpectedly => return .error .pausedUnexpectedly

/-- Show an animation from its first frame to its end, or only its last word. -/
@[specialize]
def animate {m : Type → Type} [Monad m] (screen : Screen m) (fuel : Nat) (settings : Settings)
    (quiet : Bool) (machine : Machine) : m (Option (Except Failure Outcome)) := do
  let (playable, session) := startAnimation settings machine
  unless quiet do
    screen.write (frameLine session)
  if playable then
    let finale ← playFrames screen settings quiet (frameBudget fuel settings) 0 session
    finale.mapM (closeAnimation screen quiet)
  else
    some <$> closeAnimation screen quiet (.ended .alreadyTerminated session)

/-- A screen that keeps what is written and does not wait. -/
def paper : Screen (StateM (Array Word)) where
  write text := modify fun texts => texts.push text
  wait := pure ()

/-- An animated run: its outcome, and the frames or only the last word. -/
def runAnimated (fuel : Nat) (settings : Settings) (quiet : Bool) (machine : Machine) :
    Option (Except Failure (Outcome × Word)) :=
  let (ending, texts) := (animate paper fuel settings quiet machine).run #[]
  ending.map fun ending => ending.map fun outcome => (outcome, texts.toList.flatten)

/-! ## Commands -/

/-- The exit code for an outcome. -/
def exitCode : Outcome → Nat
  | .terminated | .halted | .alreadyTerminated => 0
  | .cycle _ => 2
  | .stepLimit _ => 3

/-- The result of a run. -/
def runResult (outcome : Outcome) (output : Word) : Result :=
  ⟨exitCode outcome, output, outcome.message ++ ['\n']⟩

/-- Carry out a run.  Without a step limit it may use up its fuel. -/
def executeRun (fuel : Nat) (surroundings : Surroundings) (command : RunCommand) :
    Option Result :=
  match command.machine surroundings with
  | .error failure => some failure.result
  | .ok machine =>
      if command.animate then
        (runAnimated fuel command.settings command.quiet machine).map fun
          | .ok (outcome, output) => runResult outcome output
          | .error failure => failure.result
      else
        (runPlainly fuel command.settings command.quiet machine).map fun (outcome, output) =>
          runResult outcome output

/-- The line that lists a rule. -/
def ruleLine (rule : Rule) (index : Nat) : Word :=
  Text.alignRight 4 (Text.decimal index) ++ [' '] ++
    (if rule.terminal then "halt" else "    ").toList ++ [' '] ++ rule.text ++ ['\n']

/-- The listing of rules: one line for each, and their number. -/
def listing (rules : List Rule) : Word :=
  (rules.zipIdx.map fun (rule, index) => ruleLine rule index).flatten ++
    Text.decimal rules.length ++ " rules\n".toList

/-- The listing of the rules of a program that was read from a path. -/
def checkProgram (path program : Word) : Except Failure Word :=
  match Machine.empty.withProgram program with
  | .ok machine => .ok (listing machine.rules)
  | .error error => .error (.badProgramFile path error)

/-- Carry out a check. -/
def executeCheck (surroundings : Surroundings) (path : Word) : Result :=
  match readProgram surroundings path >>= checkProgram path with
  | .ok output => ⟨0, output, []⟩
  | .error failure => failure.result

/-- The listing of the samples. -/
def sampleListing : Word :=
  (Sample.all.map fun sample =>
    Text.alignLeft 16 sample.name.toList ++ [' '] ++ sample.description.toList ++ ['\n']).flatten

/-- The answer to a command line. -/
inductive Reply where
  | help
  | usage (error : UsageError)
  | result (result : Result)
  deriving DecidableEq

/-- Carry out a command. -/
def execute (fuel : Nat) (surroundings : Surroundings) : Command → Option Reply
  | .help => some .help
  | .version => some (.result ⟨0, "markov 0.1.0\n".toList, []⟩)
  | .samples => some (.result ⟨0, sampleListing, []⟩)
  | .check path => some (.result (executeCheck surroundings path))
  | .run command => (executeRun fuel surroundings command).map .result

/-- Read a command line and carry it out. -/
def respond (fuel : Nat) (surroundings : Surroundings) (arguments : List Word) : Option Reply :=
  match readCommand arguments with
  | .ok command => execute fuel surroundings command
  | .error error => some (.usage error)

end MarkovAlgorithm.CommandLine
