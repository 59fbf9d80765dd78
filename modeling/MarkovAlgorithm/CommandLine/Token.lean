import MarkovAlgorithm.Word

/-!
# Tokens of a command line

The arguments of a command are cut into options and operands before they mean
anything.  An option is written long (`--quiet`) or short (`-q`); short ones
may share a dash (`-qi`).  An option with a value takes it after an equals
sign, directly behind its letter, or as the next argument.  The next argument
is no value if it begins with a dash, except for a single dash alone.  A double
dash ends the options.

Scanning stops at the first fault, so what stands behind a fault is not looked
at.
-/

namespace MarkovAlgorithm.CommandLine

/-- The options of all commands. -/
inductive Switch where
  | help
  | version
  | sample
  | input
  | stepLimit
  | unlimited
  | noCycleCheck
  | animate
  | speed
  | quiet
  deriving DecidableEq

/-- Whether an option has a value. -/
def Switch.takesValue : Switch → Bool
  | .sample | .input | .stepLimit | .speed => true
  | .help | .version | .unlimited | .noCycleCheck | .animate | .quiet => false

/-- The long name of an option. -/
def Switch.longName : Switch → String
  | .help => "help"
  | .version => "version"
  | .sample => "example"
  | .input => "input"
  | .stepLimit => "max-steps"
  | .unlimited => "unlimited"
  | .noCycleCheck => "no-cycle-check"
  | .animate => "animate"
  | .speed => "speed"
  | .quiet => "quiet"

/-- The letter of an option that has one. -/
def Switch.letter? : Switch → Option Char
  | .help => some 'h'
  | .version => some 'V'
  | .sample => some 'e'
  | .input => some 'i'
  | .quiet => some 'q'
  | .stepLimit | .unlimited | .noCycleCheck | .animate | .speed => none

/-- What is wrong with the arguments of a command line. -/
inductive UsageError where
  | missingCommand
  | unknownCommand (name : Word)
  | unknownOption (argument : Word)
  | missingValue (switch : Switch)
  | unexpectedValue (switch : Switch)
  | badValue (switch : Switch) (value : Word)
  | repeatedOption (switch : Switch)
  | unexpectedOperand (operand : Word)
  | emptyPath
  | missingProgram
  | conflict (first second : String)
  deriving DecidableEq

/-- A piece of a command line. -/
inductive Token where
  | flag (switch : Switch)
  | setting (switch : Switch) (value : Word)
  | operand (text : Word)
  | fault (error : UsageError)
  deriving DecidableEq

/-- What a single argument holds. -/
inductive Piece where
  /-- Complete tokens. -/
  | tokens (list : List Token)
  /-- Tokens and an option whose value is the next argument. -/
  | wantsValue (list : List Token) (switch : Switch)
  /-- The end of the options. -/
  | ending
  deriving DecidableEq

/-- An option without a value, which may want one. -/
def Switch.piece (switch : Switch) : Piece :=
  if switch.takesValue then .wantsValue [] switch else .tokens [.flag switch]

/-- Read a long option, given without its dashes. -/
def readLong (known : List Switch) (text : Word) : Piece :=
  let name := text.takeWhile (· ≠ '=')
  match known.find? (·.longName.toList = name) with
  | none => .tokens [.fault (.unknownOption text)]
  | some switch =>
      match text.dropWhile (· ≠ '=') with
      | [] => switch.piece
      | _ :: value =>
          if switch.takesValue then
            .tokens [.setting switch value]
          else
            .tokens [.fault (.unexpectedValue switch)]

/-- Read short options that share a dash. -/
def readShort (known : List Switch) : Word → Piece
  | [] => .tokens []
  | letter :: rest =>
      match known.find? (·.letter? = some letter) with
      | none => .tokens [.fault (.unknownOption [letter])]
      | some switch =>
          if switch.takesValue then
            match rest with
            | [] => .wantsValue [] switch
            | next :: value =>
                .tokens [.setting switch (if next = '=' then value else next :: value)]
          else
            match readShort known rest with
            | .tokens list => .tokens (.flag switch :: list)
            | .wantsValue list wanting => .wantsValue (.flag switch :: list) wanting
            | .ending => .ending

/-- Read one argument. -/
def readArgument (known : List Switch) : Word → Piece
  | ['-', '-'] => .ending
  | '-' :: '-' :: text => readLong known text
  | '-' :: letter :: rest => readShort known (letter :: rest)
  | text => .tokens [.operand text]

/-- Whether an argument can be the value of the option before it. -/
def isValue : Word → Bool
  | '-' :: _ :: _ => false
  | _ => true

/-- Cut the arguments of a command into tokens. -/
def scan (known : List Switch) : List Word → List Token
  | [] => []
  | argument :: rest =>
      match readArgument known argument with
      | .ending => rest.map .operand
      | .tokens list => list ++ scan known rest
      | .wantsValue list switch =>
          match rest with
          | [] => list ++ [.fault (.missingValue switch)]
          | value :: rest =>
              if isValue value then
                list ++ .setting switch value :: scan known rest
              else
                list ++ [.fault (.missingValue switch)]

end MarkovAlgorithm.CommandLine
