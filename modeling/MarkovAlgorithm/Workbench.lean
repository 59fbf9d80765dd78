import MarkovAlgorithm.Workbench.Object

/-!
# The workbench

A workbench keeps the objects that its answers have shown, numbered from zero
in the order in which they were shown.  An object that is shown again gets a
further number.  A request that fails shows nothing.

What can be called is making an object of some kind, reading a rule, running a
program to its end, and the methods and attributes of the objects.
-/

namespace MarkovAlgorithm

namespace Workbench

/-! ## Calls -/

open Data

/-- A failure to read rules is a failure of the call. -/
def readable {α : Type} : Except LineError α → Except CallError α
  | .ok value => .ok value
  | .error error => .error (.badProgram error)

/-- Make an object. -/
def make (arguments : Arguments) : Kind → Except CallError Object
  | .rule => do
      match ← arguments.bind [needed "left", needed "right", optional "is_terminating"] with
      | [some left, some right, terminal] =>
          let pattern ← readWord left
          let replacement ← readWord right
          let terminal ← readOr false readTruth terminal
          return .rule ⟨pattern, replacement, terminal⟩
      | _ => .error .badArgument
  | .machine => do
      arguments.bindNone
      return .machine Machine.empty
  | .session => do
      match ← arguments.bind [optional "detect_cycles"] with
      | [enabled] => return .session (Session.new.detecting (← readOr true readTruth enabled))
      | _ => .error .badArgument

/-- Read a rule from a line. -/
def parseRule (arguments : Arguments) : Except CallError Answer := do
  let line ← arguments.bindOne "line" readWord
  let rule ← readable (Rule.ofLine line)
  return .ofOption (fun rule => .object (.rule rule)) rule

/-- Load a program and run it, reporting the outcome, the last word and all
visited words. -/
def runProgram (fuel : Nat) (program start : Word) (stepLimit : Option Nat)
    (detectCycles : Bool) : Except CallError (String × Word × List Word) := do
  let machine ← readable (Machine.load program start)
  match run fuel { stepLimit, detectCycles } machine with
  | some report => return (report.outcome.name, report.machine.word, report.history.toList)
  | none => .error .endless

/-- Run a program to its end. -/
def callRun (fuel : Nat) (arguments : Arguments) : Except CallError Answer := do
  match ← arguments.bind
      [needed "rules", needed "input", optional "max_steps", optional "detect_cycles"] with
  | [some rules, some input, limit, detect] =>
      let program ← readWord rules
      let start ← readWord input
      let stepLimit ← readOr ({} : Settings).stepLimit readLimit limit
      let detectCycles ← readOr ({} : Settings).detectCycles readTruth detect
      let (outcome, last, visited) ← runProgram fuel program start stepLimit detectCycles
      return .several [.name outcome, .word last, .words visited]
  | _ => .error .badArgument

/-- The methods of a rule. -/
def callRule (rule : Rule) (arguments : Arguments) : String → Except CallError Answer
  | "apply" => do
      let (applied, after) := rule.apply (← arguments.bindOne "state" readWord)
      return .several [.truth applied, .word after]
  | _ => .error .unknownName

/-- The methods of a machine. -/
def callMachine (machine : Machine) (arguments : Arguments) :
    String → Except CallError Answer
  | "parse_rules" => do
      let lines ← arguments.bindOne "lines" readWords
      return .object (.machine (← readable (machine.withLines lines)))
  | "parse_source" => do
      let program ← arguments.bindOne "source" readWord
      return .object (.machine (← readable (machine.withProgram program)))
  | "set_initial_state" => do
      return .object (.machine (machine.restart (← arguments.bindOne "initial_state" readWord)))
  | "reset" => do
      arguments.bindNone
      return .object (.machine machine.reset)
  | "step" => do
      arguments.bindNone
      let (moved, next) := machine.step
      return .several [.truth moved, .object (.machine next)]
  | "matching_rule" => do
      arguments.bindNone
      return .ofOption .number machine.matchingRule?
  | _ => .error .unknownName

/-- The control of a session that a method stands for. -/
def sessionControl (arguments : Arguments) : String → Except CallError Control
  | "set_rules" => return .setRules (← arguments.bindOne "source" readWord)
  | "set_initial_state" => return .restart (← arguments.bindOne "initial_state" readWord)
  | "reset" => do
      arguments.bindNone
      return .reset
  | "play" => do
      arguments.bindNone
      return .play
  | "pause" => do
      arguments.bindNone
      return .pause
  | "step" => do
      arguments.bindNone
      return .step
  | "tick" => do
      arguments.bindNone
      return .tick
  | _ => .error .unknownName

/-- What a session's method gives back. -/
def answerOfResponse : Response → Except CallError Answer
  | .done | .paused => .ok .nothing
  | .rejected error => .error (.badProgram error)
  | .playing on => .ok (.truth on)
  | .event event => .ok (.name event.name)

/-- The methods of a session.  A session may have changed although the call
failed. -/
def callSession (session : Session) (arguments : Arguments) (method : String) :
    Except CallError Answer × Session :=
  match sessionControl arguments method with
  | .ok control =>
      let (response, next) := session.perform control
      (answerOfResponse response, next)
  | .error error => (.error error, session)

/-- The attributes of an object. -/
def readAttribute : Object → String → Except CallError Answer
  | .rule rule, "left" => .ok (.word rule.pattern)
  | .rule rule, "right" => .ok (.word rule.replacement)
  | .rule rule, "is_terminating" => .ok (.truth rule.terminal)
  | .machine machine, "rules" =>
      .ok (.several (machine.rules.map fun rule => .object (.rule rule)))
  | .machine machine, "state" => .ok (.word machine.word)
  | .machine machine, "initial_state" => .ok (.word machine.start)
  | .machine machine, "terminated" => .ok (.truth machine.halted)
  | .session session, "markov" => .ok (.object (.machine session.machine))
  | .session session, "log" => .ok (.words session.history.toList)
  | .session session, "error" => .ok (.ofOption (fun notice => .word notice.message) session.notice)
  | .session session, "running" => .ok (.truth session.running)
  | _, _ => .error .unknownName

end Workbench

/-! ## Requests -/

/-- The objects shown so far. -/
structure Workbench where
  objects : Array Workbench.Object

namespace Workbench

/-- A workbench without objects. -/
def empty : Workbench := ⟨#[]⟩

/-- A request to a workbench.  Objects are named by their numbers. -/
inductive Request where
  | make (kind : Kind) (arguments : Arguments)
  | parse (arguments : Arguments)
  | run (arguments : Arguments)
  | call (object : Nat) (method : String) (arguments : Arguments)
  | get (object : Nat) (name : String)
  | text (object : Nat)
  | equal (first second : Nat)

/-- The object of a given number. -/
def find (bench : Workbench) (number : Nat) : Except CallError Object :=
  match bench.objects[number]? with
  | some object => .ok object
  | none => .error .unknownName

/-- Keep the objects of an answer. -/
def keep (bench : Workbench) (answer : Answer) : Workbench :=
  ⟨bench.objects ++ answer.objects.toArray⟩

/-- Rules and machines are equal as values; a session equals only itself. -/
def equal (bench : Workbench) (first second : Nat) : Except CallError Bool := do
  match ← bench.find first, ← bench.find second with
  | .rule left, .rule right => return left = right
  | .machine left, .machine right => return left = right
  | .session _, .session _ => return first = second
  | _, _ => return false

/-- The answer to a request, and the workbench with its sessions changed but
without the objects of the answer. -/
def respond (fuel : Nat) (bench : Workbench) : Request → Except CallError Answer × Workbench
  | .make kind arguments => ((make arguments kind).map .object, bench)
  | .parse arguments => (parseRule arguments, bench)
  | .run arguments => (callRun fuel arguments, bench)
  | .call number method arguments =>
      match bench.find number with
      | .ok (.rule rule) => (callRule rule arguments method, bench)
      | .ok (.machine machine) => (callMachine machine arguments method, bench)
      | .ok (.session session) =>
          let (answer, next) := callSession session arguments method
          (answer, ⟨bench.objects.setIfInBounds number (.session next)⟩)
      | .error error => (.error error, bench)
  | .get number name => (bench.find number >>= fun object => readAttribute object name, bench)
  | .text number =>
      match bench.find number with
      | .ok object =>
          match object.text? with
          | some text => (.ok (.word text), bench)
          | none => (.error .unknownName, bench)
      | .error error => (.error error, bench)
  | .equal first second =>
      ((bench.equal first second).map fun same =>
        .several [.truth same, .truth (!same), .truth same], bench)

/-- Answer a request and keep the objects of the answer. -/
def perform (fuel : Nat) (bench : Workbench) (request : Request) :
    Except CallError Answer × Workbench :=
  match respond fuel bench request with
  | (.ok answer, next) => (.ok answer, next.keep answer)
  | (.error error, next) => (.error error, next)

end Workbench

end MarkovAlgorithm
