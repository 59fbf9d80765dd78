import MarkovAlgorithm.Session

/-!
# Running a machine

A run steps a session until it stops.  The step limit is looked at before each
step, so a machine that has made as many moves as the limit allows is stopped
even where its next step would find that no rule applies.

A run without a step limit need not end.  It is therefore given fuel, and has
no report when the fuel is used up; a report does not depend on how much fuel
was left.  A run with a step limit always has a report and ignores the fuel.

Besides the step limit, settings hold a speed.  It matters only where moves are
shown one by one: it sets the pause between two of them.  Settings may hold any
speed; `withSpeed` and `stepInterval` bring it into the supported range.
-/

namespace MarkovAlgorithm

/-! ## Settings -/

/-- How a run is carried out.  Without a step limit it may go on forever. -/
structure Settings where
  stepLimit : Option Nat := some 100000
  detectCycles : Bool := true
  speed : Nat := 5
  deriving DecidableEq

namespace Settings

/-- The slowest speed. -/
def minSpeed : Nat := 1

/-- The fastest speed. -/
def maxSpeed : Nat := 25

/-- The nearest supported speed. -/
def clampSpeed (speed : Nat) : Nat :=
  max minSpeed (min maxSpeed speed)

/-- Set the speed, as far as it is supported. -/
def withSpeed (settings : Settings) (speed : Nat) : Settings :=
  { settings with speed := clampSpeed speed }

/-- The pause between two moves in nanoseconds: half a second at the slowest
speed. -/
def stepInterval (settings : Settings) : Nat :=
  500000000 / clampSpeed settings.speed

/-- Whether a number of moves uses up the step limit. -/
def exhaustedBy (settings : Settings) (moves : Nat) : Bool :=
  match settings.stepLimit with
  | some limit => limit ≤ moves
  | none => false

end Settings

/-! ## Outcomes -/

/-- Why a run stopped. -/
inductive Outcome where
  /-- A terminal rule fired. -/
  | terminated
  /-- No rule applied. -/
  | halted
  /-- The machine had halted before the run. -/
  | alreadyTerminated
  /-- A word was visited again. -/
  | cycle (cycle : Cycle)
  /-- The step limit was used up. -/
  | stepLimit (steps : Nat)
  deriving DecidableEq

namespace Outcome

/-- The algorithm came to an end by itself. -/
def isFinished : Outcome → Bool
  | .terminated | .halted | .alreadyTerminated => true
  | .cycle _ | .stepLimit _ => false

/-- The wording of an outcome. -/
def message : Outcome → Word
  | .terminated => "terminated by rule".toList
  | .halted => "halted, no rule applies".toList
  | .alreadyTerminated => "already terminated".toList
  | .cycle repeated => repeated.message
  | .stepLimit steps => "stopped after ".toList ++ Text.decimal steps ++ " steps".toList

end Outcome

/-! ## Reports -/

/-- What a run has found. -/
structure Report where
  outcome : Outcome
  machine : Machine
  history : History
  steps : Nat

namespace Session

/-- The report on a session where it stands. -/
def report (session : Session) (outcome : Outcome) (steps : Nat) : Report :=
  ⟨outcome, session.machine, session.history, steps⟩

/-- Step until the session stops, with `moves` moves made before. -/
def drive (settings : Settings) (fuel moves : Nat) (session : Session) : Option Report :=
  if settings.exhaustedBy moves then
    some (session.report (.stepLimit moves) moves)
  else
    match fuel with
    | 0 => none
    | fuel + 1 =>
        match session.step with
        | (.moved, next) => drive settings fuel (moves + 1) next
        | (.terminated, next) => some (next.report .terminated (moves + 1))
        | (.halted, next) => some (next.report .halted moves)
        | (.idle, next) => some (next.report .alreadyTerminated moves)
        | (.cycle cycle, next) => some (next.report (.cycle cycle) (moves + 1))

end Session

/-- Run a machine from its present word.  The fuel matters only without a step
limit. -/
def run (fuel : Nat) (settings : Settings) (machine : Machine) : Option Report :=
  ((Session.ofMachine machine).detecting settings.detectCycles).drive settings
    (settings.stepLimit.getD fuel) 0

/-- More steps than any computation can make in practice. -/
def ampleFuel : Nat := Nat.pow 2 62

end MarkovAlgorithm
