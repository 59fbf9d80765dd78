import MarkovAlgorithm.History
import MarkovAlgorithm.Machine

/-!
# Sessions

A session is a machine under observation: the words visited since the last
start, the latest notice, whether automatic stepping is on, and whether
repetitions are looked for.  A step either moves on, ends the computation, or
finds that it cannot.

A repetition is reported, with both visits, when an ordinary rule leads to a
word that is already in the history.  A terminal rule that repeats a word is a
termination, since the machine cannot loop any more.  A repetition does not halt
the machine: a session may be stepped further after it.

Replacing the rules keeps word and history.  If the new program cannot be
read, the old rules stay, and the session is paused all the same.

The controls of a session are given as data, so that a whole interaction is a
list of them.  Each control has a response.
-/

namespace MarkovAlgorithm

/-! ## What a step reports -/

/-- A word that was visited again. -/
structure Cycle where
  word : Word
  step : Nat
  previousStep : Nat
  deriving DecidableEq

/-- The wording of a repetition. -/
def Cycle.message (cycle : Cycle) : Word :=
  "Repeating state ".toList ++ cycle.word ++
    " on step ".toList ++ Text.decimal cycle.step ++
    ", previous occurred on step ".toList ++ Text.decimal cycle.previousStep

/-- The result of one step of a session. -/
inductive Event where
  /-- An ordinary rule fired, and the word is new or repetitions are ignored. -/
  | moved
  /-- A terminal rule fired. -/
  | terminated
  /-- No rule applied; the machine halted at its word. -/
  | halted
  /-- The machine had halted before. -/
  | idle
  /-- An ordinary rule fired and led back to a visited word. -/
  | cycle (cycle : Cycle)
  deriving DecidableEq

/-- Only a plain move leaves a session ready for the next step. -/
def Event.continues : Event → Bool
  | .moved => true
  | _ => false

/-! ## Observing a machine -/

/-- What a session has to tell its user. -/
inductive Notice where
  | badProgram (error : LineError)
  | repetition (cycle : Cycle)
  deriving DecidableEq

/-- The wording of a notice. -/
def Notice.message : Notice → Word
  | .badProgram error => error.message
  | .repetition cycle => cycle.message

/-- A machine under observation. -/
structure Session where
  machine : Machine
  history : History
  notice : Option Notice
  running : Bool
  detectsCycles : Bool

namespace Session

/-- A paused session around a machine, whose history begins at the machine's
word. -/
def ofMachine (machine : Machine) : Session where
  machine := machine
  history := History.startingAt machine.word
  notice := none
  running := false
  detectsCycles := true

/-- The session around the empty machine. -/
def new : Session :=
  ofMachine Machine.empty

/-- Look for repetitions or ignore them. -/
def detecting (session : Session) (enabled : Bool) : Session :=
  { session with detectsCycles := enabled }

/-- Replace the rules by those of a program. -/
def setRules (session : Session) (program : Word) : Except LineError Unit × Session :=
  match session.machine.withProgram program with
  | .ok machine => (.ok (), { session with machine, notice := none, running := false })
  | .error error =>
      (.error error, { session with notice := some (.badProgram error), running := false })

/-- Start over from another word. -/
def restart (session : Session) (start : Word) : Session :=
  { session with
    machine := session.machine.restart start
    history := History.startingAt start
    notice := none
    running := false }

/-- Start over from the starting word. -/
def reset (session : Session) : Session :=
  { session with
    machine := session.machine.reset
    history := History.startingAt session.machine.start
    notice := none
    running := false }

/-- Turn automatic stepping on, unless the machine has halted.  The result
tells whether it is on. -/
def play (session : Session) : Bool × Session :=
  let running := !session.machine.halted
  (running, { session with running })

/-- Turn automatic stepping off. -/
def pause (session : Session) : Session :=
  { session with running := false }

/-- The earlier visit that a repetition check finds for the machine after a
move. -/
def earlierVisit? (session : Session) (next : Machine) : Option Nat :=
  if session.detectsCycles && !next.halted then
    session.history.firstVisit? next.word
  else
    none

/-- Record a move to `next`. -/
def visit (session : Session) (next : Machine) : Session :=
  { session with machine := next, history := session.history.push next.word }

/-- One step of the machine, recorded and reported. -/
def step (session : Session) : Event × Session :=
  if session.machine.halted then
    (.idle, session.pause)
  else
    match session.machine.step with
    | (false, next) => (.halted, { session with machine := next, running := false })
    | (true, next) =>
        let number := session.history.size
        match session.earlierVisit? next with
        | some previous =>
            let cycle := ⟨next.word, number, previous⟩
            (.cycle cycle,
              { session.visit next with running := false, notice := some (.repetition cycle) })
        | none =>
            if next.halted then
              (.terminated, { session.visit next with running := false })
            else
              (.moved, session.visit next)

/-- One step, if automatic stepping is on. -/
def tick (session : Session) : Option Event × Session :=
  if session.running then
    let (event, next) := session.step
    (some event, next)
  else
    (none, session)

/-- Tick until automatic stepping is off, at most a number of times. -/
def ticks : Nat → Session → List Event × Session
  | 0, session => ([], session)
  | limit + 1, session =>
      match session.tick with
      | (none, next) => ([], next)
      | (some event, next) =>
          let (events, last) := ticks limit next
          (event :: events, last)

end Session

/-! ## Controls -/

/-- What can be done to a session. -/
inductive Control where
  | detectCycles (enabled : Bool)
  | setRules (program : Word)
  | restart (start : Word)
  | reset
  | play
  | pause
  | step
  | tick
  deriving DecidableEq

/-- What a control answers. -/
inductive Response where
  | done
  | rejected (error : LineError)
  | playing (on : Bool)
  | event (event : Event)
  | paused
  deriving DecidableEq

namespace Session

/-- Carry out one control. -/
def perform (session : Session) : Control → Response × Session
  | .detectCycles enabled => (.done, session.detecting enabled)
  | .setRules program =>
      match session.setRules program with
      | (.ok (), next) => (.done, next)
      | (.error error, next) => (.rejected error, next)
  | .restart start => (.done, session.restart start)
  | .reset => (.done, session.reset)
  | .play =>
      let (on, next) := session.play
      (.playing on, next)
  | .pause => (.done, session.pause)
  | .step =>
      let (event, next) := session.step
      (.event event, next)
  | .tick =>
      match session.tick with
      | (some event, next) => (.event event, next)
      | (none, next) => (.paused, next)

end Session

end MarkovAlgorithm
