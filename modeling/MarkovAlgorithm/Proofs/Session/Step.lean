import MarkovAlgorithm.Proofs.History
import MarkovAlgorithm.Proofs.Machine.Trajectory
import MarkovAlgorithm.Session

/-!
# The steps of a session

`Session.StepsTo` lists everything that one step of a session can do, each
case with the condition under which it happens.  It is the graph of
`Session.step`, so a fact about steps is proved by going through its cases.

A session that only makes plain moves follows the trajectory of its machine:
`Session.along` is the session after a number of them.
-/

namespace MarkovAlgorithm.Session

/-- What one step of a session does: its event and the session after it. -/
inductive StepsTo (session : Session) : Event → Session → Prop where
  | idle (halted : session.machine.halted = true) :
      StepsTo session .idle session.pause
  | halted {next : Machine} (running : session.machine.halted = false)
      (still : session.machine.step = (false, next)) :
      StepsTo session .halted { session with machine := next, running := false }
  | terminated {next : Machine} (moves : session.machine.step = (true, next))
      (final : next.halted = true) :
      StepsTo session .terminated { session.visit next with running := false }
  | moved {next : Machine} (moves : session.machine.step = (true, next))
      (running : next.halted = false)
      (fresh : session.detectsCycles = true → next.word ∉ session.history.toList) :
      StepsTo session .moved (session.visit next)
  | cycle {next : Machine} {previous : Nat} (moves : session.machine.step = (true, next))
      (running : next.halted = false) (detects : session.detectsCycles = true)
      (visited : session.history.firstVisit? next.word = some previous) :
      StepsTo session (.cycle ⟨next.word, session.history.size, previous⟩)
        { session.visit next with
          running := false
          notice := some (.repetition ⟨next.word, session.history.size, previous⟩) }

/-- The repetition check finds nothing exactly when the machine has halted, or
the word is new, or repetitions are ignored. -/
theorem earlierVisit?_eq_none_iff (session : Session) (next : Machine) :
    session.earlierVisit? next = none ↔
      (session.detectsCycles = true → next.halted = false →
        next.word ∉ session.history.toList) := by
  unfold earlierVisit?
  cases detects : session.detectsCycles <;> cases final : next.halted <;>
    simp [History.firstVisit?_eq_none_iff]

theorem earlierVisit?_eq_some_iff (session : Session) (next : Machine) (previous : Nat) :
    session.earlierVisit? next = some previous ↔
      session.detectsCycles = true ∧ next.halted = false ∧
        session.history.firstVisit? next.word = some previous := by
  unfold earlierVisit?
  cases detects : session.detectsCycles <;> cases final : next.halted <;> simp

/-- The listed steps are those that a session takes. -/
theorem StepsTo.step_eq {session next : Session} {event : Event}
    (stepsTo : session.StepsTo event next) : session.step = (event, next) := by
  have running : ∀ {moved : Machine}, session.machine.step = (true, moved) →
      session.machine.halted = false := by
    intro moved moves
    exact Machine.halted_eq_false_of_moves (congrArg Prod.fst moves)
  cases stepsTo with
  | idle halted => simp [step, halted]
  | halted running still => simp [step, running, still]
  | @terminated moved moves final =>
      have earlier : session.earlierVisit? moved = none := by
        rw [earlierVisit?_eq_none_iff]
        simp [final]
      simp [step, running moves, moves, earlier, final]
  | @moved moved moves notFinal fresh =>
      have earlier : session.earlierVisit? moved = none :=
        (earlierVisit?_eq_none_iff session moved).mpr fun detects _ => fresh detects
      simp [step, running moves, moves, earlier, notFinal]
  | @cycle moved previous moves notFinal detects visited =>
      have earlier : session.earlierVisit? moved = some previous :=
        (earlierVisit?_eq_some_iff session moved previous).mpr ⟨detects, notFinal, visited⟩
      simp [step, running moves, moves, earlier]

theorem exists_stepsTo (session : Session) :
    ∃ event next, session.StepsTo event next := by
  cases halted : session.machine.halted with
  | true => exact ⟨_, _, .idle halted⟩
  | false =>
      rcases stepEq : session.machine.step with ⟨moves, next⟩
      cases moves with
      | false => exact ⟨_, _, .halted halted stepEq⟩
      | true =>
          cases earlier : session.earlierVisit? next with
          | some previous =>
              obtain ⟨detects, running, visited⟩ :=
                (earlierVisit?_eq_some_iff session next previous).mp earlier
              exact ⟨_, _, .cycle stepEq running detects visited⟩
          | none =>
              have fresh := (earlierVisit?_eq_none_iff session next).mp earlier
              cases final : next.halted with
              | true => exact ⟨_, _, .terminated stepEq final⟩
              | false => exact ⟨_, _, .moved stepEq final fun detects => fresh detects final⟩

/-- `StepsTo` is the graph of `step`. -/
theorem step_eq_iff_stepsTo {session next : Session} {event : Event} :
    session.step = (event, next) ↔ session.StepsTo event next := by
  constructor
  · intro stepEq
    obtain ⟨taken, reached, stepsTo⟩ := session.exists_stepsTo
    cases stepsTo.step_eq.symm.trans stepEq
    exact stepsTo
  · exact StepsTo.step_eq

theorem stepsTo_step (session : Session) : session.StepsTo session.step.1 session.step.2 :=
  step_eq_iff_stepsTo.mp rfl

/-! ## Plain moves -/

/-- The session after a number of plain moves. -/
def along (session : Session) : Nat → Session
  | 0 => session
  | count + 1 => (session.along count).visit (session.along count).machine.step.2

@[simp]
theorem along_machine (session : Session) (count : Nat) :
    (session.along count).machine = Machine.stepN count session.machine := by
  induction count with
  | zero => rfl
  | succ count inductionHypothesis =>
      rw [Machine.stepN_succ, ← inductionHypothesis]
      rfl

@[simp]
theorem along_detectsCycles (session : Session) (count : Nat) :
    (session.along count).detectsCycles = session.detectsCycles := by
  induction count with
  | zero => rfl
  | succ count inductionHypothesis => exact inductionHypothesis

/-- A session that starts at a machine has visited the machine's trajectory. -/
theorem along_history {session : Session}
    (fresh : session.history = History.startingAt session.machine.word) (count : Nat) :
    (session.along count).history = History.ofList (session.machine.trajectory (count + 1)) := by
  induction count with
  | zero => exact fresh
  | succ count inductionHypothesis =>
      rw [Machine.trajectory_succ, History.ofList_append_singleton, ← inductionHypothesis,
        Machine.stepN_succ, ← along_machine]
      rfl

end MarkovAlgorithm.Session
