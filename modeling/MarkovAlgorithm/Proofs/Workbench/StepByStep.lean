import MarkovAlgorithm.Proofs.Run.Stop
import MarkovAlgorithm.Proofs.Session.Transcript
import MarkovAlgorithm.Workbench

/-!
# Running a program and stepping through it

The same program can be run by one call, or step by step in a session that is
told the program and the starting word by calls of its own.  The two ways differ
in how the history begins and in where the names of their results come from.
They agree all the same: both fail on the same programs with the same error, and
otherwise show the same words and the same result.

A session that is stepped does not know of a limit.  Its last answer is a plain
move, or it has not been called at all, exactly where a run reports the limit.
-/

namespace MarkovAlgorithm.Workbench

open Data

/-- Arguments that are all given by position. -/
def given (values : List Value) : Arguments :=
  ⟨values, []⟩

/-- Call `step` until it answers something else than a plain move, at most a
number of times.  The answers in order, and the session behind them. -/
def stepThrough : Nat → Session → List Word × Session
  | 0, session => ([], session)
  | limit + 1, session =>
      match callSession session (given []) "step" with
      | (.ok (.word name), next) =>
          if name = "moved".toList then
            let (names, last) := stepThrough limit next
            (name :: names, last)
          else
            ([name], next)
      | (_, next) => ([], next)

/-- The result that the answers amount to: the last of them, unless it was a
plain move or there was none. -/
def verdict (names : List Word) : Word :=
  match names.getLast? with
  | some name => if name = "moved".toList then "step_limit".toList else name
  | none => "step_limit".toList

/-- What can be read off a session: all visited words, and the word of its
machine, which is the last of them. -/
structure Displays (session : Session) (word : Word) (visited : List Word) : Prop where
  log : readAttribute (.session session) "log" = .ok (.words visited)
  state : ∃ machine, readAttribute (.session session) "markov" = .ok (.object (.machine machine)) ∧
    readAttribute (.machine machine) "state" = .ok (.word word)
  latest : visited.getLast? = some word

/-! ## Calls -/

theorem readWord_ofWord (word : Word) : readWord (.ofWord word) = .ok word := by
  simp [readWord, Value.ofWord, Value.word?]

theorem readLimit_ofNat {limit : Nat} (small : limit < countBound) :
    readLimit (.ofNat limit) = .ok (some limit) := by
  simp [readLimit, Value.ofNat, Value.natural?, small]

theorem readTruth_truth (truth : Bool) : readTruth (.truth truth) = .ok truth :=
  rfl

/-- A session is called by the controls that its methods stand for. -/
theorem callSession_of_control {arguments : Arguments} {method : String} {control : Control}
    (standsFor : sessionControl arguments method = .ok control) (session : Session) :
    callSession session arguments method =
      (answerOfResponse (session.perform control).1, (session.perform control).2) := by
  rw [callSession, standsFor]

theorem bindOne_given {α : Type} (value : Value) (name : String)
    (read : Value → Except CallError α) : (given [value]).bindOne name read = read value :=
  rfl

theorem sessionControl_step : sessionControl (given []) "step" = .ok .step :=
  rfl

theorem sessionControl_setRules (program : Word) :
    sessionControl (given [.ofWord program]) "set_rules" = .ok (.setRules program) := by
  rw [sessionControl, bindOne_given, readWord_ofWord]
  rfl

theorem sessionControl_restart (start : Word) :
    sessionControl (given [.ofWord start]) "set_initial_state" = .ok (.restart start) := by
  rw [sessionControl, bindOne_given, readWord_ofWord]
  rfl

theorem callRun_given {limit : Nat} (small : limit < countBound) (fuel : Nat)
    (program start : Word) (detect : Bool) :
    callRun fuel (given [.ofWord program, .ofWord start, .ofNat limit, .truth detect]) =
      (runProgram fuel program start (some limit) detect).map fun (outcome, last, visited) =>
        .several [.name outcome, .word last, .words visited] := by
  have bound : (given [.ofWord program, .ofWord start, .ofNat limit, .truth detect]).bind
      [needed "rules", needed "input", optional "max_steps", optional "detect_cycles"] =
      .ok [some (.ofWord program), some (.ofWord start), some (.ofNat limit),
        some (.truth detect)] := rfl
  rw [callRun, bound]
  simp only [bind, Except.bind, readOr, readWord_ofWord, readLimit_ofNat small, readTruth_truth]
  cases runProgram fuel program start (some limit) detect <;> rfl

/-! ## Steps -/

/-- A call of `step` takes a step and answers with the name of its event. -/
theorem callSession_step {session next : Session} {event : Event}
    (stepsTo : session.StepsTo event next) :
    callSession session (given []) "step" = (.ok (.name event.name), next) := by
  rw [callSession_of_control sessionControl_step, Session.perform, stepsTo.step_eq]
  rfl

variable {session : Session}

/-- As long as the machine has not halted, a plain move is followed by further
calls, and an end or a repetition is the last answer. -/
theorem stepThrough_succ (active : session.machine.halted = false) (limit : Nat) :
    (∃ next, session.StepsTo .moved next ∧ next.machine.halted = false ∧
      stepThrough (limit + 1) session =
        ("moved".toList :: (stepThrough limit next).1, (stepThrough limit next).2)) ∨
    ∃ event next, session.StepsTo event next ∧
      (event = .terminated ∨ event = .halted ∨ ∃ cycle, event = .cycle cycle) ∧
      stepThrough (limit + 1) session = ([event.name.toList], next) := by
  rcases session.exists_stepsTo with ⟨event, next, stepsTo⟩
  have called : stepThrough (limit + 1) session =
      if event.name = "moved" then
        (event.name.toList :: (stepThrough limit next).1, (stepThrough limit next).2)
      else
        ([event.name.toList], next) := by
    simp only [stepThrough, callSession_step stepsTo, Answer.name, String.toList_inj]
  cases stepsTo with
  | idle halted =>
      rw [active] at halted
      contradiction
  | halted running still =>
      exact .inr ⟨_, _, .halted running still, .inr (.inl rfl), called⟩
  | terminated moves final =>
      exact .inr ⟨_, _, .terminated moves final, .inl rfl, called⟩
  | moved moves running fresh =>
      exact .inl ⟨_, .moved moves running fresh, running, called⟩
  | cycle moves running detects visited =>
      exact .inr ⟨_, _, .cycle moves running detects visited, .inr (.inr ⟨_, rfl⟩), called⟩

/-- Stepping through keeps the invariant of sessions. -/
theorem kept_stepThrough (kept : session.Kept) (active : session.machine.halted = false)
    (limit : Nat) : (stepThrough limit session).2.Kept := by
  induction limit generalizing session with
  | zero => exact kept
  | succ limit inductionHypothesis =>
      rcases stepThrough_succ active limit with
        ⟨next, stepsTo, stillActive, called⟩ | ⟨event, next, stepsTo, _, called⟩
      · rw [called]
        exact inductionHypothesis (kept.stepsTo stepsTo) stillActive
      · rw [called]
        exact kept.stepsTo stepsTo

/-- A machine that has not halted is never found idle. -/
theorem idle_not_mem_stepThrough (active : session.machine.halted = false) (limit : Nat) :
    "idle".toList ∉ (stepThrough limit session).1 := by
  induction limit generalizing session with
  | zero => exact List.not_mem_nil
  | succ limit inductionHypothesis =>
      rcases stepThrough_succ active limit with
        ⟨next, _, stillActive, called⟩ | ⟨event, next, _, ending, called⟩
      · rw [called]
        exact List.not_mem_cons_of_ne_of_not_mem (by decide) (inductionHypothesis stillActive)
      · rw [called]
        apply List.not_mem_cons_of_ne_of_not_mem _ List.not_mem_nil
        rcases ending with rfl | rfl | ⟨cycle, rfl⟩ <;> simp [Event.name]

theorem verdict_moved (names : List Word) :
    verdict ("moved".toList :: names) = verdict names := by
  cases names with
  | nil => rfl
  | cons name rest => rw [verdict, verdict, List.getLast?_cons_cons]

theorem verdict_singleton {name : Word} (unmoved : name ≠ "moved".toList) :
    verdict [name] = name :=
  if_neg unmoved

/-- Only a machine that had halted before the run gives one of these names. -/
theorem name_not_mem_of_ne {outcome : Outcome} (other : outcome ≠ .alreadyTerminated) :
    outcome.name.toList ∉ ["idle".toList, "already_terminated".toList] := by
  cases outcome with
  | alreadyTerminated => contradiction
  | _ => simp [Outcome.name]

/-- A run reports the session that was stepped through, and its outcome is named
by the answers. -/
theorem drive_eq_stepThrough {settings : Settings} {fuel moves : Nat}
    (limited : settings.stepLimit = some (moves + fuel))
    (active : session.machine.halted = false) :
    ∃ outcome steps, outcome ≠ .alreadyTerminated ∧
      outcome.name.toList = verdict (stepThrough fuel session).1 ∧
      session.drive settings fuel moves =
        some ((stepThrough fuel session).2.report outcome steps) := by
  induction fuel generalizing moves session with
  | zero =>
      have exhausted : settings.exhaustedBy moves = true := Settings.exhaustedBy_stepLimit limited
      exact ⟨.stepLimit moves, moves, by simp, rfl, Session.drive_eq_of_exhausted exhausted _ _⟩
  | succ fuel inductionHypothesis =>
      have within : settings.exhaustedBy moves = false := by
        rw [Settings.exhaustedBy, limited]
        simp
      rcases stepThrough_succ active fuel with
        ⟨next, stepsTo, stillActive, called⟩ | ⟨event, next, stepsTo, ending, called⟩
      · have limitedNext : settings.stepLimit = some (moves + 1 + fuel) := by
          rw [limited, Nat.add_assoc, Nat.add_comm 1]
        rw [called, verdict_moved, Session.drive_eq_of_moved within stepsTo.step_eq]
        exact inductionHypothesis limitedNext stillActive
      · have unmoved : event.name.toList ≠ "moved".toList := by
          rcases ending with rfl | rfl | ⟨cycle, rfl⟩ <;> simp [Event.name]
        rw [called, verdict_singleton unmoved, Session.drive, within]
        simp only [stepsTo.step_eq]
        rcases ending with rfl | rfl | ⟨cycle, rfl⟩
        · exact ⟨.terminated, moves + 1, by simp, rfl, rfl⟩
        · exact ⟨.halted, moves, by simp, rfl, rfl⟩
        · exact ⟨.cycle cycle, moves + 1, by simp, rfl, rfl⟩

/-! ## The two ways to run a program -/

/-- The session around a machine with given rules at its starting word. -/
def prepared (rules : List Rule) (start : Word) (detect : Bool) : Session :=
  (Session.ofMachine ((Machine.ofRules rules).restart start)).detecting detect

theorem kept_prepared (rules : List Rule) (start : Word) (detect : Bool) :
    (prepared rules start detect).Kept :=
  (Session.kept_ofMachine _).perform (.detectCycles detect)

section Programs

variable {program : Word} {rules : List Rule} {error : LineError}

/-- The machine of a program is loaded as its lines are read. -/
theorem withProgram_empty (program : Word) :
    Machine.empty.withProgram program = (readRules (Text.lines program)).map Machine.ofRules :=
  rfl

theorem runProgram_of_error (rejected : readRules (Text.lines program) = .error error)
    (fuel : Nat) (start : Word) (stepLimit : Option Nat) (detect : Bool) :
    runProgram fuel program start stepLimit detect = .error (.badProgram error) := by
  rw [runProgram, Machine.load, withProgram_empty, rejected]
  rfl

/-- A run of a program that can be read ends as the session does that is stepped
through. -/
theorem runProgram_of_ok (accepted : readRules (Text.lines program) = .ok rules)
    (fuel : Nat) (start : Word) (limit : Nat) (detect : Bool) :
    ∃ outcome : Outcome, outcome ≠ .alreadyTerminated ∧
      outcome.name.toList = verdict (stepThrough limit (prepared rules start detect)).1 ∧
      runProgram fuel program start (some limit) detect =
        .ok (outcome.name, (stepThrough limit (prepared rules start detect)).2.machine.word,
          (stepThrough limit (prepared rules start detect)).2.history.toList) := by
  let settings : Settings := { stepLimit := some limit, detectCycles := detect }
  have limited : settings.stepLimit = some (0 + limit) := by
    rw [Nat.zero_add]
  have active : (prepared rules start detect).machine.halted = false := rfl
  rcases drive_eq_stepThrough limited active with ⟨outcome, steps, unfinished, named, driven⟩
  have returned : run fuel settings ((Machine.ofRules rules).restart start) =
      some ((stepThrough limit (prepared rules start detect)).2.report outcome steps) := driven
  refine ⟨outcome, unfinished, named, ?_⟩
  rw [runProgram, Machine.load, withProgram_empty, accepted]
  simp only [bind, Except.bind, readable, Except.map]
  rw [returned]
  rfl

/-- A new session that is told a program that can be read, and then a starting
word, is prepared for it. -/
theorem perform_setRules_restart (accepted : readRules (Text.lines program) = .ok rules)
    (start : Word) (detect : Bool) :
    ∃ programmed, (Session.new.detecting detect).perform (.setRules program) =
        (.done, programmed) ∧
      programmed.perform (.restart start) = (.done, prepared rules start detect) := by
  have changed : Machine.empty.withProgram program = .ok (Machine.ofRules rules) := by
    rw [withProgram_empty, accepted]
    rfl
  have told : (Session.new.detecting detect).perform (.setRules program) =
      (.done, { Session.new.detecting detect with
        machine := Machine.ofRules rules
        notice := none
        running := false }) := by
    simp only [Session.perform, Session.setRules, Session.new, Session.ofMachine,
      Session.detecting, changed]
  exact ⟨_, told, rfl⟩

end Programs

/-- A program is run by one call just as a session is stepped through that was
told the program.  If the program cannot be read, both calls fail with the same
error.  Otherwise the run answers with the result that the steps amount to, and
with the words that the session displays.  Neither way ever finds a machine that
had halted before. -/
theorem callRun_agrees_stepThrough {limit : Nat} (small : limit < countBound) (fuel : Nat)
    (program start : Word) (detect : Bool) :
    ∃ session, make (given [.truth detect]) .session = .ok (.session session) ∧
      (∀ error, readRules (Text.lines program) = .error error →
        callRun fuel (given [.ofWord program, .ofWord start, .ofNat limit, .truth detect]) =
          .error (.badProgram error) ∧
        (callSession session (given [.ofWord program]) "set_rules").1 =
          .error (.badProgram error)) ∧
      ∀ rules, readRules (Text.lines program) = .ok rules →
        ∃ programmed started names last word visited,
          callSession session (given [.ofWord program]) "set_rules" =
            (.ok .nothing, programmed) ∧
          callSession programmed (given [.ofWord start]) "set_initial_state" =
            (.ok .nothing, started) ∧
          stepThrough limit started = (names, last) ∧
          callRun fuel (given [.ofWord program, .ofWord start, .ofNat limit, .truth detect]) =
            .ok (.several [.word (verdict names), .word word, .words visited]) ∧
          Displays last word visited ∧
          "idle".toList ∉ names ∧
          verdict names ∉ ["idle".toList, "already_terminated".toList] := by
  refine ⟨Session.new.detecting detect, rfl, ?_, ?_⟩
  · intro error rejected
    have unreadable : (Session.new.detecting detect).machine.withProgram program =
        .error error := by
      change Machine.empty.withProgram program = .error error
      rw [withProgram_empty, rejected]
      rfl
    rw [callRun_given small, runProgram_of_error rejected,
      callSession_of_control (sessionControl_setRules program),
      Session.perform_setRules_of_error unreadable]
    exact ⟨rfl, rfl⟩
  · intro rules accepted
    rcases perform_setRules_restart accepted start detect with ⟨programmed, told, restarted⟩
    rcases runProgram_of_ok accepted fuel start limit detect with ⟨outcome, unfinished, named, ran⟩
    have active : (prepared rules start detect).machine.halted = false := rfl
    have kept := kept_stepThrough (kept_prepared rules start detect) active limit
    refine ⟨programmed, prepared rules start detect, _, _,
      (stepThrough limit (prepared rules start detect)).2.machine.word,
      (stepThrough limit (prepared rules start detect)).2.history.toList, ?_, ?_, rfl, ?_, ?_,
      idle_not_mem_stepThrough active limit, ?_⟩
    · rw [callSession_of_control (sessionControl_setRules program), told]
      rfl
    · rw [callSession_of_control (sessionControl_restart start), restarted]
      rfl
    · rw [callRun_given small, ran, ← named]
      rfl
    · refine ⟨rfl, ⟨_, rfl, rfl⟩, ?_⟩
      rw [← History.last?_eq_getLast?]
      exact kept.last
    · rw [← named]
      exact name_not_mem_of_ne unfinished

/-- Two rules that undo each other, from a text with a comment.  The second step
comes back to the first word. -/
theorem callRun_agrees_stepThrough_swapping :
    3 < countBound ∧
    ∃ session names last word visited,
      make (given [.truth true]) .session = .ok (.session session) ∧
      stepThrough 3
        (callSession
          (callSession session (given [.ofWord "swap\nab:ba\nba:ab".toList]) "set_rules").2
          (given [.ofWord "ab".toList]) "set_initial_state").2 = (names, last) ∧
      callRun 0 (given [.ofWord "swap\nab:ba\nba:ab".toList, .ofWord "ab".toList, .ofNat 3,
        .truth true]) = .ok (.several [.word (verdict names), .word word, .words visited]) ∧
      Displays last word visited := by
  have small : 3 < countBound := by decide
  rcases callRun_agrees_stepThrough small 0 "swap\nab:ba\nba:ab".toList "ab".toList true with
    ⟨session, made, _, agrees⟩
  rcases agrees _ rfl with
    ⟨programmed, started, names, last, word, visited, told, restarted, stepped, called, displays, _⟩
  refine ⟨small, session, names, last, word, visited, made, ?_, called, displays⟩
  rw [told, restarted, stepped]

end MarkovAlgorithm.Workbench
