import MarkovAlgorithm.CommandLine.Execution
import MarkovAlgorithm.Proofs.Run.Trajectory
import MarkovAlgorithm.Proofs.Session.Invariant

/-!
# Animated runs and plain runs

An animated run plays a session tick by tick, and a plain run steps a session
that is paused all along.  The two loops count their moves apart from each
other, and the animation writes a line at each move, where the plain run writes
its whole history at the end.

On machines that have not halted they agree in every respect: one ends if the
other does, with the same outcome and the same output.  On a machine that had
halted before they need not agree, since only the plain run looks at its limit
then.  No program is loaded into such a machine.
-/

namespace MarkovAlgorithm

theorem Machine.halted_eq_false_of_load {program start : Word} {machine : Machine}
    (loaded : load program start = .ok machine) : machine.halted = false := by
  unfold load at loaded
  cases accepted : empty.withProgram program with
  | error error =>
      rw [accepted] at loaded
      contradiction
  | ok changed =>
      rw [accepted] at loaded
      cases loaded
      rfl

namespace Session

/-- The session with automatic stepping on. -/
def playing (session : Session) : Session :=
  { session with running := true }

/-- Automatic stepping makes no difference to a step, and only a plain move
keeps it on. -/
theorem tick_playing {session next : Session} {event : Event}
    (stepsTo : session.StepsTo event next) :
    session.playing.tick = (some event, { next with running := event.continues }) := by
  have played : session.playing.StepsTo event { next with running := event.continues } := by
    cases stepsTo with
    | idle halted => exact .idle halted
    | halted running still => exact .halted running still
    | terminated moves final => exact .terminated moves final
    | moved moves running fresh => exact .moved moves running fresh
    | cycle moves running detects visited => exact .cycle moves running detects visited
  rw [tick, if_pos (show session.playing.running = true from rfl), played.step_eq]

end Session

namespace CommandLine

/-- The frame of a step shows what the step adds to the history. -/
theorem render_eq_append {session next : Session} {event : Event}
    (stepsTo : session.StepsTo event next) :
    next.history.render =
      session.history.render ++
        if (Response.event event).records then frameLine next else [] := by
  have historyEq := stepsTo.history_eq
  cases recorded : (Response.event event).records with
  | true =>
      rw [recorded, if_pos rfl] at historyEq
      rw [if_pos rfl, frameLine, historyEq, History.render_push]
      simp
  | false =>
      rw [recorded] at historyEq
      simp [historyEq]

/-- What is on paper behind a frame. -/
def writtenFrame (quiet : Bool) (texts : Array Word) : Option Word → Array Word
  | some line => if quiet then texts else texts.push line
  | none => texts

/-- What is written of a history, if anything is. -/
def shownHistory (quiet : Bool) (history : History) : Word :=
  if quiet then [] else history.render

theorem playFrames_paper_succ (settings : Settings) (quiet : Bool) (fuel moves : Nat)
    (session : Session) (texts : Array Word) :
    (playFrames paper settings quiet (fuel + 1) moves session).run texts =
      match nextFrame settings moves session with
      | (line, .continues next) =>
          (playFrames paper settings quiet fuel (moves + 1) next).run
            (writtenFrame quiet texts line)
      | (line, .stops outcome last) =>
          (some (.ended outcome last), writtenFrame quiet texts line)
      | (line, .paused) => (some .pausedUnexpectedly, writtenFrame quiet texts line) := by
  rw [playFrames]
  rcases nextFrame settings moves session with ⟨line, progress⟩
  cases quiet <;> cases line <;> cases progress <;> rfl

/-- An animation ends as a run does: with the same outcome and the same machine, and its
frames are the history. -/
def Finale.Presents (quiet : Bool) (texts : Array Word) (finale : Finale) (report : Report) :
    Prop :=
  ∃ last, finale = .ended report.outcome last ∧ last.machine = report.machine ∧
    texts.toList.flatten = shownHistory quiet report.history

/-- An animation may ask for as many frames as a plain run may take steps, and
for one more to find the limit used up if there is one. -/
def Affords (settings : Settings) (moves fuel budget : Nat) : Prop :=
  match settings.stepLimit with
  | none => budget = fuel
  | some limit => limit = moves + fuel ∧ budget = fuel + 1

section Affords

variable {settings : Settings} {moves fuel budget : Nat}

theorem affords_frameBudget (settings : Settings) (fuel : Nat) :
    Affords settings 0 (settings.stepLimit.getD fuel) (frameBudget fuel settings) := by
  unfold Affords frameBudget
  cases settings.stepLimit <;> simp

/-- A plain run without fuel has used up its limit, or there is none. -/
theorem Affords.zero (affords : Affords settings moves 0 budget) :
    settings.exhaustedBy moves = true ∧ budget = 1 ∨
      settings.exhaustedBy moves = false ∧ budget = 0 := by
  unfold Affords at affords
  unfold Settings.exhaustedBy
  cases limitEq : settings.stepLimit with
  | none =>
      rw [limitEq] at affords
      exact .inr ⟨rfl, affords⟩
  | some limit =>
      rw [limitEq] at affords
      obtain ⟨rfl, rfl⟩ := affords
      exact .inl ⟨by simp, rfl⟩

theorem Affords.succ (affords : Affords settings moves (fuel + 1) budget) :
    settings.exhaustedBy moves = false ∧
      ∃ left, budget = left + 1 ∧ Affords settings (moves + 1) fuel left := by
  unfold Affords at affords ⊢
  unfold Settings.exhaustedBy
  cases limitEq : settings.stepLimit with
  | none =>
      rw [limitEq] at affords
      exact ⟨rfl, fuel, affords, rfl⟩
  | some limit =>
      rw [limitEq] at affords
      obtain ⟨rfl, rfl⟩ := affords
      exact ⟨by simp, fuel + 1, rfl, by omega, rfl⟩

end Affords

/-- The loops of an animation and of a plain run agree. -/
theorem playFrames_presents_drive {settings : Settings} {quiet : Bool}
    {fuel moves budget : Nat} {session : Session} {texts : Array Word}
    (affords : Affords settings moves fuel budget)
    (shown : texts.toList.flatten = shownHistory quiet session.history) :
    ∃ finale written,
      (playFrames paper settings quiet budget moves session.playing).run texts =
        (finale, written) ∧
      Option.Rel (Finale.Presents quiet written) finale (session.drive settings fuel moves) := by
  induction fuel generalizing moves budget session texts with
  | zero =>
      -- a plain run looks at its limit even without fuel, and an animation needs a frame for it
      rcases affords.zero with ⟨exhausted, rfl⟩ | ⟨within, rfl⟩
      · rw [Session.drive_eq_of_exhausted exhausted, playFrames_paper_succ]
        simp only [nextFrame, exhausted, if_true]
        exact ⟨_, _, rfl, .some ⟨_, rfl, rfl, shown⟩⟩
      · simp only [Session.drive, within]
        exact ⟨_, _, rfl, .none⟩
  | succ fuel inductionHypothesis =>
      obtain ⟨within, left, rfl, affordsLeft⟩ := affords.succ
      obtain ⟨event, next, stepsTo⟩ := session.exists_stepsTo
      have shownNext (recorded : (Response.event event).records = true) :
          (writtenFrame quiet texts (some (frameLine next))).toList.flatten =
            shownHistory quiet next.history := by
        rw [shownHistory, render_eq_append stepsTo, if_pos recorded]
        cases quiet <;> simpa [writtenFrame, shownHistory] using shown
      have shownStill (silent : (Response.event event).records = false) :
          (writtenFrame quiet texts none).toList.flatten = shownHistory quiet next.history := by
        rw [shownHistory, render_eq_append stepsTo, silent]
        simpa [writtenFrame, shownHistory] using shown
      rw [playFrames_paper_succ]
      simp only [nextFrame, Session.drive, within, Session.tick_playing stepsTo, stepsTo.step_eq]
      cases event with
      | moved => exact inductionHypothesis affordsLeft (shownNext rfl)
      | terminated => exact ⟨_, _, rfl, .some ⟨_, rfl, rfl, shownNext rfl⟩⟩
      | halted => exact ⟨_, _, rfl, .some ⟨_, rfl, rfl, shownStill rfl⟩⟩
      | idle => exact ⟨_, _, rfl, .some ⟨_, rfl, rfl, shownStill rfl⟩⟩
      | cycle _ => exact ⟨_, _, rfl, .some ⟨_, rfl, rfl, shownNext rfl⟩⟩

theorem animate_paper {settings : Settings} {machine : Machine} {session : Session}
    (playable : startAnimation settings machine = (true, session)) (fuel : Nat) (quiet : Bool) :
    (animate paper fuel settings quiet machine).run #[] =
      let (finale, texts) :=
        (playFrames paper settings quiet (frameBudget fuel settings) 0 session).run
          (writtenFrame quiet #[] (some (frameLine session)))
      (finale.mapM (closeAnimation paper quiet)).run texts := by
  rw [animate, playable]
  cases quiet <;> rfl

/-- An animated run has the outcome and the output of a plain run. -/
theorem runAnimated_eq_map {machine : Machine} (running : machine.halted = false)
    (fuel : Nat) (settings : Settings) (quiet : Bool) :
    runAnimated fuel settings quiet machine =
      (runPlainly fuel settings quiet machine).map .ok := by
  have playable : startAnimation settings machine =
      (true, (Session.opening settings machine).playing) := by
    simp [startAnimation, Session.play, Session.opening, Session.playing, Session.ofMachine,
      Session.detecting, running]
  have begun : (writtenFrame quiet #[] (some (frameLine
      (Session.opening settings machine).playing))).toList.flatten =
        shownHistory quiet (Session.opening settings machine).history := by
    cases quiet <;>
      simp [writtenFrame, shownHistory, frameLine, History.render, Session.opening,
        Session.playing, Session.ofMachine, Session.detecting]
  obtain ⟨finale, texts, played, presents⟩ :=
    playFrames_presents_drive (affords_frameBudget settings fuel) begun
  rw [runAnimated, runPlainly, animate_paper playable, played]
  change Option.Rel _ finale (run fuel settings machine) at presents
  generalize run fuel settings machine = reported at presents ⊢
  cases presents with
  | none => rfl
  | some presented =>
      obtain ⟨last, rfl, sameMachine, sameText⟩ := presented
      cases quiet with
      | true =>
          change some (Except.ok (_, (texts.push (last.machine.word ++ ['\n'])).toList.flatten)) = _
          simp [sameMachine, sameText, shownHistory]
      | false =>
          change some (Except.ok (_, texts.toList.flatten)) = _
          simp [sameText, shownHistory]

/-- The machine of a command has not halted. -/
theorem RunCommand.halted_eq_false {surroundings : Surroundings} {command : RunCommand}
    {machine : Machine} (found : command.machine surroundings = .ok machine) :
    machine.halted = false := by
  unfold RunCommand.machine at found
  cases program : command.origin.program surroundings with
  | error failure =>
      rw [program] at found
      contradiction
  | ok source =>
      rw [program] at found
      change (Machine.load source.1 (command.input.getD source.2)).mapError Failure.badProgram =
        .ok machine at found
      cases loaded : Machine.load source.1 (command.input.getD source.2) with
      | error error =>
          rw [loaded] at found
          contradiction
      | ok loadedMachine =>
          rw [loaded] at found
          cases found
          exact Machine.halted_eq_false_of_load loaded

theorem executeRun_animate (fuel : Nat) (surroundings : Surroundings) (command : RunCommand) :
    executeRun fuel surroundings { command with animate := true } =
      executeRun fuel surroundings { command with animate := false } := by
  have sameMachine (animate : Bool) :
      ({ command with animate } : RunCommand).machine surroundings =
        command.machine surroundings :=
    rfl
  simp only [executeRun, sameMachine]
  cases found : command.machine surroundings with
  | error failure => rfl
  | ok machine =>
      simp only [if_true, runAnimated_eq_map (RunCommand.halted_eq_false found), Option.map_map]
      rfl

/-- An animated run agrees with a plain run of the same loaded machine.  Where
the plain run ends, the animated run ends, too, and tells and writes the same:
the last word alone if it is to be quiet, and otherwise each visit with its
number.  So the whole command leaves the same behind, animated or not. -/
theorem animated_run_agrees {program start : Word} {machine : Machine}
    (loaded : Machine.load program start = .ok machine) (fuel : Nat) (settings : Settings)
    (quiet : Bool) :
    (∀ report, run fuel settings machine = some report →
      runPlainly fuel settings quiet machine = some (report.outcome,
        if quiet then
          report.machine.word ++ ['\n']
        else
          (report.history.toList.zipIdx.map fun (word, step) =>
            Text.decimal step ++ ": ".toList ++ word ++ ['\n']).flatten)) ∧
    runAnimated fuel settings quiet machine =
      (runPlainly fuel settings quiet machine).map .ok ∧
    ∀ (surroundings : Surroundings) (command : RunCommand),
      executeRun fuel surroundings { command with animate := true } =
        executeRun fuel surroundings { command with animate := false } := by
  refine ⟨?_, runAnimated_eq_map (Machine.halted_eq_false_of_load loaded) fuel settings quiet,
    executeRun_animate fuel⟩
  intro report returned
  rw [runPlainly, returned]
  rfl

/-- Two rules that undo each other, whose first repetition uses up the limit. -/
theorem animated_run_agrees_swapping :
    Machine.load "ab:ba\nba:ab".toList ['a', 'b'] = .ok Machine.swapping ∧
    runAnimated 0 { stepLimit := some 2 } false Machine.swapping =
      some (.ok (.cycle ⟨['a', 'b'], 2, 0⟩, "0: ab\n1: ba\n2: ab\n".toList)) := by
  have loaded : Machine.load "ab:ba\nba:ab".toList ['a', 'b'] = .ok Machine.swapping := rfl
  refine ⟨loaded, ?_⟩
  rw [(animated_run_agrees loaded 0 { stepLimit := some 2 } false).2.1]
  have plain : runPlainly 0 { stepLimit := some 2 } false Machine.swapping =
      some (.cycle ⟨['a', 'b'], 2, 0⟩, "0: ab\n1: ba\n2: ab\n".toList) := by
    decide
  rw [plain]
  rfl

end CommandLine

end MarkovAlgorithm
