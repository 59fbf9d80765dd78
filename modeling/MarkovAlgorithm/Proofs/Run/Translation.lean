import MarkovAlgorithm.Proofs.Run.Trajectory

/-!
# Runs of translated machines

Two machines may do the same in different words, or with different rules.  A
translation takes machines to machines and words to words such that steps are
taken to steps and different words stay different.  It is then enough to look at
single steps: the trajectory is translated word by word, repetitions are found at
the same places, and so the report on the translated machine is the translated
report.  Both runs need the same fuel, and one of them has a report exactly when
the other has one.

A translation may rest on what the rules are.  They never change along a
trajectory, so it is stated for the machines with given rules.
-/

namespace MarkovAlgorithm

/-- The outcome with its words translated. -/
def Outcome.translate (word : Word → Word) : Outcome → Outcome
  | .cycle repeated => .cycle { repeated with word := word repeated.word }
  | outcome => outcome

/-- The report with its machine and its words translated. -/
def Report.translate (machine : Machine → Machine) (word : Word → Word) (report : Report) :
    Report where
  outcome := report.outcome.translate word
  machine := machine report.machine
  history := History.ofList (report.history.toList.map word)
  steps := report.steps

theorem Outcome.translate_id (outcome : Outcome) : outcome.translate id = outcome := by
  cases outcome <;> rfl

namespace Machine

/-- The report of a run is translated in its machine alone if the words stay. -/
theorem Stops.translate_id {settings : Settings} {machine : Machine} {report : Report}
    (stops : machine.Stops settings report) (translate : Machine → Machine) :
    report.translate translate id = { report with machine := translate report.machine } := by
  have sameHistory : History.ofList report.history.toList = report.history := by
    rw [stops.history_eq, History.toList_ofList]
  rw [Report.translate, Outcome.translate_id, List.map_id, sameHistory]

/-- A translation of the machines with given rules. -/
structure Translation (rules : List Rule) where
  machine : Machine → Machine
  word : Word → Word
  word_injective : Function.Injective word
  word_machine : ∀ source, (machine source).word = word source.word
  halted_machine : ∀ source, (machine source).halted = source.halted
  step_machine : ∀ source, source.rules = rules →
    (machine source).step = (source.step.1, machine source.step.2)

namespace Translation

variable {rules : List Rule} (translation : Translation rules) {source : Machine}
  (sameRules : source.rules = rules) {settings : Settings} {report : Report}

include sameRules

/-! ## Trajectories -/

theorem stepN_machine (count : Nat) :
    stepN count (translation.machine source) = translation.machine (stepN count source) := by
  induction count with
  | zero => rfl
  | succ count inductionHypothesis =>
      have rulesThere := (stepN_rules count source).trans sameRules
      rw [stepN_succ, inductionHypothesis, translation.step_machine _ rulesThere, ← stepN_succ]

theorem moves_machine (count : Nat) :
    (stepN count (translation.machine source)).step.1 = (stepN count source).step.1 := by
  have rulesThere := (stepN_rules count source).trans sameRules
  rw [translation.stepN_machine sameRules, translation.step_machine _ rulesThere]

theorem halted_stepN (count : Nat) :
    (stepN count (translation.machine source)).halted = (stepN count source).halted := by
  rw [translation.stepN_machine sameRules, translation.halted_machine]

theorem word_stepN (count : Nat) :
    (stepN count (translation.machine source)).word =
      translation.word (stepN count source).word := by
  rw [translation.stepN_machine sameRules, translation.word_machine]

theorem trajectory_machine (count : Nat) :
    (translation.machine source).trajectory count =
      (source.trajectory count).map translation.word := by
  simp [trajectory, translation.word_stepN sameRules]

theorem not_mem_trajectory_iff (first second : Nat) :
    (stepN first (translation.machine source)).word ∉
        (translation.machine source).trajectory second ↔
      (stepN first source).word ∉ source.trajectory second := by
  rw [translation.word_stepN sameRules, translation.trajectory_machine sameRules,
    List.mem_map_of_injective translation.word_injective]

theorem idxOf?_trajectory (first second : Nat) :
    ((translation.machine source).trajectory second).idxOf?
        (stepN first (translation.machine source)).word =
      (source.trajectory second).idxOf? (stepN first source).word := by
  rw [translation.word_stepN sameRules, translation.trajectory_machine sameRules, List.idxOf?,
    List.idxOf?, List.findIdx?_map]
  congr 1
  funext word
  simp [translation.word_injective.eq_iff]

/-! ## Stopping points -/

theorem advances_iff (index : Nat) :
    (translation.machine source).Advances settings index ↔ source.Advances settings index := by
  constructor
  · rintro ⟨within, moves, running, fresh⟩
    rw [translation.moves_machine sameRules] at moves
    rw [translation.halted_stepN sameRules] at running
    rw [translation.not_mem_trajectory_iff sameRules] at fresh
    exact ⟨within, moves, running, fresh⟩
  · rintro ⟨within, moves, running, fresh⟩
    rw [← translation.moves_machine sameRules] at moves
    rw [← translation.halted_stepN sameRules] at running
    rw [← translation.not_mem_trajectory_iff sameRules] at fresh
    exact ⟨within, moves, running, fresh⟩

theorem goesOn_iff (count : Nat) :
    (translation.machine source).GoesOn settings count ↔ source.GoesOn settings count :=
  forall₂_congr fun index _ => translation.advances_iff sameRules index

theorem reportAt_machine (steps : Nat) (outcome : Outcome) (final : Machine) :
    (translation.machine source).reportAt steps (outcome.translate translation.word)
        (translation.machine final) =
      (source.reportAt steps outcome final).translate translation.machine translation.word := by
  simp [reportAt, Report.translate, translation.trajectory_machine sameRules]

/-- The translated machine stops where the machine does. -/
theorem stops (stops : source.Stops settings report) :
    (translation.machine source).Stops settings
      (report.translate translation.machine translation.word) := by
  cases stops with
  | @limit steps goesOn exhausted =>
      rw [← translation.reportAt_machine sameRules, ← translation.stepN_machine sameRules]
      exact .limit ((translation.goesOn_iff sameRules steps).mpr goesOn) exhausted
  | @idle steps goesOn within halted =>
      rw [← translation.halted_stepN sameRules] at halted
      rw [← translation.reportAt_machine sameRules, ← translation.stepN_machine sameRules]
      exact .idle ((translation.goesOn_iff sameRules steps).mpr goesOn) within halted
  | @halted steps goesOn within running still =>
      rw [← translation.halted_stepN sameRules] at running
      rw [← translation.moves_machine sameRules] at still
      rw [← translation.reportAt_machine sameRules, ← translation.stepN_machine sameRules]
      exact .halted ((translation.goesOn_iff sameRules steps).mpr goesOn) within running still
  | @terminated steps goesOn within moves final =>
      rw [← translation.moves_machine sameRules] at moves
      rw [← translation.halted_stepN sameRules] at final
      rw [← translation.reportAt_machine sameRules, ← translation.stepN_machine sameRules]
      exact .terminated ((translation.goesOn_iff sameRules steps).mpr goesOn) within moves final
  | @cycle steps previous goesOn within moves running detects visited =>
      rw [← translation.moves_machine sameRules] at moves
      rw [← translation.halted_stepN sameRules] at running
      rw [← translation.idxOf?_trajectory sameRules] at visited
      rw [← translation.reportAt_machine sameRules, ← translation.stepN_machine sameRules]
      have listed := Stops.cycle ((translation.goesOn_iff sameRules steps).mpr goesOn) within moves
        running detects visited
      rw [translation.word_stepN sameRules] at listed
      exact listed

/-- The report on the translated machine is the translated report. -/
theorem run_machine (settings : Settings) (fuel : Nat) :
    run fuel settings (translation.machine source) =
      (run fuel settings source).map
        (Report.translate translation.machine translation.word) := by
  cases returned : run fuel settings source with
  | none =>
      rw [run_eq_none_iff, ← translation.goesOn_iff sameRules, ← run_eq_none_iff] at returned
      rw [returned]
      rfl
  | some report =>
      have stops := translation.stops sameRules (stops_of_run returned)
      cases translated : run fuel settings (translation.machine source) with
      | none =>
          rw [run_eq_none_iff, translation.goesOn_iff sameRules, ← run_eq_none_iff, returned]
            at translated
          contradiction
      | some other =>
          rw [(stops_of_run translated).unique stops]
          rfl

end Translation

end Machine

end MarkovAlgorithm
