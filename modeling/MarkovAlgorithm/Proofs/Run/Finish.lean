import MarkovAlgorithm.Proofs.Run.Trajectory

/-!
# Finished runs and halted machines

An outcome is finished when the algorithm came to an end by itself.  The final
machine of such a run has halted, and that of any other run has not, with one
exception: the limit is looked at before the machine.  A machine that had
halted before a run with limit zero is therefore reported as stopped by the
limit, although there was nothing left to stop.
-/

namespace MarkovAlgorithm

namespace Machine

variable {settings : Settings} {machine : Machine} {report : Report}

theorem Stops.outcome_eq_of_stepLimit_zero (stops : machine.Stops settings report)
    (limited : settings.stepLimit = some 0) : report.outcome = .stepLimit 0 := by
  have exhausted := Settings.exhaustedBy_stepLimit limited
  have atOnce := Stops.limit (machine.goesOn_zero settings) exhausted
  rw [stops.unique atOnce]
  rfl

theorem Stops.outcome_eq_of_halted (stops : machine.Stops settings report)
    (halted : machine.halted = true) (limited : settings.stepLimit ≠ some 0) :
    report.outcome = .alreadyTerminated := by
  have within : settings.exhaustedBy 0 = false := by
    rw [Settings.exhaustedBy_eq_false_iff]
    intro limit limitEq
    apply Nat.pos_of_ne_zero
    rintro rfl
    exact limited limitEq
  have atOnce := Stops.idle (machine.goesOn_zero settings) within halted
  rw [stops.unique atOnce]
  rfl

/-- The final machine has halted in a finished run, and also where a limit of
zero hides that it had halted before. -/
theorem Stops.machine_halted_iff (stops : machine.Stops settings report) :
    report.machine.halted = true ↔
      report.outcome.isFinished = true ∨
        settings.stepLimit = some 0 ∧ machine.halted = true := by
  cases stops with
  | @limit steps goesOn exhausted =>
      have limited := goesOn.stepLimit_eq exhausted
      cases steps with
      | zero => simp [reportAt, Outcome.isFinished, limited]
      | succ steps =>
          have running := goesOn.running (Nat.succ_le_succ (Nat.zero_le steps))
          simp [reportAt, Outcome.isFinished, limited, running]
  | idle _ _ halted => simp [reportAt, Outcome.isFinished, halted]
  | halted _ _ _ still =>
      simp [reportAt, Outcome.isFinished, stepN_succ, step_eq_of_not_moves still]
  | terminated _ _ _ final => simp [reportAt, Outcome.isFinished, final]
  | cycle _ within _ running _ _ =>
      have positive : settings.stepLimit ≠ some 0 := by
        intro limited
        exact Nat.not_lt_zero _ (Settings.exhaustedBy_eq_false_iff.mp within 0 limited)
      simp [reportAt, Outcome.isFinished, running, positive]

end Machine

/-- A run is reported as finished exactly when its final machine has halted,
unless a machine that had halted before is run with limit zero.  That case
apart, a limit is reported only for a machine that has not halted, and a
machine that had halted before is reported as such. -/
theorem isFinished_iff_halted_iff {fuel : Nat} {settings : Settings} {machine : Machine}
    {report : Report} (returned : run fuel settings machine = some report) :
    ((report.outcome.isFinished = true ↔ report.machine.halted = true) ↔
      ¬(settings.stepLimit = some 0 ∧ machine.halted = true)) ∧
    (∀ count, report.outcome = .stepLimit count →
      (report.machine.halted = false ↔
        ¬(settings.stepLimit = some 0 ∧ machine.halted = true))) ∧
    (machine.halted = true →
      (report.outcome = .alreadyTerminated ↔ settings.stepLimit ≠ some 0)) := by
  have stops := stops_of_run returned
  have haltedIff := stops.machine_halted_iff
  refine ⟨?_, ?_, ?_⟩
  · constructor
    · rintro agree ⟨limited, halted⟩
      have finished := agree.mpr (haltedIff.mpr (.inr ⟨limited, halted⟩))
      rw [stops.outcome_eq_of_stepLimit_zero limited] at finished
      contradiction
    · intro ordinary
      rw [haltedIff, or_iff_left ordinary]
  · intro count reported
    rw [reported] at haltedIff
    rw [← Bool.not_eq_true, haltedIff]
    simp [Outcome.isFinished]
  · intro halted
    constructor
    · intro reported limited
      rw [stops.outcome_eq_of_stepLimit_zero limited] at reported
      contradiction
    · exact stops.outcome_eq_of_halted halted

/-- A halted machine without rules under a limit of one step. -/
theorem isFinished_iff_halted_iff_idle :
    ∃ report, run 0 { stepLimit := some 1 } ⟨[], [], [], true⟩ = some report ∧
      (report.outcome.isFinished = true ↔ report.machine.halted = true) ∧
      report.outcome = .alreadyTerminated := by
  have agree := isFinished_iff_halted_iff
    (show run 0 { stepLimit := some 1 } ⟨[], [], [], true⟩ = some _ from rfl)
  exact ⟨_, rfl, agree.1.mpr (by decide), (agree.2.2 rfl).mpr (by decide)⟩

/-- A limit of zero is reported for a machine that has halted. -/
theorem stepLimit_reported_for_halted :
    ∃ report, run 0 { stepLimit := some 0 } ⟨[], [], [], true⟩ = some report ∧
      report.outcome = .stepLimit 0 ∧ report.outcome.isFinished = false ∧
      report.machine.halted = true :=
  ⟨_, rfl, rfl, rfl, rfl⟩

end MarkovAlgorithm
