import MarkovAlgorithm.Proofs.Run.Limit

/-!
# Resuming a run

A run that was cut off by its limit can be resumed at the machine it reports.
Where repetitions are ignored, the two runs together are one run under the sum
of the two limits: its moves add up, and its history is the first one continued
by the second, whose first visit is the last one of the first.

This rests on repetitions being ignored.  A resumed run starts with a history of
its own, so it cannot recognise a word that was visited before it was cut off.
-/

namespace MarkovAlgorithm

/-- The outcome of a run with moves in front of it: only a limit counts them. -/
def Outcome.behind (moves : Nat) : Outcome → Outcome
  | .stepLimit steps => .stepLimit (moves + steps)
  | outcome => outcome

/-- The report on a run that was cut off and then resumed. -/
def Report.resumedBy (first second : Report) : Report where
  outcome := second.outcome.behind first.steps
  machine := second.machine
  history := History.ofList (first.history.toList ++ second.history.toList.tail)
  steps := first.steps + second.steps

namespace Settings

/-- The settings with the limit of a run and the limit of its continuation
added. -/
def extendedBy (settings : Settings) (first : Nat) : Settings :=
  { settings with stepLimit := settings.stepLimit.map (first + ·) }

/-- Behind the moves in front the limit of the continuation decides. -/
theorem exhaustedBy_extendedBy (settings : Settings) (first moves : Nat) :
    (settings.extendedBy first).exhaustedBy (first + moves) = settings.exhaustedBy moves := by
  cases limited : settings.stepLimit <;> simp [extendedBy, exhaustedBy, limited]

theorem exhaustedBy_extendedBy_of_lt (settings : Settings) {first moves : Nat}
    (inside : moves < first) : (settings.extendedBy first).exhaustedBy moves = false := by
  rw [exhaustedBy_eq_false_iff]
  intro limit limited
  obtain ⟨bound, _, rfl⟩ := Option.map_eq_some_iff.mp limited
  exact Nat.lt_of_lt_of_le inside (Nat.le_add_right first bound)

end Settings

namespace Machine

variable {settings : Settings} {machine : Machine} {report : Report} {first second : Nat}

/-! ## Trajectories that continue -/

/-- A trajectory continues from each of its machines. -/
theorem trajectory_add (machine : Machine) (first second : Nat) :
    machine.trajectory (first + second) =
      machine.trajectory first ++ (stepN first machine).trajectory second := by
  simp [trajectory, List.range_add, stepN_add]

theorem tail_trajectory_succ (machine : Machine) (count : Nat) :
    (machine.trajectory (count + 1)).tail = machine.step.2.trajectory count := by
  rw [Nat.add_comm, trajectory_add]
  rfl

/-- The word at which a trajectory is continued is counted once. -/
theorem trajectory_add_succ (machine : Machine) (first second : Nat) :
    machine.trajectory (first + second + 1) =
      machine.trajectory (first + 1) ++ ((stepN first machine).trajectory (second + 1)).tail := by
  rw [tail_trajectory_succ, ← stepN_succ, ← trajectory_add, Nat.add_right_comm]

theorem moving_stepN_iff {index : Nat} :
    (stepN first machine).Moving index ↔ machine.Moving (first + index) := by
  rw [Moving, Moving, ← stepN_add, ← stepN_add, Nat.add_assoc]

/-! ## Runs that continue -/

/-- Plain moves of the machine that was reported come behind the moves that led
to it. -/
theorem GoesOn.resume (moving : ∀ index < first, machine.Moving index)
    (ignores : settings.detectCycles = false)
    (goesOn : (stepN first machine).GoesOn settings second) :
    machine.GoesOn (settings.extendedBy first) (first + second) := by
  intro index inside
  by_cases before : index < first
  · have within := settings.exhaustedBy_extendedBy_of_lt before
    exact (moving index before).advances ignores within
  · obtain ⟨offset, rfl⟩ := Nat.exists_eq_add_of_le (Nat.le_of_not_lt before)
    have advances := goesOn offset (by omega)
    have within : (settings.extendedBy first).exhaustedBy (first + offset) = false := by
      rw [Settings.exhaustedBy_extendedBy, advances.within]
    exact (moving_stepN_iff.mp advances.moving).advances ignores within

/-- The report on the resumed run in terms of one trajectory. -/
theorem resumedBy_reportAt (machine final : Machine) (first second : Nat)
    (cutOff outcome : Outcome) (reached : Machine) :
    (machine.reportAt first cutOff reached).resumedBy
        ((stepN first machine).reportAt second outcome final) =
      machine.reportAt (first + second) (outcome.behind first) final := by
  simp [Report.resumedBy, reportAt, trajectory_add_succ]

/-- The stopping point of the resumed run is that of the whole run. -/
theorem Stops.resume (moving : ∀ index < first, machine.Moving index)
    (ignores : settings.detectCycles = false)
    (stops : (stepN first machine).Stops settings report) (cutOff : Outcome) (reached : Machine) :
    machine.Stops (settings.extendedBy first)
      ((machine.reportAt first cutOff reached).resumedBy report) := by
  have within : ∀ {moves}, settings.exhaustedBy moves = false →
      (settings.extendedBy first).exhaustedBy (first + moves) = false := by
    intro moves allowed
    rw [Settings.exhaustedBy_extendedBy, allowed]
  cases stops with
  | @limit steps goesOn exhausted =>
      rw [resumedBy_reportAt, ← stepN_add]
      apply Stops.limit (goesOn.resume moving ignores)
      rw [Settings.exhaustedBy_extendedBy, exhausted]
  | @idle steps goesOn allowed halted =>
      rw [← stepN_add] at halted
      rw [resumedBy_reportAt, ← stepN_add]
      exact .idle (goesOn.resume moving ignores) (within allowed) halted
  | @halted steps goesOn allowed running still =>
      rw [← stepN_add] at running still
      rw [resumedBy_reportAt, ← stepN_add]
      exact .halted (goesOn.resume moving ignores) (within allowed) running still
  | @terminated steps goesOn allowed moves final =>
      rw [← stepN_add] at moves final
      rw [resumedBy_reportAt, ← stepN_add]
      exact .terminated (goesOn.resume moving ignores) (within allowed) moves final
  | cycle _ _ _ _ detects _ =>
      rw [ignores] at detects
      contradiction

end Machine

/-- A run that ignores repetitions can be cut off and resumed.  If the run under the
limit `first` is cut off, and the machine that it reports is run on under the limit
`second`, or without a limit, then the run under both limits together is reported as
the first run continued by the second. -/
theorem run_resumed (settings : Settings) {machine : Machine} {first : Nat}
    (second : Option Nat) {fuel secondFuel : Nat} {cutOff resumed : Report}
    (begun : run fuel { settings with stepLimit := some first, detectCycles := false } machine =
      some cutOff)
    (limited : cutOff.outcome = .stepLimit first)
    (continued : run secondFuel { settings with stepLimit := second, detectCycles := false }
      cutOff.machine = some resumed)
    {wholeFuel : Nat} (enough : second = none → first + resumed.steps < wholeFuel) :
    run wholeFuel
        { settings with stepLimit := second.map (first + ·), detectCycles := false } machine =
      some (cutOff.resumedBy resumed) := by
  have firstStops := stops_of_run begun
  have moving : ∀ index < first, machine.Moving index := by
    obtain ⟨_, _, goesOn⟩ := firstStops.goesOn_of_stepLimit limited
    exact fun index inside => (goesOn index inside).moving
  cases firstStops with
  | limit _ _ =>
      cases limited
      apply ((stops_of_run continued).resume moving rfl _ _).run_eq_of_ample
      intro unlimited
      exact enough (Option.map_eq_none_iff.mp unlimited)
  | _ => contradiction

/-- Two letters are replaced by one move each.  Two runs under a limit of one move
are one run under a limit of two. -/
theorem run_resumed_relabelling :
    ∃ cutOff resumed,
      run 0 { stepLimit := some 1, detectCycles := false } Machine.relabelling = some cutOff ∧
      cutOff.outcome = .stepLimit 1 ∧
      run 0 { stepLimit := some 1, detectCycles := false } cutOff.machine = some resumed ∧
      run 0 { stepLimit := some 2, detectCycles := false } Machine.relabelling =
        some (cutOff.resumedBy resumed) ∧
      (cutOff.resumedBy resumed).outcome = .stepLimit 2 := by
  obtain ⟨cutOff, begun⟩ := exists_run_eq_some
    (show ({ stepLimit := some 1, detectCycles := false } : Settings).stepLimit = some 1 from rfl)
    Machine.relabelling 0
  obtain ⟨resumed, continued⟩ := exists_run_eq_some
    (show ({ stepLimit := some 1, detectCycles := false } : Settings).stepLimit = some 1 from rfl)
    cutOff.machine 0
  have limited : (some cutOff).map Report.outcome = some (.stepLimit 1) := by
    rw [← begun]
    decide
  have whole := run_resumed {} (some 1) begun (Option.some.inj limited) continued
    (show some 1 = none → 1 + resumed.steps < 0 by simp)
  have wholeLimited : (some (cutOff.resumedBy resumed)).map Report.outcome =
      some (.stepLimit 2) := by
    rw [← whole]
    decide
  exact ⟨cutOff, resumed, begun, Option.some.inj limited, continued, whole,
    Option.some.inj wholeLimited⟩

end MarkovAlgorithm
