import MarkovAlgorithm.Proofs.Run.Trajectory

/-!
# The repetition check of a run

A run that looks for repetitions and one that does not agree until the first
of them reports one.  From there on the other goes round in the same circle
forever, so it is the step limit alone that can end it.

The check is therefore sound, since a computation that ends by itself is never
cut short by it, and complete, since no repetition below the limit is missed.
A word that comes back through a terminal rule is no repetition.
-/

namespace MarkovAlgorithm

namespace Machine

variable {settings : Settings} {machine : Machine} {report : Report}

/-- The step behind `index` steps is a move, and one that does not end the
computation. -/
def Moving (machine : Machine) (index : Nat) : Prop :=
  (stepN index machine).step.1 = true ∧ (stepN (index + 1) machine).halted = false

theorem Advances.moving {index : Nat} (advances : machine.Advances settings index) :
    machine.Moving index :=
  ⟨advances.moves, advances.running⟩

/-- A machine that moves to a word it had before is the machine it was then. -/
theorem stepN_eq_of_repeat {first second : Nat} (ordered : first < second)
    (moving : ∀ index < second, machine.Moving index)
    (sameWord : (stepN first machine).word = (stepN second machine).word) :
    stepN first machine = stepN second machine := by
  have firstRunning := halted_eq_false_of_moves (moving first ordered).1
  have secondRunning : (stepN second machine).halted = false := by
    obtain ⟨count, rfl⟩ := Nat.exists_eq_succ_of_ne_zero (Nat.ne_zero_of_lt ordered)
    exact (moving count (Nat.lt_succ_self count)).2
  exact stepN_eq_of_word_eq (firstRunning.trans secondRunning.symm) sameWord

/-- A machine that comes back moves forever. -/
theorem moving_of_repeat {first second : Nat} (ordered : first < second)
    (moving : ∀ index < second, machine.Moving index)
    (repeated : stepN first machine = stepN second machine) (index : Nat) :
    machine.Moving index := by
  by_cases before : index < first
  · exact moving index (Nat.lt_trans before ordered)
  · have sameMachine := stepN_eq_stepN_mod ordered repeated (Nat.le_of_not_lt before)
    have remainder := Nat.mod_lt (index - first) (Nat.sub_pos_of_lt ordered)
    have inside : first + (index - first) % (second - first) < second := by omega
    obtain ⟨moves, running⟩ := moving _ inside
    rw [stepN_succ] at running
    constructor
    · rw [sameMachine]
      exact moves
    · rw [stepN_succ, sameMachine]
      exact running

/-! ## Two runs side by side -/

/-- A run that ignores repetitions advances as long as its machine moves and
the limit allows it. -/
theorem Moving.advances {index : Nat} (moving : machine.Moving index)
    (ignores : settings.detectCycles = false) (within : settings.exhaustedBy index = false) :
    machine.Advances settings index := by
  refine ⟨within, moving.1, moving.2, ?_⟩
  intro detects
  rw [ignores] at detects
  contradiction

theorem Advances.ignoring {index : Nat} (advances : machine.Advances settings index) :
    machine.Advances { settings with detectCycles := false } index :=
  advances.moving.advances rfl advances.within

theorem GoesOn.ignoring {count : Nat} (goesOn : machine.GoesOn settings count) :
    machine.GoesOn { settings with detectCycles := false } count :=
  fun index inside => (goesOn index inside).ignoring

/-- A report without a repetition does not depend on the check. -/
theorem Stops.ignoring (stops : machine.Stops settings report)
    (noCycle : ∀ cycle, report.outcome ≠ .cycle cycle) :
    machine.Stops { settings with detectCycles := false } report := by
  cases stops with
  | limit goesOn exhausted => exact .limit goesOn.ignoring exhausted
  | idle goesOn within halted => exact .idle goesOn.ignoring within halted
  | halted goesOn within running still => exact .halted goesOn.ignoring within running still
  | terminated goesOn within moves final => exact .terminated goesOn.ignoring within moves final
  | cycle _ _ _ _ _ _ => exact absurd rfl (noCycle _)

theorem stops_of_moving {limit : Nat} (ignores : settings.detectCycles = false)
    (limited : settings.stepLimit = some limit) (moving : ∀ index, machine.Moving index) :
    machine.Stops settings
      (machine.reportAt limit (.stepLimit limit) (stepN limit machine)) := by
  have goesOn : machine.GoesOn settings limit := by
    intro index inside
    exact (moving index).advances ignores (Settings.exhaustedBy_eq_false_of_lt limited inside)
  exact .limit goesOn (Settings.exhaustedBy_stepLimit limited)

/-- A machine that moves forever is never through, unless repetitions are
looked for or there is a limit. -/
theorem run_eq_none_of_moving (ignores : settings.detectCycles = false)
    (unlimited : settings.stepLimit = none) (moving : ∀ index, machine.Moving index)
    (fuel : Nat) : run fuel settings machine = none := by
  apply forall_run_eq_none_iff.mpr
  intro index
  exact (moving index).advances ignores
    (Settings.exhaustedBy_eq_false_of_unlimited unlimited index)

/-- Runs that ignore repetitions go round between the two visits of `cycle`,
repeating the given `visits`.  A limit is the only thing that ends them. -/
structure GoesRound (settings : Settings) (machine : Machine) (cycle : Cycle)
    (visits : List Word) : Prop where
  ordered : cycle.previousStep < cycle.step
  limited : ∀ limit fuel, ∃ longer,
    run fuel { settings with stepLimit := some limit, detectCycles := false } machine =
      some longer ∧
    longer.outcome = .stepLimit limit ∧ longer.history.size = limit + 1 ∧
    (cycle.step ≤ limit →
      longer.history.toList.take (cycle.step + 1) = visits ∧
      ∀ index, cycle.previousStep ≤ index → index ≤ limit →
        longer.history.get? index =
          visits[cycle.previousStep +
            (index - cycle.previousStep) % (cycle.step - cycle.previousStep)]?)
  unlimited : ∀ fuel,
    run fuel { settings with stepLimit := none, detectCycles := false } machine = none

/-- What a reported repetition says about the trajectory. -/
structure Circles (machine : Machine) (cycle : Cycle) : Prop where
  ordered : cycle.previousStep < cycle.step
  repeated : stepN cycle.previousStep machine = stepN cycle.step machine
  moving : ∀ index, machine.Moving index

theorem Stops.circles {cycle : Cycle} (stops : machine.Stops settings report)
    (reported : report.outcome = .cycle cycle) :
    cycle.step = report.steps ∧ machine.Circles cycle := by
  cases stops with
  | @cycle steps previous goesOn within moves running detects visited =>
      cases reported
      obtain ⟨⟨ordered, sameWord⟩, _⟩ := idxOf?_trajectory_eq_some_iff.mp visited
      have moving : ∀ index < steps + 1, machine.Moving index :=
        Nat.forall_lt_succ_right.mpr
          ⟨fun index earlier => (goesOn index earlier).moving, moves, running⟩
      have repeated := stepN_eq_of_repeat ordered moving sameWord
      exact ⟨rfl, ordered, repeated, moving_of_repeat ordered moving repeated⟩
  | _ => contradiction

/-- A run with a limit that ignores repetitions goes round until the limit. -/
theorem Circles.run_eq {cycle : Cycle} (circles : machine.Circles cycle) {limit : Nat}
    (ignores : settings.detectCycles = false) (limited : settings.stepLimit = some limit)
    (fuel : Nat) :
    run fuel settings machine =
      some (machine.reportAt limit (.stepLimit limit) (stepN limit machine)) :=
  (stops_of_moving ignores limited circles.moving).run_eq_of_limited limited fuel

/-- Behind the first visit the words of a circle come round and round. -/
theorem Circles.getElem?_trajectory {cycle : Cycle} (circles : machine.Circles cycle)
    {count index : Nat} (later : cycle.previousStep ≤ index) (inside : index < count) :
    (machine.trajectory count)[index]? =
      (machine.trajectory (cycle.step + 1))[cycle.previousStep +
        (index - cycle.previousStep) % (cycle.step - cycle.previousStep)]? := by
  have remainder := Nat.mod_lt (index - cycle.previousStep) (Nat.sub_pos_of_lt circles.ordered)
  have wrapped : cycle.previousStep +
      (index - cycle.previousStep) % (cycle.step - cycle.previousStep) < cycle.step + 1 := by
    have ordered := circles.ordered
    omega
  rw [Machine.getElem?_trajectory inside, Machine.getElem?_trajectory wrapped,
    stepN_eq_stepN_mod circles.ordered circles.repeated later]

/-- The runs that ignore repetitions go round in a circle of the trajectory. -/
theorem Circles.goesRound {cycle : Cycle} (circles : machine.Circles cycle) :
    machine.GoesRound settings cycle (machine.trajectory (cycle.step + 1)) := by
  refine ⟨circles.ordered, ?_, run_eq_none_of_moving rfl rfl circles.moving⟩
  intro limit fuel
  have visits : (machine.reportAt limit (.stepLimit limit)
      (stepN limit machine)).history.toList = machine.trajectory (limit + 1) :=
    History.toList_ofList _
  refine ⟨_, circles.run_eq rfl rfl fuel, rfl, ?_, ?_⟩
  · rw [History.size_eq_length, visits, length_trajectory]
  · intro reached
    rw [visits]
    refine ⟨take_trajectory (Nat.succ_le_succ reached), ?_⟩
    intro index later inside
    rw [History.get?_eq_getElem?, visits]
    exact circles.getElem?_trajectory later (Nat.lt_succ_of_le inside)

theorem Circles.not_nodup {cycle : Cycle} (circles : machine.Circles cycle) {count : Nat}
    (reached : cycle.step < count) : ¬(machine.trajectory count).Nodup := by
  intro distinct
  apply nodup_trajectory_iff.mp distinct cycle.step reached
  exact mem_trajectory.mpr
    ⟨cycle.previousStep, circles.ordered, congrArg Machine.word circles.repeated⟩

/-- A run that looks for repetitions finds one before the end of a circle, if its
limit allows it. -/
theorem Circles.exists_stops_cycle {circle : Cycle} (circles : machine.Circles circle)
    (detects : settings.detectCycles = true)
    (ample : ∀ limit, settings.stepLimit = some limit → circle.step ≤ limit) :
    ∃ report cycle, machine.Stops settings report ∧ report.outcome = .cycle cycle ∧
      report.steps ≤ circle.step := by
  rcases goesOn_or_exists_stops settings machine circle.step with goesOn | ⟨report, stops⟩
  · exact absurd (goesOn.nodup detects) (circles.not_nodup (Nat.lt_succ_self circle.step))
  · have moving := circles.moving
    cases stops with
    | @limit steps goesOn exhausted =>
        have reached := ample steps (goesOn.stepLimit_eq exhausted)
        exact absurd (goesOn.nodup detects) (circles.not_nodup (Nat.lt_succ_of_le reached))
    | @idle steps _ _ halted =>
        rw [halted_eq_false_of_moves (moving steps).1] at halted
        contradiction
    | @halted steps _ _ _ still =>
        rw [(moving steps).1] at still
        contradiction
    | @terminated steps _ _ _ final =>
        rw [(moving steps).2] at final
        contradiction
    | @cycle steps previous goesOn within moves running detects visited =>
        refine ⟨_, _, .cycle goesOn within moves running detects visited, rfl, ?_⟩
        by_contra passed
        exact circles.not_nodup (Nat.lt_of_not_le passed) (goesOn.nodup detects)

/-- A limit that is used up under the check means that no word came twice. -/
theorem Stops.nodup_of_stepLimit {count : Nat} (stops : machine.Stops settings report)
    (detects : settings.detectCycles = true) (reported : report.outcome = .stepLimit count) :
    report.history.toList.Nodup := by
  rw [stops.history_eq, History.toList_ofList]
  cases stops with
  | limit goesOn _ => exact goesOn.nodup detects
  | _ => contradiction

end Machine

/-- The repetition check is sound and complete.  Of two runs with the same
limit, one that looks for repetitions and one that ignores them, the first
reports a repetition exactly when the second uses up the limit and has visited
a word twice; otherwise their reports are the same.  A reported repetition
makes every run that ignores repetitions go round between its two visits. -/
theorem repetitionCheck_sound_and_complete (settings : Settings) (machine : Machine)
    (limit fuel : Nat) :
    ∃ watched ignored,
      run fuel { settings with stepLimit := some limit, detectCycles := true } machine =
        some watched ∧
      run fuel { settings with stepLimit := some limit, detectCycles := false } machine =
        some ignored ∧
      (ignored.outcome.isFinished = true → watched = ignored) ∧
      ((∃ cycle, watched.outcome = .cycle cycle) ↔
        ignored.outcome = .stepLimit limit ∧ ¬ignored.history.toList.Nodup) ∧
      (∀ cycle, watched.outcome = .cycle cycle →
        machine.GoesRound settings cycle watched.history.toList) ∧
      ((∀ cycle, watched.outcome ≠ .cycle cycle) → watched = ignored) := by
  obtain ⟨watched, watchedReturned⟩ := exists_run_eq_some
    (show ({ settings with stepLimit := some limit, detectCycles := true } :
      Settings).stepLimit = some limit from rfl) machine fuel
  obtain ⟨ignored, ignoredReturned⟩ := exists_run_eq_some
    (show ({ settings with stepLimit := some limit, detectCycles := false } :
      Settings).stepLimit = some limit from rfl) machine fuel
  have watchedStops := stops_of_run watchedReturned
  have ignoredStops := stops_of_run ignoredReturned
  have agree : (∀ cycle, watched.outcome ≠ .cycle cycle) → watched = ignored :=
    fun noCycle => (watchedStops.ignoring noCycle).unique ignoredStops
  have usesLimit : ∀ {cycle}, watched.outcome = .cycle cycle →
      ignored = machine.reportAt limit (.stepLimit limit) (Machine.stepN limit machine) := by
    intro cycle reported
    have circles := (watchedStops.circles reported).2
    exact Option.some.inj (ignoredReturned.symm.trans (circles.run_eq rfl rfl fuel))
  refine ⟨watched, ignored, watchedReturned, ignoredReturned, ?_, ?_, ?_, agree⟩
  · intro finished
    apply agree
    intro cycle reported
    rw [usesLimit reported] at finished
    contradiction
  · constructor
    · rintro ⟨cycle, reported⟩
      obtain ⟨stepEq, circles⟩ := watchedStops.circles reported
      have reached : cycle.step < limit + 1 := by
        rw [stepEq]
        exact Nat.lt_succ_of_le (watchedStops.le_stepLimit rfl)
      rw [ignoredStops.history_eq, History.toList_ofList, usesLimit reported]
      exact ⟨rfl, circles.not_nodup reached⟩
    · rintro ⟨limitReported, repeats⟩
      by_contra noCycle
      have sameReport := agree fun cycle reported => noCycle ⟨cycle, reported⟩
      rw [← sameReport] at limitReported repeats
      exact repeats (watchedStops.nodup_of_stepLimit rfl limitReported)
  · intro cycle reported
    obtain ⟨stepEq, circles⟩ := watchedStops.circles reported
    rw [watchedStops.history_eq, History.toList_ofList, ← stepEq]
    exact circles.goesRound

/-- Two rules that undo each other are caught after two moves.  A run that ignores
the repetition goes to and fro up to its limit, and does not end without one. -/
theorem repetitionCheck_sound_and_complete_swapping :
    ∃ watched,
      run 0 { stepLimit := some 5, detectCycles := true } Machine.swapping = some watched ∧
      watched.outcome = .cycle ⟨['a', 'b'], 2, 0⟩ ∧
      (∀ limit fuel, 2 ≤ limit → ∃ longer,
        run fuel { stepLimit := some limit, detectCycles := false } Machine.swapping =
          some longer ∧
        longer.outcome = .stepLimit limit ∧
        ∀ index ≤ limit, longer.history.get? index = [['a', 'b'], ['b', 'a']][index % 2]?) ∧
      ∀ fuel, run fuel { stepLimit := none, detectCycles := false } Machine.swapping = none := by
  obtain ⟨watched, _, returned, _, _, _, goesRound, _⟩ :=
    repetitionCheck_sound_and_complete {} Machine.swapping 5 0
  have reported : (some watched).map (fun report => (report.outcome, report.history.toList)) =
      some (.cycle ⟨['a', 'b'], 2, 0⟩, [['a', 'b'], ['b', 'a'], ['a', 'b']]) := by
    rw [← returned]
    decide
  obtain ⟨outcomeEq, visitsEq⟩ := Prod.mk.inj (Option.some.inj reported)
  have round := goesRound _ outcomeEq
  refine ⟨watched, returned, outcomeEq, ?_, round.unlimited⟩
  intro limit fuel reached
  obtain ⟨longer, longerReturned, usesLimit, _, periodic⟩ := round.limited limit fuel
  refine ⟨longer, longerReturned, usesLimit, ?_⟩
  intro index inside
  rw [(periodic reached).2 index (Nat.zero_le index) inside, visitsEq]
  rcases Nat.mod_two_eq_zero_or_one index with even | odd
  · simp [even]
  · simp [odd]

end MarkovAlgorithm
