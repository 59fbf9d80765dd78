import MarkovAlgorithm.Proofs.Run.Stop

/-!
# A run is its machine's trajectory, cut where it stops

The report of a run is described by the trajectory of the machine alone.  With
`steps` moves in the report, its history holds the first `steps + 1` words, the
machine has moved at each of the earlier ones, and which outcome is reported
follows from where the trajectory stands then: `Machine.EndsWith` says when,
and the conditions of different outcomes exclude each other.
-/

namespace MarkovAlgorithm

namespace Machine

/-- The condition of each outcome of a run of `steps` moves.  A machine that
has halted is told apart from one that had halted before by whether there were
moves, and the limit is reported only where no other outcome takes
precedence. -/
def EndsWith (settings : Settings) (machine : Machine) (steps : Nat) : Outcome → Prop
  | .terminated => 1 ≤ steps ∧ (stepN steps machine).halted = true
  | .halted =>
      (∀ limit, settings.stepLimit = some limit → steps < limit) ∧
        (stepN steps machine).halted = false ∧
        ∀ rule ∈ machine.rules, rule.applies (stepN steps machine).word = false
  | .alreadyTerminated =>
      steps = 0 ∧ (∀ limit, settings.stepLimit = some limit → 0 < limit) ∧
        machine.halted = true
  | .cycle cycle =>
      settings.detectCycles = true ∧ 1 ≤ steps ∧ (stepN steps machine).halted = false ∧
        cycle.word = (stepN steps machine).word ∧ cycle.step = steps ∧
        IsLeast {index | index < steps ∧ (stepN index machine).word = cycle.word}
          cycle.previousStep
  | .stepLimit count =>
      settings.stepLimit = some count ∧ steps = count ∧
        (1 ≤ steps → (stepN steps machine).halted = false) ∧
        (settings.detectCycles = true →
          (stepN steps machine).word ∉ machine.trajectory steps)

end Machine

/-- A report that describes the trajectory of a machine up to where it stops. -/
structure Report.FollowsTrajectory (report : Report) (settings : Settings)
    (machine : Machine) : Prop where
  /-- The limit is kept. -/
  withinLimit : ∀ limit, settings.stepLimit = some limit → report.steps ≤ limit
  /-- The history holds the words up to the last one. -/
  visits : report.history.toList = machine.trajectory (report.steps + 1)
  /-- Every counted step moved. -/
  moves : ∀ index < report.steps, (Machine.stepN index machine).halted = false ∧
    (Machine.stepN index machine).step.1 = true
  /-- Where repetitions are looked for, there is none before the last word. -/
  distinct : settings.detectCycles = true → (machine.trajectory report.steps).Nodup
  /-- The outcome is the one whose condition holds. -/
  outcome_iff : ∀ outcome, report.outcome = outcome ↔
    machine.EndsWith settings report.steps outcome
  /-- The last machine is reported, and a machine that halts after its last
  move is reported as halted. -/
  final : report.machine =
    if report.outcome = .halted then
      Machine.stepN (report.steps + 1) machine
    else
      Machine.stepN report.steps machine
  /-- Halting changes nothing else. -/
  haltedFinal : report.outcome = .halted →
    report.machine = { Machine.stepN report.steps machine with halted := true }

namespace Machine

variable {settings : Settings} {machine : Machine} {report : Report} {count : Nat}

/-! ## What plain moves leave behind -/

theorem GoesOn.running (goesOn : machine.GoesOn settings count) (moved : 1 ≤ count) :
    (stepN count machine).halted = false := by
  obtain ⟨count, rfl⟩ := Nat.exists_eq_succ_of_ne_zero (Nat.one_le_iff_ne_zero.mp moved)
  exact (goesOn count (Nat.lt_succ_self count)).running

/-- Plain moves visit different words if repetitions are looked for. -/
theorem GoesOn.nodup (goesOn : machine.GoesOn settings count)
    (detects : settings.detectCycles = true) : (machine.trajectory (count + 1)).Nodup := by
  rw [nodup_trajectory_iff]
  intro index inside
  cases index with
  | zero => simp [trajectory]
  | succ index => exact (goesOn index (Nat.lt_of_succ_lt_succ inside)).fresh detects

theorem idxOf?_trajectory_eq_some_iff {word : Word} {index : Nat} :
    (machine.trajectory count).idxOf? word = some index ↔
      IsLeast {number | number < count ∧ (stepN number machine).word = word} index := by
  have sameNumbers :
      {number | (History.ofList (machine.trajectory count)).get? number = some word} =
        {number | number < count ∧ (stepN number machine).word = word} := by
    ext number
    simp [History.get?_eq_getElem?, trajectory, List.getElem?_eq_some_iff]
  rw [← sameNumbers, ← History.firstVisit?_eq_some_iff, History.firstVisit?_eq_idxOf?,
    History.toList_ofList]

/-! ## One outcome for each stopping point -/

theorem EndsWith.mem_trajectory {steps : Nat} {cycle : Cycle}
    (ends : machine.EndsWith settings steps (.cycle cycle)) :
    (stepN steps machine).word ∈ machine.trajectory steps := by
  obtain ⟨_, _, _, wordEq, _, ⟨earlier, sameWord⟩, _⟩ := ends
  exact Machine.mem_trajectory.mpr ⟨cycle.previousStep, earlier, sameWord.trans wordEq⟩

theorem exists_applies_of_mem_trajectory {steps : Nat} {word : Word}
    (moves : ∀ index < steps, (stepN index machine).step.1 = true)
    (visited : word ∈ machine.trajectory steps) :
    ∃ rule ∈ machine.rules, rule.applies word = true := by
  obtain ⟨index, inside, rfl⟩ := mem_trajectory.mp visited
  have applies := ((step_moves_iff _).mp (moves index inside)).2
  rwa [stepN_rules] at applies

/-- A repetition is determined by the trajectory. -/
theorem EndsWith.cycle_eq {steps : Nat} {first second : Cycle}
    (firstEnds : machine.EndsWith settings steps (.cycle first))
    (secondEnds : machine.EndsWith settings steps (.cycle second)) : first = second := by
  obtain ⟨_, _, _, firstWord, firstStep, firstLeast⟩ := firstEnds
  obtain ⟨_, _, _, secondWord, secondStep, secondLeast⟩ := secondEnds
  rw [firstWord] at firstLeast
  rw [secondWord] at secondLeast
  have samePrevious := firstLeast.unique secondLeast
  rcases first with ⟨firstVisited, firstNumber, firstPrevious⟩
  rcases second with ⟨secondVisited, secondNumber, secondPrevious⟩
  simp_all

/-- The conditions of different outcomes exclude each other. -/
theorem EndsWith.unique {steps : Nat} {first second : Outcome}
    (moves : ∀ index < steps, (stepN index machine).step.1 = true)
    (firstEnds : machine.EndsWith settings steps first)
    (secondEnds : machine.EndsWith settings steps second) : first = second := by
  -- halting and a repetition exclude each other because the repeated word has been left before
  have repeatApplies : (stepN steps machine).word ∈ machine.trajectory steps →
      ∃ rule ∈ machine.rules, rule.applies (stepN steps machine).word = true :=
    exists_applies_of_mem_trajectory moves
  cases first with
  | terminated => cases second <;> simp only [EndsWith] at firstEnds secondEnds <;> grind
  | halted =>
      cases second with
      | cycle =>
          have applies := repeatApplies secondEnds.mem_trajectory
          simp only [EndsWith] at firstEnds
          grind
      | _ =>
          simp only [EndsWith] at firstEnds secondEnds
          grind [stepN_zero]
  | alreadyTerminated =>
      cases second <;> simp only [EndsWith] at firstEnds secondEnds <;> grind [stepN_zero]
  | cycle =>
      have visited := firstEnds.mem_trajectory
      cases second with
      | cycle => rw [firstEnds.cycle_eq secondEnds]
      | _ =>
          simp only [EndsWith] at firstEnds secondEnds
          grind
  | stepLimit =>
      cases second with
      | cycle => exact absurd secondEnds.mem_trajectory (firstEnds.2.2.2 secondEnds.1)
      | _ =>
          simp only [EndsWith] at firstEnds secondEnds
          grind

/-! ## The report of a run -/

theorem Stops.le_stepLimit (stops : machine.Stops settings report) {limit : Nat}
    (limited : settings.stepLimit = some limit) : report.steps ≤ limit := by
  cases stops with
  | limit goesOn _ => exact goesOn.le_stepLimit limited
  | idle goesOn _ _ => exact goesOn.le_stepLimit limited
  | halted goesOn _ _ _ => exact goesOn.le_stepLimit limited
  | terminated _ within _ _ =>
      exact Settings.exhaustedBy_eq_false_iff.mp within limit limited
  | cycle _ within _ _ _ _ =>
      exact Settings.exhaustedBy_eq_false_iff.mp within limit limited

theorem Stops.history_eq (stops : machine.Stops settings report) :
    report.history = History.ofList (machine.trajectory (report.steps + 1)) := by
  cases stops <;> rfl

theorem Stops.moves (stops : machine.Stops settings report) :
    ∀ index < report.steps, (stepN index machine).step.1 = true := by
  have plain : ∀ {steps : Nat}, machine.GoesOn settings steps →
      ∀ index < steps, (stepN index machine).step.1 = true :=
    fun goesOn index inside => (goesOn index inside).moves
  cases stops with
  | limit goesOn _ => exact plain goesOn
  | idle goesOn _ _ => exact plain goesOn
  | halted goesOn _ _ _ => exact plain goesOn
  | terminated goesOn _ lastMoves _ =>
      exact Nat.forall_lt_succ_right.mpr ⟨plain goesOn, lastMoves⟩
  | cycle goesOn _ lastMoves _ _ _ =>
      exact Nat.forall_lt_succ_right.mpr ⟨plain goesOn, lastMoves⟩

/-- No repetition is passed by a run that looks for them. -/
theorem Stops.nodup (stops : machine.Stops settings report)
    (detects : settings.detectCycles = true) : (machine.trajectory report.steps).Nodup := by
  have shorter : ∀ {steps : Nat}, (machine.trajectory (steps + 1)).Nodup →
      (machine.trajectory steps).Nodup := by
    intro steps distinct
    rw [trajectory_succ] at distinct
    exact distinct.of_append_left
  cases stops with
  | limit goesOn _ => exact shorter (goesOn.nodup detects)
  | idle goesOn _ _ => exact shorter (goesOn.nodup detects)
  | halted goesOn _ _ _ => exact shorter (goesOn.nodup detects)
  | terminated goesOn _ _ _ => exact goesOn.nodup detects
  | cycle goesOn _ _ _ _ _ => exact goesOn.nodup detects

/-- The outcome of a run meets its condition. -/
theorem Stops.endsWith (stops : machine.Stops settings report) :
    machine.EndsWith settings report.steps report.outcome := by
  cases stops with
  | @limit steps goesOn exhausted =>
      refine ⟨goesOn.stepLimit_eq exhausted, rfl, goesOn.running, ?_⟩
      intro detects
      exact nodup_trajectory_iff.mp (goesOn.nodup detects) steps (Nat.lt_succ_self steps)
  | @idle steps goesOn within halted =>
      have noMoves : steps = 0 := by
        by_contra moved
        have running := goesOn.running (Nat.one_le_iff_ne_zero.mpr moved)
        rw [halted] at running
        contradiction
      subst noMoves
      exact ⟨rfl, Settings.exhaustedBy_eq_false_iff.mp within, halted⟩
  | @halted steps goesOn within running still =>
      refine ⟨Settings.exhaustedBy_eq_false_iff.mp within, running, ?_⟩
      intro rule ruleMem
      rw [← Bool.not_eq_true]
      intro ruleApplies
      have moves : (stepN steps machine).step.1 = true := by
        rw [step_moves_iff, stepN_rules]
        exact ⟨running, rule, ruleMem, ruleApplies⟩
      rw [still] at moves
      contradiction
  | @terminated steps goesOn within moves final => exact ⟨Nat.succ_le_succ (Nat.zero_le _), final⟩
  | @cycle steps previous goesOn within moves running detects visited =>
      exact ⟨detects, Nat.succ_le_succ (Nat.zero_le _), running, rfl, rfl,
        idxOf?_trajectory_eq_some_iff.mp visited⟩

/-- The final machine ends the trajectory. -/
theorem Stops.machine_eq (stops : machine.Stops settings report) :
    report.machine =
      if report.outcome = .halted then
        stepN (report.steps + 1) machine
      else
        stepN report.steps machine := by
  cases stops <;> rfl

theorem Stops.machine_eq_of_halted (stops : machine.Stops settings report)
    (halts : report.outcome = .halted) :
    report.machine = { stepN report.steps machine with halted := true } := by
  cases stops with
  | halted _ _ _ still => exact (stepN_succ _ machine).trans (step_eq_of_not_moves still)
  | _ => contradiction

end Machine

open Machine (stepN)

/-- A run is the trajectory of its machine, cut at the first stopping point.
It has a report whenever it has a step limit; without one it fails to have a
report exactly when its machine goes on forever. -/
theorem run_followsTrajectory (settings : Settings) (machine : Machine) :
    (∀ fuel report, run fuel settings machine = some report →
      report.FollowsTrajectory settings machine) ∧
    (settings.stepLimit ≠ none → ∀ fuel, ∃ report, run fuel settings machine = some report) ∧
    ((∀ fuel, run fuel settings machine = none) ↔
      settings.stepLimit = none ∧
        ∀ index, (stepN index machine).step.1 = true ∧
          (stepN (index + 1) machine).halted = false ∧
          (settings.detectCycles = true →
            (stepN (index + 1) machine).word ∉ machine.trajectory (index + 1))) := by
  refine ⟨?_, ?_, ?_⟩
  · intro fuel report returned
    have stops := stops_of_run returned
    have moves := stops.moves
    exact {
      withinLimit := fun limit limited => stops.le_stepLimit limited
      visits := by rw [stops.history_eq, History.toList_ofList]
      moves := fun index inside =>
        ⟨Machine.halted_eq_false_of_moves (moves index inside), moves index inside⟩
      distinct := stops.nodup
      outcome_iff := fun outcome =>
        ⟨fun outcomeEq => outcomeEq ▸ stops.endsWith, stops.endsWith.unique moves⟩
      final := stops.machine_eq
      haltedFinal := stops.machine_eq_of_halted }
  · intro limited fuel
    obtain ⟨limit, limitEq⟩ := Option.ne_none_iff_exists'.mp limited
    exact exists_run_eq_some limitEq machine fuel
  · rw [forall_run_eq_none_iff]
    constructor
    · intro forever
      refine ⟨?_, fun index => ⟨(forever index).moves, (forever index).running,
        (forever index).fresh⟩⟩
      by_contra limited
      obtain ⟨limit, limitEq⟩ := Option.ne_none_iff_exists'.mp limited
      have within := Settings.exhaustedBy_eq_false_iff.mp (forever limit).within limit limitEq
      exact Nat.lt_irrefl limit within
    · rintro ⟨unlimited, goesOn⟩ index
      obtain ⟨moves, running, fresh⟩ := goesOn index
      have within : settings.exhaustedBy index = false := by
        rw [Settings.exhaustedBy_eq_false_iff, unlimited]
        simp
      exact ⟨within, moves, running, fresh⟩

/-- Two rules that undo each other, started at `ab`. -/
def Machine.swapping : Machine :=
  (ofRules [⟨['a', 'b'], ['b', 'a'], false⟩, ⟨['b', 'a'], ['a', 'b'], false⟩]).restart ['a', 'b']

/-- Swapping twice leads back to the first word. -/
theorem run_followsTrajectory_swapping :
    ∃ report, run 0 { stepLimit := some 5 } Machine.swapping = some report ∧
      report.outcome = .cycle ⟨['a', 'b'], 2, 0⟩ ∧
      report.FollowsTrajectory { stepLimit := some 5 } Machine.swapping := by
  have follows := run_followsTrajectory { stepLimit := some 5 } Machine.swapping
  obtain ⟨report, returned⟩ := follows.2.1 (by decide) 0
  have outcomes : (some report).map Report.outcome = some (.cycle ⟨['a', 'b'], 2, 0⟩) := by
    rw [← returned]
    decide
  exact ⟨report, returned, Option.some.inj outcomes, follows.1 0 report returned⟩

end MarkovAlgorithm
