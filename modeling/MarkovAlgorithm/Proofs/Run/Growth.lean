import MarkovAlgorithm.Proofs.Run.Limit

/-!
# Runs of programs that grow

If every rule puts in more than it takes out, each move leads to a longer word,
so no word comes back.  If no rule is terminal either, a run ends only where no
rule applies or where its limit is used up.  A rule with the empty pattern
applies everywhere, and then it is the limit alone that ends the run.

Growth is a matter of single moves.  It is carried along the trajectory, whose
words therefore get longer and longer.
-/

namespace MarkovAlgorithm

namespace Machine

/-- No rule is terminal, and each puts in more than it takes out. -/
def Growing (machine : Machine) : Prop :=
  ∀ rule ∈ machine.rules,
    rule.terminal = false ∧ rule.pattern.length < rule.replacement.length

variable {machine : Machine} {settings : Settings} {report : Report} {count : Nat}

/-! ## Moves that grow -/

/-- A move leads to a longer word and leaves the machine running. -/
theorem Growing.step {next : Machine} (growing : machine.Growing)
    (moves : machine.step = (true, next)) :
    machine.word.length < next.word.length ∧ next.halted = false := by
  obtain ⟨rule, inRules, before, after, cuts, rfl⟩ := exists_cutsLeftmost_of_moves moves
  obtain ⟨ordinary, lengthens⟩ := growing rule inRules
  refine ⟨?_, ordinary⟩
  rw [cuts.occurs]
  simp only [List.length_append]
  omega

theorem growing_stepN (growing : machine.Growing) (count : Nat) :
    (stepN count machine).Growing := by
  rw [Growing, stepN_rules]
  exact growing

theorem Growing.step_stepN (growing : machine.Growing)
    (moves : (stepN count machine).step.1 = true) :
    (stepN count machine).word.length < (stepN (count + 1) machine).word.length ∧
      (stepN (count + 1) machine).halted = false :=
  (growing_stepN growing count).step (step_stepN_eq moves)

theorem Growing.running (growing : machine.Growing) (running : machine.halted = false)
    (moves : ∀ index < count, (stepN index machine).step.1 = true) :
    (stepN count machine).halted = false := by
  cases count with
  | zero => exact running
  | succ count => exact (growing.step_stepN (moves count (Nat.lt_succ_self count))).2

/-- Later words are longer. -/
theorem Growing.length_lt_length (growing : machine.Growing) {first second : Nat}
    (ordered : first < second)
    (moves : ∀ index < second, (stepN index machine).step.1 = true) :
    (stepN first machine).word.length < (stepN second machine).word.length := by
  induction second, ordered using Nat.le_induction with
  | base => exact (growing.step_stepN (moves first (Nat.lt_succ_self first))).1
  | succ second _ inductionHypothesis =>
      have shorter := inductionHypothesis fun index inside =>
        moves index (Nat.lt_succ_of_lt inside)
      have oneMore := (growing.step_stepN (moves second (Nat.lt_succ_self second))).1
      exact Nat.lt_trans shorter oneMore

/-- Each word of a trajectory is longer than all words before it. -/
theorem Growing.pairwise_trajectory (growing : machine.Growing)
    (moves : ∀ index < count, (stepN index machine).step.1 = true) :
    (machine.trajectory (count + 1)).Pairwise
      fun earlier later => earlier.length < later.length := by
  rw [trajectory, List.pairwise_map]
  apply List.pairwise_lt_range.imp_of_mem
  intro first second _ inside ordered
  apply growing.length_lt_length ordered
  intro index before
  have visited := List.mem_range.mp inside
  exact moves index (by omega)

theorem Growing.nodup_trajectory (growing : machine.Growing)
    (moves : ∀ index < count, (stepN index machine).step.1 = true) :
    (machine.trajectory (count + 1)).Nodup := by
  apply (growing.pairwise_trajectory moves).imp
  rintro earlier later shorter rfl
  exact Nat.lt_irrefl _ shorter

/-! ## Where a growing run ends -/

/-- A run ends where no rule applies, or where its limit is used up. -/
theorem Growing.outcome_of_stops (growing : machine.Growing) (running : machine.halted = false)
    (stops : machine.Stops settings report) :
    report.outcome = .halted ∨
      ∃ limit, settings.stepLimit = some limit ∧ report.outcome = .stepLimit limit := by
  have ends := stops.endsWith
  cases reported : report.outcome with
  | terminated =>
      rw [reported] at ends
      have final := ends.2
      rw [growing.running running stops.moves] at final
      contradiction
  | halted => exact .inl rfl
  | alreadyTerminated =>
      rw [reported] at ends
      have halted := ends.2.2
      rw [running] at halted
      contradiction
  | cycle cycle =>
      rw [reported] at ends
      obtain ⟨index, earlier, sameWord⟩ := mem_trajectory.mp ends.mem_trajectory
      have shorter := growing.length_lt_length earlier stops.moves
      rw [sameWord] at shorter
      exact absurd shorter (Nat.lt_irrefl _)
  | stepLimit limit =>
      rw [reported] at ends
      exact .inr ⟨limit, ends.1, rfl⟩

/-! ## A rule that applies everywhere -/

section Everywhere

variable {rule : Rule} (growing : machine.Growing) (running : machine.halted = false)
  (inRules : rule ∈ machine.rules) (everywhere : rule.pattern = [])

include growing inRules everywhere in
theorem Growing.moving_of_running (runningThere : (stepN count machine).halted = false) :
    machine.Moving count := by
  have applies : rule.applies (stepN count machine).word = true := by
    rw [Rule.applies_iff_infix, everywhere]
    exact List.nil_infix
  have moves : (stepN count machine).step.1 = true := by
    rw [step_moves_iff, stepN_rules]
    exact ⟨runningThere, rule, inRules, applies⟩
  exact ⟨moves, (growing.step_stepN moves).2⟩

include growing running inRules everywhere

/-- A rule with the empty pattern keeps the machine moving. -/
theorem Growing.moving (index : Nat) : machine.Moving index := by
  induction index with
  | zero => exact growing.moving_of_running inRules everywhere running
  | succ index inductionHypothesis =>
      exact growing.moving_of_running inRules everywhere inductionHypothesis.2

theorem Growing.goesOn (within : ∀ index < count, settings.exhaustedBy index = false) :
    machine.GoesOn settings count := by
  have moving := growing.moving running inRules everywhere
  have distinct := growing.nodup_trajectory fun index (_ : index < count) => (moving index).1
  exact goesOn_of_nodup (fun index _ => moving index) distinct within

theorem Growing.stops_limit {limit : Nat} (limited : settings.stepLimit = some limit) :
    machine.Stops settings
      (machine.reportAt limit (.stepLimit limit) (stepN limit machine)) := by
  have goesOn := growing.goesOn running inRules everywhere fun index (inside : index < limit) =>
    Settings.exhaustedBy_eq_false_of_lt limited inside
  exact .limit goesOn (Settings.exhaustedBy_stepLimit limited)

theorem Growing.run_eq_none (unlimited : settings.stepLimit = none) (fuel : Nat) :
    run fuel settings machine = none := by
  apply forall_run_eq_none_iff.mpr
  intro index
  apply growing.goesOn running inRules everywhere _ index (Nat.lt_succ_self index)
  intro earlier _
  exact Settings.exhaustedBy_eq_false_of_unlimited unlimited earlier

end Everywhere

end Machine

/-- Programs that grow never repeat a word.  Each word of a run is longer than all words before
it, and the run ends where no rule applies or where its limit is used up.  If one of the rules has
the empty pattern, every limit is used up, and without a limit the run has no end. -/
theorem growing_run_never_repeats (machine : Machine) (growing : machine.Growing)
    (running : machine.halted = false) (settings : Settings) (fuel : Nat) :
    (∀ report, run fuel settings machine = some report →
      (report.history.toList.Pairwise fun earlier later => earlier.length < later.length) ∧
      (report.outcome = .halted ∨
        ∃ limit, settings.stepLimit = some limit ∧ report.outcome = .stepLimit limit)) ∧
    (settings.stepLimit ≠ none → ∃ report, run fuel settings machine = some report) ∧
    ((∃ rule ∈ machine.rules, rule.pattern = []) →
      (∀ limit, settings.stepLimit = some limit →
        ∃ report, run fuel settings machine = some report ∧
          report.outcome = .stepLimit limit ∧ report.steps = limit) ∧
      (settings.stepLimit = none → run fuel settings machine = none)) := by
  refine ⟨?_, ?_, ?_⟩
  · intro report returned
    have stops := stops_of_run returned
    rw [stops.history_eq, History.toList_ofList]
    exact ⟨growing.pairwise_trajectory stops.moves, growing.outcome_of_stops running stops⟩
  · intro limited
    obtain ⟨limit, limitEq⟩ := Option.ne_none_iff_exists'.mp limited
    exact exists_run_eq_some limitEq machine fuel
  · rintro ⟨rule, inRules, everywhere⟩
    constructor
    · intro limit limited
      have stops := growing.stops_limit running inRules everywhere limited
      exact ⟨_, stops.run_eq_of_limited limited fuel, rfl, rfl⟩
    · intro unlimited
      exact growing.run_eq_none running inRules everywhere unlimited fuel

/-- Two rules that grow, of which the second applies everywhere, started at `a`. -/
def Machine.sprouting : Machine :=
  (ofRules [⟨['a'], ['b', 'c'], false⟩, ⟨[], ['a', 'b'], false⟩]).restart ['a']

/-- A limit of three is used up, and without a limit the run has no end. -/
theorem growing_run_never_repeats_sprouting :
    Machine.sprouting.Growing ∧ Machine.sprouting.halted = false ∧
    (∃ report, run 0 { stepLimit := some 3 } Machine.sprouting = some report ∧
      report.outcome = .stepLimit 3 ∧ report.steps = 3) ∧
    ∀ fuel, run fuel { stepLimit := none } Machine.sprouting = none := by
  have growing : Machine.sprouting.Growing := by
    unfold Machine.Growing
    decide
  have everywhere : ∃ rule ∈ Machine.sprouting.rules, rule.pattern = [] := by decide
  have limited := growing_run_never_repeats _ growing rfl { stepLimit := some 3 } 0
  refine ⟨growing, rfl, (limited.2.2 everywhere).1 3 rfl, ?_⟩
  intro fuel
  have unlimited := growing_run_never_repeats _ growing rfl { stepLimit := none } fuel
  exact (unlimited.2.2 everywhere).2 rfl

end MarkovAlgorithm
