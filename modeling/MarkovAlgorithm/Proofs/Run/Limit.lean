import MarkovAlgorithm.Proofs.Machine.Step
import MarkovAlgorithm.Proofs.Run.Repetition

/-!
# The effect of the step limit

A step limit cuts a run off and does nothing else.  Under a wider limit, or
without one, a run begins with the same moves, and a run that was not cut off is
reported just as before.

The limit is looked at before a step, so what the last allowed move brings
about is still recognised: a terminal rule or a repetition takes precedence over
the limit.  That no rule applies is found out by one more step, which the limit
does not allow.  `Machine.Ends` says that a computation comes to an end by
itself.  There is no repetition in front of the end, so such a run does not
depend on whether repetitions are looked for.
-/

namespace MarkovAlgorithm

namespace Settings

variable {settings : Settings}

theorem exhaustedBy_eq_false_of_le {first second : Nat} (ordered : first ≤ second)
    (within : settings.exhaustedBy second = false) : settings.exhaustedBy first = false := by
  rw [exhaustedBy_eq_false_iff] at within ⊢
  intro limit limited
  exact Nat.lt_of_le_of_lt ordered (within limit limited)

/-- Every wider limit loosens the settings, and so does having none. -/
theorem loosensTo_of_le {limit : Nat} {wider : Option Nat}
    (ordered : ∀ bound, wider = some bound → limit ≤ bound) :
    LoosensTo { settings with stepLimit := some limit } { settings with stepLimit := wider } where
  sameCheck := rfl
  allows moves within := by
    rw [exhaustedBy_eq_false_iff] at within ⊢
    intro bound widerEq
    exact Nat.lt_of_lt_of_le (within limit rfl) (ordered bound widerEq)

end Settings

/-- How a report changes under a wider limit: not at all if the run was not cut
off, and otherwise by going on from there. -/
structure Report.WidensTo (report : Report) (limit : Nat) (longer : Report) : Prop where
  same : (∀ count, report.outcome ≠ .stepLimit count) → longer = report
  limitReported : ∀ count, report.outcome = .stepLimit count →
    count = limit ∧ report.steps = limit
  begins : ∀ count, report.outcome = .stepLimit count →
    report.history.toList = longer.history.toList.take (limit + 1) ∧ limit ≤ longer.steps

namespace Machine

variable {settings other : Settings} {machine : Machine} {report longer : Report}
  {count limit : Nat}

/-! ## Runs that are cut off -/

theorem GoesOn.le_steps (goesOn : machine.GoesOn settings count)
    (stops : machine.Stops settings report) : count ≤ report.steps := by
  obtain ⟨index, reported, still⟩ := stops.exists_not_advances
  by_contra shorter
  exact still (goesOn index (Nat.lt_of_le_of_lt reported (Nat.lt_of_not_le shorter)))

/-- The words of a run that is cut off are those of its plain moves. -/
theorem Stops.goesOn_of_stepLimit (stops : machine.Stops settings report)
    (reported : report.outcome = .stepLimit count) :
    report.steps = count ∧ settings.stepLimit = some count ∧ machine.GoesOn settings count := by
  cases stops with
  | limit goesOn exhausted =>
      cases reported
      exact ⟨rfl, goesOn.stepLimit_eq exhausted, goesOn⟩
  | _ => contradiction

/-- The report under a wider limit. -/
theorem Stops.widensTo (stops : machine.Stops settings report)
    (limited : settings.stepLimit = some limit) (loosens : settings.LoosensTo other)
    (longerStops : machine.Stops other longer) : report.WidensTo limit longer := by
  refine ⟨?_, ?_, ?_⟩
  · intro notLimited
    exact longerStops.unique (stops.loosen loosens notLimited)
  · intro count reported
    obtain ⟨stepsEq, limitEq, _⟩ := stops.goesOn_of_stepLimit reported
    cases limited.symm.trans limitEq
    exact ⟨rfl, stepsEq⟩
  · intro count reported
    obtain ⟨stepsEq, limitEq, goesOn⟩ := stops.goesOn_of_stepLimit reported
    cases limited.symm.trans limitEq
    have atLeast := (goesOn.loosen loosens).le_steps longerStops
    rw [stops.history_eq, longerStops.history_eq, History.toList_ofList, History.toList_ofList,
      stepsEq, take_trajectory (Nat.succ_le_succ atLeast)]
    exact ⟨rfl, atLeast⟩

/-! ## Computations that come to an end -/

/-- Steps that move have not ended the computation before the last of them. -/
theorem moving_of_moves (moves : ∀ index < count, (stepN index machine).step.1 = true)
    (running : (stepN count machine).halted = false) : ∀ index < count, machine.Moving index := by
  intro index inside
  refine ⟨moves index inside, ?_⟩
  rcases Nat.lt_or_eq_of_le (Nat.succ_le_of_lt inside) with before | rfl
  · exact halted_eq_false_of_moves (moves (index + 1) before)
  · exact running

/-- Moves that lead to different words are plain moves of every run, as far as
the limit allows them. -/
theorem goesOn_of_nodup (moving : ∀ index < count, machine.Moving index)
    (distinct : (machine.trajectory (count + 1)).Nodup)
    (within : ∀ index < count, settings.exhaustedBy index = false) :
    machine.GoesOn settings count := by
  intro index inside
  refine ⟨within index inside, (moving index inside).1, (moving index inside).2, ?_⟩
  intro _
  exact nodup_trajectory_iff.mp distinct (index + 1) (Nat.succ_lt_succ inside)

/-- The computation makes `count` plain moves and comes to an end by itself with
the next step. -/
structure Ends (machine : Machine) (count : Nat) : Prop where
  moving : ∀ index < count, machine.Moving index
  ended : ¬machine.Moving count

theorem Ends.nodup (ends : machine.Ends count) : (machine.trajectory (count + 1)).Nodup := by
  rw [nodup_trajectory_iff]
  intro index inside visited
  obtain ⟨earlier, before, sameWord⟩ := mem_trajectory.mp visited
  have moving : ∀ number < index, machine.Moving number :=
    fun number inFront => ends.moving number (by omega)
  have repeated := stepN_eq_of_repeat before moving sameWord
  exact ends.ended (moving_of_repeat before moving repeated count)

/-- A limit that allows the step behind its moves lets the computation come to its
end. -/
theorem Ends.goesOn (ends : machine.Ends count)
    (within : settings.exhaustedBy count = false) : machine.GoesOn settings count := by
  apply goesOn_of_nodup ends.moving ends.nodup
  intro index inside
  exact Settings.exhaustedBy_eq_false_of_le (Nat.le_of_lt inside) within

/-- A limit below the end cuts the run off. -/
theorem Ends.stops_limit (ends : machine.Ends count) (limited : settings.stepLimit = some limit)
    (short : limit ≤ count) :
    machine.Stops settings
      (machine.reportAt limit (.stepLimit limit) (stepN limit machine)) := by
  have exhausted := Settings.exhaustedBy_stepLimit limited
  have distinct : (machine.trajectory (limit + 1)).Nodup := by
    rw [← take_trajectory (Nat.succ_le_succ short)]
    exact ends.nodup.sublist (List.take_sublist _ _)
  refine .limit (goesOn_of_nodup ?_ distinct ?_) exhausted
  · intro index inside
    exact ends.moving index (Nat.lt_of_lt_of_le inside short)
  · intro index inside
    exact Settings.exhaustedBy_eq_false_of_lt limited inside

/-- A limit that allows one step more than the moves finds out that no rule
applies. -/
theorem Ends.stops_halted (ends : machine.Ends count)
    (within : settings.exhaustedBy count = false)
    (running : (stepN count machine).halted = false)
    (still : (stepN count machine).step.1 = false) :
    machine.Stops settings (machine.reportAt count .halted (stepN (count + 1) machine)) :=
  .halted (ends.goesOn within) within running still

theorem Ends.stops_terminated (ends : machine.Ends count)
    (within : settings.exhaustedBy count = false)
    (moves : (stepN count machine).step.1 = true)
    (final : (stepN (count + 1) machine).halted = true) :
    machine.Stops settings
      (machine.reportAt (count + 1) .terminated (stepN (count + 1) machine)) :=
  .terminated (ends.goesOn within) within moves final

/-! ## The last allowed move -/

/-- The step with this number, counted from one, fires this rule, and all steps
before it move. -/
structure NthMove (machine : Machine) (number : Nat) (rule : Rule) : Prop where
  moves : ∀ index < number, (stepN index machine).step.1 = true
  fires : ∃ before index, number = before + 1 ∧
    (stepN before machine).Fires index rule (stepN number machine).word

/-- The machine has made `count` moves without halting, and no rule applies any
more. -/
structure StuckAfter (machine : Machine) (count : Nat) : Prop where
  moves : ∀ index < count, (stepN index machine).step.1 = true
  running : (stepN count machine).halted = false
  stuck : ∀ rule ∈ machine.rules, rule.applies (stepN count machine).word = false

variable {rule : Rule}

/-- Only a terminal rule halts the machine with its move. -/
theorem NthMove.halted_eq (nthMove : machine.NthMove count rule) :
    (stepN count machine).halted = rule.terminal := by
  obtain ⟨before, index, rfl, fires⟩ := nthMove.fires
  rw [stepN_succ, fires.moved]

/-- A terminal rule that fires with the last allowed move is reported. -/
theorem NthMove.stops_terminated (nthMove : machine.NthMove limit rule)
    (terminal : rule.terminal = true) (limited : settings.stepLimit = some limit) :
    machine.Stops settings (machine.reportAt limit .terminated (stepN limit machine)) := by
  have final := nthMove.halted_eq.trans terminal
  obtain ⟨before, index, rfl, fires⟩ := nthMove.fires
  have moves := nthMove.moves before (Nat.lt_succ_self before)
  have ends : machine.Ends before := by
    constructor
    · apply moving_of_moves _ (halted_eq_false_of_moves moves)
      intro number inside
      exact nthMove.moves number (Nat.lt_succ_of_lt inside)
    · intro moving
      rw [moving.2] at final
      contradiction
  have within := Settings.exhaustedBy_eq_false_of_lt limited (Nat.lt_succ_self before)
  exact ends.stops_terminated within moves final

/-- The first repetition is reported when it is closed by the last allowed
move. -/
theorem NthMove.exists_cycle (nthMove : machine.NthMove limit rule)
    (stops : machine.Stops settings report) (limited : settings.stepLimit = some limit)
    (ordinary : rule.terminal = false) (detects : settings.detectCycles = true)
    (distinct : (machine.trajectory limit).Nodup)
    (visited : (stepN limit machine).word ∈ machine.trajectory limit) :
    ∃ cycle, report.outcome = .cycle cycle ∧ cycle.step = limit ∧ report.steps = limit := by
  have running := nthMove.halted_eq.trans ordinary
  have moving := moving_of_moves nthMove.moves running
  obtain ⟨before, index, rfl, fires⟩ := nthMove.fires
  have within := Settings.exhaustedBy_eq_false_of_lt limited (Nat.lt_succ_self before)
  have goesOn : machine.GoesOn settings before := by
    apply goesOn_of_nodup _ distinct
    · intro number inside
      exact Settings.exhaustedBy_eq_false_of_le (Nat.le_of_lt inside) within
    · intro number inside
      exact moving number (Nat.lt_succ_of_lt inside)
  obtain ⟨previous, found⟩ := Option.ne_none_iff_exists'.mp
    (mt List.idxOf?_eq_none_iff.mp (not_not.mpr visited))
  have listed := Stops.cycle goesOn within
    (nthMove.moves before (Nat.lt_succ_self before)) running detects found
  rw [stops.unique listed]
  exact ⟨_, rfl, rfl, rfl⟩

theorem StuckAfter.still (stuckAfter : machine.StuckAfter count) :
    (stepN count machine).step.1 = false := by
  rw [← Bool.not_eq_true, step_moves_iff, stepN_rules]
  rintro ⟨_, rule, inRules, applies⟩
  rw [stuckAfter.stuck rule inRules] at applies
  contradiction

theorem StuckAfter.ends (stuckAfter : machine.StuckAfter count) : machine.Ends count where
  moving := moving_of_moves stuckAfter.moves stuckAfter.running
  ended moving := by
    have moves := moving.1
    rw [stuckAfter.still] at moves
    contradiction

end Machine

open Machine (stepN)

/-- A step limit only cuts a run off.  Under a wider limit the report is the same
unless the limit was reported, and then the longer run begins with the same moves;
there is such a report whenever the run has a limit or was not cut off.  A terminal
rule that fires with the last allowed move and a repetition that is closed by it
are reported as such.  Where no rule applies after the last allowed move, the limit
is reported, and every wider one finds the machine halted after as many moves. -/
theorem stepLimit_only_cuts_off (settings : Settings) (machine : Machine) (limit fuel : Nat) :
    ∃ report, run fuel { settings with stepLimit := some limit } machine = some report ∧
      (∀ (wider : Option Nat) (widerFuel : Nat), (∀ bound, wider = some bound → limit ≤ bound) →
        (wider ≠ none ∨
            (∀ count, report.outcome ≠ .stepLimit count) ∧ report.steps < widerFuel →
          ∃ longer, run widerFuel { settings with stepLimit := wider } machine = some longer) ∧
        ∀ longer, run widerFuel { settings with stepLimit := wider } machine = some longer →
          report.WidensTo limit longer) ∧
      (∀ rule, machine.NthMove limit rule →
        (rule.terminal = true → report.outcome = .terminated ∧ report.steps = limit) ∧
        (rule.terminal = false → settings.detectCycles = true →
          (machine.trajectory limit).Nodup →
          (stepN limit machine).word ∈ machine.trajectory limit →
          ∃ cycle, report.outcome = .cycle cycle ∧ cycle.step = limit ∧ report.steps = limit)) ∧
      (machine.StuckAfter limit →
        report.outcome = .stepLimit limit ∧
        ∀ (wider : Option Nat) (widerFuel : Nat),
          (∀ bound, wider = some bound → limit < bound) → (wider = none → limit < widerFuel) →
          ∃ longer, run widerFuel { settings with stepLimit := wider } machine = some longer ∧
            longer.outcome = .halted ∧ longer.steps = limit) := by
  obtain ⟨report, returned⟩ := exists_run_eq_some
    (show ({ settings with stepLimit := some limit } : Settings).stepLimit = some limit from rfl)
    machine fuel
  have stops := stops_of_run returned
  refine ⟨report, returned, ?_, ?_, ?_⟩
  · intro wider widerFuel ordered
    have loosens : Settings.LoosensTo { settings with stepLimit := some limit } _ :=
      Settings.loosensTo_of_le ordered
    constructor
    · rintro (limited | ⟨notLimited, enough⟩)
      · obtain ⟨bound, widerEq⟩ := Option.ne_none_iff_exists'.mp limited
        exact exists_run_eq_some widerEq machine widerFuel
      · exact ⟨report, (stops.loosen loosens notLimited).run_eq enough⟩
    · intro longer longerReturned
      exact stops.widensTo rfl loosens (stops_of_run longerReturned)
  · intro rule nthMove
    constructor
    · intro terminal
      rw [stops.unique (nthMove.stops_terminated terminal rfl)]
      exact ⟨rfl, rfl⟩
    · intro ordinary detects distinct visited
      exact nthMove.exists_cycle stops rfl ordinary detects distinct visited
  · intro stuckAfter
    have ends := stuckAfter.ends
    constructor
    · rw [stops.unique (ends.stops_limit rfl (Nat.le_refl limit))]
      rfl
    · intro wider widerFuel ordered fueled
      have within : ({ settings with stepLimit := wider } : Settings).exhaustedBy limit = false :=
        Settings.exhaustedBy_eq_false_iff.mpr ordered
      have halts := ends.stops_halted within stuckAfter.running stuckAfter.still
      exact ⟨_, halts.run_eq_of_ample fueled, rfl, rfl⟩

/-- A rule that replaces one letter by another, started at two letters. -/
def Machine.relabelling : Machine :=
  (ofRules [⟨['a'], ['b'], false⟩]).restart ['a', 'a']

/-- Two moves replace all letters.  A limit of two is reported, and a run without a
limit finds the machine halted. -/
theorem stepLimit_only_cuts_off_relabelling :
    Machine.relabelling.StuckAfter 2 ∧
    (∃ report, run 0 { stepLimit := some 2 } Machine.relabelling = some report ∧
      report.outcome = .stepLimit 2) ∧
    ∃ report, run 3 { stepLimit := none } Machine.relabelling = some report ∧
      report.outcome = .halted ∧ report.steps = 2 := by
  have stuckAfter : Machine.relabelling.StuckAfter 2 := ⟨by decide, by decide, by decide⟩
  obtain ⟨report, returned, _, _, boundary⟩ :=
    stepLimit_only_cuts_off {} Machine.relabelling 2 0
  obtain ⟨reported, wider⟩ := boundary stuckAfter
  exact ⟨stuckAfter, ⟨report, returned, reported⟩, wider none 3 (by simp) (by simp)⟩

end MarkovAlgorithm
