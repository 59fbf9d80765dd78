import Mathlib.Data.Nat.Find
import MarkovAlgorithm.Proofs.Run.Repetition
import MarkovAlgorithm.Proofs.Session.Repetition

/-!
# The course of an undisturbed session

A session that has been restarted and is then only stepped follows the
trajectory of its machine.  Playing, pausing and stepping automatically make no
difference to its events: `Machine.eventAt` gives the event of each step from
the trajectory alone.

The events are plain moves at first.  Either the computation ends, and all
further steps are idle, or a word comes back, and all further steps are
repetitions.  These name the visits between the two first ones in turn, over and
over, since it is always the first visit that is reported.
-/

namespace MarkovAlgorithm

/-- The controls that leave rules, words and the search for repetitions
alone. -/
def Control.proceeds : Control → Bool
  | .play | .pause | .step | .tick => true
  | .detectCycles _ | .setRules _ | .restart _ | .reset => false

namespace Machine

variable {machine : Machine}

/-! ## Moving and halting -/

theorem halted_of_not_moving {index : Nat} (still : ¬machine.Moving index) :
    (stepN (index + 1) machine).halted = true := by
  cases moves : (stepN index machine).step.1 with
  | true =>
      rw [← Bool.not_eq_false]
      intro running
      exact still ⟨moves, running⟩
  | false => rw [stepN_succ, step_eq_of_not_moves moves]

theorem Moving.of_le {first second : Nat} (moving : machine.Moving second)
    (ordered : first ≤ second) : machine.Moving first := by
  by_contra still
  have earlier : first < second := by
    apply Nat.lt_of_le_of_ne ordered
    rintro rfl
    exact still moving
  have halted := halted_stepN_of_le earlier (halted_of_not_moving still)
  rw [halted_eq_false_of_moves moving.1] at halted
  contradiction

/-! ## The event of each step -/

/-- The event of the step behind `index` steps, for a session that looks for
repetitions and has followed the machine from its first word on. -/
def eventAt (machine : Machine) (index : Nat) : Event :=
  if (stepN index machine).halted then
    .idle
  else if (stepN index machine).step.1 = false then
    .halted
  else if (stepN (index + 1) machine).halted then
    .terminated
  else
    match (machine.trajectory (index + 1)).idxOf? (stepN (index + 1) machine).word with
    | none => .moved
    | some previous => .cycle ⟨(stepN (index + 1) machine).word, index + 1, previous⟩

variable {index : Nat}

theorem eventAt_of_halted (halted : (stepN index machine).halted = true) :
    machine.eventAt index = .idle := by
  simp [eventAt, halted]

theorem eventAt_of_moving (moving : machine.Moving index) :
    machine.eventAt index =
      match (machine.trajectory (index + 1)).idxOf? (stepN (index + 1) machine).word with
      | none => .moved
      | some previous => .cycle ⟨(stepN (index + 1) machine).word, index + 1, previous⟩ := by
  simp [eventAt, halted_eq_false_of_moves moving.1, moving.1, moving.2]

theorem eventAt_of_still (running : (stepN index machine).halted = false)
    (still : (stepN index machine).step.1 = false) : machine.eventAt index = .halted := by
  simp [eventAt, running, still]

theorem eventAt_of_final (moves : (stepN index machine).step.1 = true)
    (final : (stepN (index + 1) machine).halted = true) :
    machine.eventAt index = .terminated := by
  simp [eventAt, halted_eq_false_of_moves moves, moves, final]

/-- A machine that stops moving comes to one of the two ends. -/
theorem eventAt_of_not_moving (running : (stepN index machine).halted = false)
    (still : ¬machine.Moving index) :
    machine.eventAt index = .terminated ∨ machine.eventAt index = .halted := by
  cases moves : (stepN index machine).step.1 with
  | true => exact .inl (eventAt_of_final moves (halted_of_not_moving still))
  | false => exact .inr (eventAt_of_still running moves)

theorem moving_of_eventAt
    (goesOn : machine.eventAt index = .moved ∨ ∃ cycle, machine.eventAt index = .cycle cycle) :
    machine.Moving index := by
  by_contra still
  cases halted : (stepN index machine).halted with
  | true =>
      rw [eventAt_of_halted halted] at goesOn
      simp at goesOn
  | false =>
      rcases eventAt_of_not_moving halted still with ended | ended <;>
        simp [ended] at goesOn

theorem exists_cycle_of_moving (moving : machine.Moving index)
    (unmoved : machine.eventAt index ≠ .moved) :
    ∃ cycle, machine.eventAt index = .cycle cycle := by
  rw [eventAt_of_moving moving] at unmoved ⊢
  split at unmoved
  case h_1 => contradiction
  case h_2 => exact ⟨_, rfl⟩

theorem eventAt_eq_moved_iff :
    machine.eventAt index = .moved ↔
      machine.Moving index ∧
        (stepN (index + 1) machine).word ∉ machine.trajectory (index + 1) := by
  rw [← List.idxOf?_eq_none_iff]
  constructor
  · intro moved
    have moving := moving_of_eventAt (.inl moved)
    rw [eventAt_of_moving moving] at moved
    split at moved
    case h_1 fresh => exact ⟨moving, fresh⟩
    case h_2 => contradiction
  · rintro ⟨moving, fresh⟩
    rw [eventAt_of_moving moving, fresh]

theorem eventAt_eq_cycle_iff {cycle : Cycle} :
    machine.eventAt index = .cycle cycle ↔
      machine.Moving index ∧ cycle.word = (stepN (index + 1) machine).word ∧
        cycle.step = index + 1 ∧
        (machine.trajectory (index + 1)).idxOf? cycle.word = some cycle.previousStep := by
  constructor
  · intro repeats
    have moving := moving_of_eventAt (.inr ⟨cycle, repeats⟩)
    rw [eventAt_of_moving moving] at repeats
    split at repeats
    case h_1 => contradiction
    case h_2 previous visited =>
      cases repeats
      exact ⟨moving, rfl, rfl, visited⟩
  · rintro ⟨moving, wordEq, stepEq, visited⟩
    rw [wordEq] at visited
    rw [eventAt_of_moving moving, visited]
    cases cycle
    simp_all

theorem nodup_of_eventAt (moved : ∀ earlier < index, machine.eventAt earlier = .moved) :
    (machine.trajectory (index + 1)).Nodup := by
  rw [nodup_trajectory_iff]
  intro number inside
  cases number with
  | zero => simp [trajectory]
  | succ number =>
      exact (eventAt_eq_moved_iff.mp (moved number (Nat.lt_of_succ_lt_succ inside))).2

/-! ## Round and round -/

/-- Behind the first repetition each word is found at the visit that it has
between the two first ones. -/
theorem Circles.idxOf?_trajectory {cycle : Cycle} (circles : machine.Circles cycle)
    (distinct : (machine.trajectory cycle.step).Nodup) (offset : Nat) :
    (machine.trajectory (cycle.step + offset)).idxOf?
        (stepN (cycle.step + offset) machine).word =
      some (cycle.previousStep + offset % (cycle.step - cycle.previousStep)) := by
  have ordered := circles.ordered
  have remainder := Nat.mod_lt offset (Nat.sub_pos_of_lt ordered)
  have sameMachine : stepN (cycle.step + offset) machine =
      stepN (cycle.previousStep + offset % (cycle.step - cycle.previousStep)) machine := by
    rw [stepN_eq_stepN_mod ordered circles.repeated (by omega)]
    have distance : cycle.step + offset - cycle.previousStep =
        cycle.step - cycle.previousStep + offset := by omega
    rw [distance, Nat.add_mod_left]
  rw [idxOf?_trajectory_eq_some_iff, sameMachine]
  constructor
  · exact ⟨by omega, rfl⟩
  · rintro number ⟨_, sameWord⟩
    by_contra earlier
    apply nodup_trajectory_iff.mp distinct _
      (show cycle.previousStep + offset % (cycle.step - cycle.previousStep) < cycle.step by omega)
    exact mem_trajectory.mpr ⟨number, Nat.lt_of_not_le earlier, sameWord⟩

/-- A repetition closes a circle. -/
theorem circles_of_eventAt {cycle : Cycle} (repeats : machine.eventAt index = .cycle cycle) :
    machine.Circles cycle := by
  obtain ⟨moving, wordEq, stepEq, visited⟩ := eventAt_eq_cycle_iff.mp repeats
  obtain ⟨⟨earlier, sameWord⟩, _⟩ := idxOf?_trajectory_eq_some_iff.mp visited
  have ordered : cycle.previousStep < cycle.step := stepEq ▸ earlier
  have allMoving : ∀ number < cycle.step, machine.Moving number := by
    intro number inside
    exact moving.of_le (by omega)
  have repeated : stepN cycle.previousStep machine = stepN cycle.step machine := by
    apply stepN_eq_of_repeat ordered allMoving
    rw [sameWord, wordEq, stepEq]
  exact ⟨ordered, repeated, moving_of_repeat ordered allMoving repeated⟩

/-- Behind the first repetition there are only repetitions. -/
theorem eventAt_add_of_first {cycle : Cycle}
    (moved : ∀ earlier < index, machine.eventAt earlier = .moved)
    (repeats : machine.eventAt index = .cycle cycle) (offset : Nat) :
    machine.eventAt (index + offset) = .cycle
      ⟨(stepN (cycle.previousStep + offset % (cycle.step - cycle.previousStep)) machine).word,
        cycle.step + offset,
        cycle.previousStep + offset % (cycle.step - cycle.previousStep)⟩ := by
  have circles := circles_of_eventAt repeats
  obtain ⟨_, _, stepEq, _⟩ := eventAt_eq_cycle_iff.mp repeats
  have distinct : (machine.trajectory cycle.step).Nodup := by
    rw [stepEq]
    exact nodup_of_eventAt moved
  have visited := circles.idxOf?_trajectory distinct offset
  have numbers : cycle.step + offset = index + offset + 1 := by omega
  have sameWord : (stepN (cycle.previousStep +
      offset % (cycle.step - cycle.previousStep)) machine).word =
        (stepN (cycle.step + offset) machine).word :=
    (idxOf?_trajectory_eq_some_iff.mp visited).1.2
  rw [sameWord, numbers]
  rw [numbers] at visited
  exact eventAt_eq_cycle_iff.mpr ⟨circles.moving _, rfl, rfl, visited⟩

/-- Only plain moves come before the first repetition. -/
theorem moved_of_earliest {cycle : Cycle} (repeats : machine.eventAt index = .cycle cycle)
    (earliest : ∀ earlier < index, ∀ other, machine.eventAt earlier ≠ .cycle other) :
    ∀ earlier < index, machine.eventAt earlier = .moved := by
  intro earlier before
  have moving := (moving_of_eventAt (.inr ⟨cycle, repeats⟩)).of_le before.le
  by_contra unmoved
  obtain ⟨other, earlierRepeats⟩ := exists_cycle_of_moving moving unmoved
  exact earliest earlier before other earlierRepeats

/-! ## All events in order -/

theorem running_of_eventAt (running : machine.halted = false)
    (moved : ∀ earlier < index, machine.eventAt earlier = .moved) :
    (stepN index machine).halted = false := by
  cases index with
  | zero => exact running
  | succ index => exact (eventAt_eq_moved_iff.mp (moved index (Nat.lt_succ_self index))).1.2

/-- The first event that is no plain move is an end or a repetition. -/
theorem eventAt_of_first (running : machine.halted = false)
    (moved : ∀ earlier < index, machine.eventAt earlier = .moved)
    (unmoved : machine.eventAt index ≠ .moved) :
    ((machine.eventAt index = .terminated ∨ machine.eventAt index = .halted) ∧
        ∀ later, index < later → machine.eventAt later = .idle) ∨
      ∀ later, index ≤ later → ∃ cycle, machine.eventAt later = .cycle cycle := by
  by_cases moving : machine.Moving index
  · right
    obtain ⟨cycle, repeats⟩ := exists_cycle_of_moving moving unmoved
    intro later notEarlier
    obtain ⟨offset, rfl⟩ := Nat.exists_eq_add_of_le notEarlier
    exact ⟨_, eventAt_add_of_first moved repeats offset⟩
  · left
    refine ⟨eventAt_of_not_moving (running_of_eventAt running moved) moving, ?_⟩
    intro later behind
    exact eventAt_of_halted (halted_stepN_of_le behind (halted_of_not_moving moving))

theorem map_eventAt_eq_replicate {event : Event} {first count : Nat}
    (same : ∀ index, first ≤ index → index < first + count → machine.eventAt index = event) :
    (List.range' first count).map machine.eventAt = List.replicate count event := by
  rw [List.eq_replicate_iff]
  refine ⟨by simp, ?_⟩
  intro reported inEvents
  obtain ⟨index, inRange, rfl⟩ := List.mem_map.mp inEvents
  obtain ⟨notBefore, inside⟩ := List.mem_range'_1.mp inRange
  exact same index notBefore inside

theorem getElem?_map_eventAt {count : Nat} {event : Event} :
    ((List.range' 0 count).map machine.eventAt)[index]? = some event ↔
      index < count ∧ machine.eventAt index = event := by
  simp [List.getElem?_eq_some_iff]

end Machine

namespace Session

open Machine (stepN)

/-! ## Following the trajectory -/

/-- The session looks for repetitions and stands behind `count` steps of a
machine.  As long as the machine has not halted, the session has visited its
trajectory. -/
structure Follows (session : Session) (machine : Machine) (count : Nat) : Prop where
  reached : session.machine = stepN count machine
  visits : (stepN count machine).halted = false →
    session.history.toList = machine.trajectory (count + 1)
  detects : session.detectsCycles = true

/-- A restarted session stands at the beginning. -/
theorem follows_of_restarts {session : Session} {control : Control}
    (detects : session.detectsCycles = true) (restarts : control.restarts = true) :
    (session.perform control).2.machine.halted = false ∧
      (session.perform control).2.Follows (session.perform control).2.machine 0 := by
  cases control with
  | restart _ => exact ⟨rfl, rfl, fun _ => rfl, detects⟩
  | reset => exact ⟨rfl, rfl, fun _ => rfl, detects⟩
  | _ => contradiction

variable {session next : Session} {machine : Machine} {count : Nat}

theorem Follows.ofHalted (reached : session.machine = stepN count machine)
    (halted : (stepN count machine).halted = true) (detects : session.detectsCycles = true) :
    session.Follows machine count := by
  refine ⟨reached, ?_, detects⟩
  intro running
  rw [halted] at running
  contradiction

/-- Another visit to the next word of the trajectory is a step along it. -/
theorem Follows.ofVisit (follows : session.Follows machine count)
    (moves : (stepN count machine).step.1 = true)
    (reached : next.machine = stepN (count + 1) machine)
    (visited : next.history = session.history.push (stepN (count + 1) machine).word)
    (detects : next.detectsCycles = session.detectsCycles) :
    next.Follows machine (count + 1) := by
  refine ⟨reached, ?_, detects.trans follows.detects⟩
  intro _
  rw [visited, History.toList_push, follows.visits (Machine.halted_eq_false_of_moves moves),
    ← Machine.trajectory_succ]

/-- A step has the event of the trajectory and leads one step further. -/
theorem Follows.stepsTo {event : Event} (follows : session.Follows machine count)
    (stepsTo : session.StepsTo event next) :
    event = machine.eventAt count ∧ next.Follows machine (count + 1) := by
  have reached := follows.reached
  cases stepsTo with
  | idle halted =>
      rw [reached] at halted
      have stays : stepN (count + 1) machine = stepN count machine := by
        rw [Machine.stepN_succ, Machine.step_of_halted halted]
      refine ⟨(Machine.eventAt_of_halted halted).symm, .ofHalted ?_ ?_ follows.detects⟩
      · exact reached.trans stays.symm
      · rw [stays, halted]
  | halted running still =>
      rw [reached] at running still
      cases Machine.eq_stepN_succ still
      have unmoved := congrArg Prod.fst still
      have ended : (stepN (count + 1) machine).halted = true := by
        rw [Machine.stepN_succ, Machine.step_eq_of_not_moves unmoved]
      exact ⟨(Machine.eventAt_of_still running unmoved).symm, .ofHalted rfl ended follows.detects⟩
  | terminated moves final =>
      rw [reached] at moves
      cases Machine.eq_stepN_succ moves
      exact ⟨(Machine.eventAt_of_final (congrArg Prod.fst moves) final).symm,
        .ofHalted rfl final follows.detects⟩
  | moved moves running fresh =>
      rw [reached] at moves
      cases Machine.eq_stepN_succ moves
      have moved := congrArg Prod.fst moves
      have notVisited := fresh follows.detects
      rw [follows.visits (Machine.halted_eq_false_of_moves moved)] at notVisited
      exact ⟨(Machine.eventAt_eq_moved_iff.mpr ⟨⟨moved, running⟩, notVisited⟩).symm,
        follows.ofVisit moved rfl rfl rfl⟩
  | cycle moves running _ visited =>
      rw [reached] at moves
      cases Machine.eq_stepN_succ moves
      have moved := congrArg Prod.fst moves
      have visits := follows.visits (Machine.halted_eq_false_of_moves moved)
      rw [History.firstVisit?_eq_idxOf?, visits] at visited
      have number : session.history.size = count + 1 := by
        rw [History.size_eq_length, visits, Machine.length_trajectory]
      exact ⟨(Machine.eventAt_eq_cycle_iff.mpr ⟨⟨moved, running⟩, rfl, number, visited⟩).symm,
        follows.ofVisit moved rfl rfl rfl⟩

/-- A control that proceeds either takes a step of the trajectory or leaves the
session where it stands. -/
theorem Follows.perform (follows : session.Follows machine count) {control : Control}
    (proceeds : control.proceeds = true) :
    (session.perform control).1.event? = some (machine.eventAt count) ∧
        (session.perform control).2.Follows machine (count + 1) ∨
      (session.perform control).1.event? = none ∧
        (session.perform control).2.Follows machine count := by
  have stepCase : (session.perform .step).1.event? = some (machine.eventAt count) ∧
      (session.perform .step).2.Follows machine (count + 1) := by
    obtain ⟨eventEq, next⟩ := follows.stepsTo session.stepsTo_step
    exact ⟨congrArg some eventEq, next⟩
  cases control with
  | play => exact .inr ⟨rfl, follows.reached, follows.visits, follows.detects⟩
  | pause => exact .inr ⟨rfl, follows.reached, follows.visits, follows.detects⟩
  | step => exact .inl stepCase
  | tick =>
      rw [perform_tick]
      cases session.running with
      | true => exact .inl stepCase
      | false => exact .inr ⟨rfl, follows⟩
  | _ => contradiction

/-- Controls that proceed have the events of the trajectory, one after the
other. -/
theorem Follows.events_eq (follows : session.Follows machine count) {controls : List Control}
    (proceed : ∀ control ∈ controls, control.proceeds = true) :
    ∃ number, session.events controls = (List.range' count number).map machine.eventAt ∧
      (session.after controls).Follows machine (count + number) := by
  induction controls generalizing session count with
  | nil => exact ⟨0, rfl, follows⟩
  | cons control rest inductionHypothesis =>
      have proceedLater : ∀ later ∈ rest, later.proceeds = true :=
        fun later inRest => proceed later (List.mem_cons_of_mem _ inRest)
      rcases follows.perform (proceed control List.mem_cons_self) with
        ⟨reported, next⟩ | ⟨silent, next⟩
      · obtain ⟨number, eventsEq, last⟩ := inductionHypothesis next proceedLater
        refine ⟨number + 1, ?_, ?_⟩
        · rw [events, reported, eventsEq, List.range'_succ]
          rfl
        · rw [Nat.add_comm number 1, ← Nat.add_assoc]
          exact last
      · obtain ⟨number, eventsEq, last⟩ := inductionHypothesis next proceedLater
        refine ⟨number, ?_, last⟩
        rw [events, silent, eventsEq]
        rfl

/-! ## The course of events -/

/-- Plain moves come first.  Behind them there is an end with idle steps only, or
there are only repetitions. -/
def InPhases (events : List Event) : Prop :=
  ∃ moves rest, events = List.replicate moves .moved ++ rest ∧
    ((∃ ending idle, (ending = .terminated ∨ ending = .halted) ∧
        rest = ending :: List.replicate idle .idle) ∨
      ∀ event ∈ rest, ∃ cycle, event = .cycle cycle)

/-- The events of an undisturbed session, with its history behind them. -/
structure Course (events : List Event) (history : History) : Prop where
  phases : InPhases events
  /-- From the first repetition on, the earlier visits that are named come round
  and round. -/
  rounds : ∀ index first, events[index]? = some (.cycle first) →
    (∀ earlier < index, ∀ cycle, events[earlier]? ≠ some (.cycle cycle)) →
    first.previousStep < first.step ∧
      ∀ later, index + later < events.length →
        ∃ word,
          history.get?
            (first.previousStep + later % (first.step - first.previousStep)) = some word ∧
          events[index + later]? = some (.cycle ⟨word, first.step + later,
            first.previousStep + later % (first.step - first.previousStep)⟩)

/-- The events of a trajectory come in phases. -/
theorem inPhases_of_trajectory (running : machine.halted = false) (number : Nat) :
    InPhases ((List.range' 0 number).map machine.eventAt) := by
  by_cases other : ∃ index, index < number ∧ machine.eventAt index ≠ .moved
  · classical
    obtain ⟨inside, unmoved⟩ := Nat.find_spec other
    have moved : ∀ earlier < Nat.find other, machine.eventAt earlier = .moved := by
      intro earlier before
      by_contra different
      exact Nat.find_min other before ⟨Nat.lt_trans before inside, different⟩
    generalize Nat.find other = index at inside unmoved moved
    obtain ⟨count, rfl⟩ := Nat.exists_eq_add_of_lt inside
    refine ⟨index, (List.range' index (count + 1)).map machine.eventAt, ?_, ?_⟩
    · rw [Nat.add_assoc, ← List.range'_append_1, List.map_append, Nat.zero_add,
        Machine.map_eventAt_eq_replicate]
      intro earlier _ before
      exact moved earlier (by omega)
    · rcases Machine.eventAt_of_first running moved unmoved with ⟨ending, idle⟩ | repeats
      · left
        refine ⟨machine.eventAt index, count, ending, ?_⟩
        rw [List.range'_succ, List.map_cons, Machine.map_eventAt_eq_replicate]
        intro later behind _
        exact idle later behind
      · right
        intro event inEvents
        obtain ⟨later, inRange, rfl⟩ := List.mem_map.mp inEvents
        exact repeats later (List.mem_range'_1.mp inRange).1
  · refine ⟨number, [], ?_, .inr (by simp)⟩
    rw [List.append_nil, Machine.map_eventAt_eq_replicate]
    intro index _ inside
    by_contra unmoved
    exact other ⟨index, by omega, unmoved⟩

theorem Follows.course (follows : session.Follows machine count)
    (running : machine.halted = false) :
    Course ((List.range' 0 count).map machine.eventAt) session.history := by
  refine ⟨inPhases_of_trajectory running count, ?_⟩
  intro index first reported earliest
  obtain ⟨inside, repeats⟩ := Machine.getElem?_map_eventAt.mp reported
  have circles := Machine.circles_of_eventAt repeats
  obtain ⟨_, _, stepEq, _⟩ := Machine.eventAt_eq_cycle_iff.mp repeats
  have moved : ∀ earlier < index, machine.eventAt earlier = .moved := by
    apply Machine.moved_of_earliest repeats
    intro earlier before cycle earlierRepeats
    exact earliest earlier before cycle
      (Machine.getElem?_map_eventAt.mpr ⟨Nat.lt_trans before inside, earlierRepeats⟩)
  refine ⟨circles.ordered, ?_⟩
  intro later laterInside
  rw [List.length_map, List.length_range'] at laterInside
  refine ⟨_, ?_, Machine.getElem?_map_eventAt.mpr
    ⟨laterInside, Machine.eventAt_add_of_first moved repeats later⟩⟩
  have remainder := Nat.mod_lt later (Nat.sub_pos_of_lt circles.ordered)
  rw [History.get?_eq_getElem?,
    follows.visits (Machine.halted_eq_false_of_moves (circles.moving count).1)]
  exact Machine.getElem?_trajectory (by omega)

/-- A session that looks for repetitions, is restarted and then only stepped,
by hand or automatically, takes its course.  Playing and pausing in between do
not disturb it. -/
theorem course_of_restarts {session : Session} {restart : Control} {controls : List Control}
    (detects : session.detectsCycles = true) (restarts : restart.restarts = true)
    (proceed : ∀ control ∈ controls, control.proceeds = true) :
    Course ((session.perform restart).2.events controls)
      ((session.perform restart).2.after controls).history := by
  obtain ⟨running, follows⟩ := follows_of_restarts detects restarts
  obtain ⟨number, eventsEq, last⟩ := follows.events_eq proceed
  rw [eventsEq]
  rw [Nat.zero_add] at last
  exact last.course running

/-- Two rules that undo each other, played from `ab` and then stepped by hand. -/
theorem course_of_restarts_swapping :
    ((ofMachine Machine.swapping).perform .reset).2.events
        [.play, .tick, .tick, .tick, .pause, .step, .step] =
      [.moved, .cycle ⟨['a', 'b'], 2, 0⟩, .cycle ⟨['b', 'a'], 3, 1⟩,
        .cycle ⟨['a', 'b'], 4, 0⟩] ∧
    Course
      (((ofMachine Machine.swapping).perform .reset).2.events
        [.play, .tick, .tick, .tick, .pause, .step, .step])
      (((ofMachine Machine.swapping).perform .reset).2.after
        [.play, .tick, .tick, .tick, .pause, .step, .step]).history :=
  ⟨by decide, course_of_restarts rfl rfl (by decide)⟩

end Session

end MarkovAlgorithm
