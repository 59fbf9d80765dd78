import MarkovAlgorithm.Proofs.Session.Step
import MarkovAlgorithm.Run

/-!
# Where a run stops

A run makes plain moves along the trajectory of its machine until something
stops it.  `Machine.Stops` lists the reports that a run can end with, each with
the condition under which it does, in terms of the trajectory alone: neither a
session nor a driving loop occurs in it.  `exists_run_eq_some_iff` says that
these are exactly the reports of `run`.

The step limit is looked at first, so it also stops a machine that could not
have moved any more.  A run without a limit has no report exactly when its
machine advances forever.
-/

namespace MarkovAlgorithm

namespace Settings

theorem exhaustedBy_eq_true_iff {settings : Settings} {moves : Nat} :
    settings.exhaustedBy moves = true ↔
      ∃ limit, settings.stepLimit = some limit ∧ limit ≤ moves := by
  cases limitEq : settings.stepLimit <;> simp [exhaustedBy, limitEq]

theorem exhaustedBy_eq_false_iff {settings : Settings} {moves : Nat} :
    settings.exhaustedBy moves = false ↔
      ∀ limit, settings.stepLimit = some limit → moves < limit := by
  cases limitEq : settings.stepLimit <;> simp [exhaustedBy, limitEq]

theorem exhaustedBy_eq_false_of_lt {settings : Settings} {limit moves : Nat}
    (limited : settings.stepLimit = some limit) (inside : moves < limit) :
    settings.exhaustedBy moves = false := by
  rw [exhaustedBy_eq_false_iff, limited]
  rintro other ⟨⟩
  exact inside

theorem exhaustedBy_stepLimit {settings : Settings} {limit : Nat}
    (limited : settings.stepLimit = some limit) : settings.exhaustedBy limit = true :=
  exhaustedBy_eq_true_iff.mpr ⟨limit, limited, Nat.le_refl limit⟩

theorem exhaustedBy_eq_false_of_unlimited {settings : Settings}
    (unlimited : settings.stepLimit = none) (moves : Nat) : settings.exhaustedBy moves = false := by
  rw [exhaustedBy_eq_false_iff, unlimited]
  simp

end Settings

namespace Machine

theorem step_stepN_eq {machine : Machine} {count : Nat} {moves : Bool}
    (flag : (stepN count machine).step.1 = moves) :
    (stepN count machine).step = (moves, stepN (count + 1) machine) := by
  rw [stepN_succ, ← flag]

theorem eq_stepN_succ {machine next : Machine} {count : Nat} {moves : Bool}
    (stepEq : (stepN count machine).step = (moves, next)) :
    next = stepN (count + 1) machine := by
  rw [stepN_succ, stepEq]

/-- The run makes a plain move behind `index` moves: the limit allows it, a
rule fires and does not end the computation, and a repetition that is looked
for is not found. -/
structure Advances (settings : Settings) (machine : Machine) (index : Nat) : Prop where
  within : settings.exhaustedBy index = false
  moves : (stepN index machine).step.1 = true
  running : (stepN (index + 1) machine).halted = false
  fresh : settings.detectCycles = true →
    (stepN (index + 1) machine).word ∉ machine.trajectory (index + 1)

/-- The run begins with `count` plain moves. -/
def GoesOn (settings : Settings) (machine : Machine) (count : Nat) : Prop :=
  ∀ index < count, machine.Advances settings index

theorem goesOn_zero (settings : Settings) (machine : Machine) :
    machine.GoesOn settings 0 :=
  fun index inside => absurd inside (Nat.not_lt_zero index)

theorem GoesOn.succ {settings : Settings} {machine : Machine} {count : Nat}
    (goesOn : machine.GoesOn settings count) (advances : machine.Advances settings count) :
    machine.GoesOn settings (count + 1) :=
  Nat.forall_lt_succ_right.mpr ⟨goesOn, advances⟩

theorem GoesOn.le_stepLimit {settings : Settings} {machine : Machine} {count limit : Nat}
    (goesOn : machine.GoesOn settings count) (limited : settings.stepLimit = some limit) :
    count ≤ limit := by
  cases count with
  | zero => exact Nat.zero_le limit
  | succ count =>
      have within := (goesOn count (Nat.lt_succ_self count)).within
      exact Settings.exhaustedBy_eq_false_iff.mp within limit limited

/-- A run uses up its limit only by making as many moves as the limit says. -/
theorem GoesOn.stepLimit_eq {settings : Settings} {machine : Machine} {count : Nat}
    (goesOn : machine.GoesOn settings count) (exhausted : settings.exhaustedBy count = true) :
    settings.stepLimit = some count := by
  obtain ⟨limit, limited, reached⟩ := Settings.exhaustedBy_eq_true_iff.mp exhausted
  rw [limited, Nat.le_antisymm reached (goesOn.le_stepLimit limited)]

/-- The report on a run of `steps` moves. -/
def reportAt (machine : Machine) (steps : Nat) (outcome : Outcome) (final : Machine) : Report :=
  ⟨outcome, final, History.ofList (machine.trajectory (steps + 1)), steps⟩

/-- The reports that a run can end with. -/
inductive Stops (settings : Settings) (machine : Machine) : Report → Prop where
  | limit {steps : Nat} (goesOn : machine.GoesOn settings steps)
      (exhausted : settings.exhaustedBy steps = true) :
      Stops settings machine
        (machine.reportAt steps (.stepLimit steps) (stepN steps machine))
  | idle {steps : Nat} (goesOn : machine.GoesOn settings steps)
      (within : settings.exhaustedBy steps = false)
      (halted : (stepN steps machine).halted = true) :
      Stops settings machine
        (machine.reportAt steps .alreadyTerminated (stepN steps machine))
  | halted {steps : Nat} (goesOn : machine.GoesOn settings steps)
      (within : settings.exhaustedBy steps = false)
      (running : (stepN steps machine).halted = false)
      (still : (stepN steps machine).step.1 = false) :
      Stops settings machine
        (machine.reportAt steps .halted (stepN (steps + 1) machine))
  | terminated {steps : Nat} (goesOn : machine.GoesOn settings steps)
      (within : settings.exhaustedBy steps = false)
      (moves : (stepN steps machine).step.1 = true)
      (final : (stepN (steps + 1) machine).halted = true) :
      Stops settings machine
        (machine.reportAt (steps + 1) .terminated (stepN (steps + 1) machine))
  | cycle {steps previous : Nat} (goesOn : machine.GoesOn settings steps)
      (within : settings.exhaustedBy steps = false)
      (moves : (stepN steps machine).step.1 = true)
      (running : (stepN (steps + 1) machine).halted = false)
      (detects : settings.detectCycles = true)
      (visited : (machine.trajectory (steps + 1)).idxOf? (stepN (steps + 1) machine).word =
        some previous) :
      Stops settings machine
        (machine.reportAt (steps + 1)
          (.cycle ⟨(stepN (steps + 1) machine).word, steps + 1, previous⟩)
          (stepN (steps + 1) machine))

end Machine

/-! ## The session of a run -/

namespace Session

open Machine (stepN)

/-- The session that a run steps. -/
def opening (settings : Settings) (machine : Machine) : Session :=
  (ofMachine machine).detecting settings.detectCycles

section Opening

variable (settings : Settings) (machine : Machine) (count : Nat)

@[simp]
theorem opening_machine : (opening settings machine).machine = machine :=
  rfl

@[simp]
theorem opening_detectsCycles :
    (opening settings machine).detectsCycles = settings.detectCycles :=
  rfl

@[simp]
theorem opening_along_history :
    ((opening settings machine).along count).history =
      History.ofList (machine.trajectory (count + 1)) :=
  along_history rfl count

theorem visit_opening_along :
    ((opening settings machine).along count).visit (stepN (count + 1) machine) =
      (opening settings machine).along (count + 1) := by
  rw [along, along_machine, opening_machine, Machine.stepN_succ]

end Opening

/-- Behind plain moves the session of a run either makes another one or ends
the run with one of the listed reports. -/
theorem advances_or_drive_eq {settings : Settings} {machine : Machine} {moves : Nat}
    (goesOn : machine.GoesOn settings moves) (within : settings.exhaustedBy moves = false) :
    (machine.Advances settings moves ∧
      ((opening settings machine).along moves).step =
        (.moved, (opening settings machine).along (moves + 1))) ∨
    ∃ report, machine.Stops settings report ∧
      ∀ fuel, ((opening settings machine).along moves).drive settings (fuel + 1) moves =
        some report := by
  obtain ⟨event, after, stepsTo⟩ := ((opening settings machine).along moves).exists_stepsTo
  have stepEq := stepsTo.step_eq
  cases stepsTo with
  | idle halted =>
      right
      rw [along_machine, opening_machine] at halted
      refine ⟨_, .idle goesOn within halted, ?_⟩
      intro fuel
      simp [drive, within, stepEq, report, Machine.reportAt, pause]
  | halted running still =>
      right
      rw [along_machine, opening_machine] at running still
      cases Machine.eq_stepN_succ still
      refine ⟨_, .halted goesOn within running (congrArg Prod.fst still), ?_⟩
      intro fuel
      simp [drive, within, stepEq, report, Machine.reportAt]
  | terminated moved final =>
      right
      rw [along_machine, opening_machine] at moved
      cases Machine.eq_stepN_succ moved
      refine ⟨_, .terminated goesOn within (congrArg Prod.fst moved) final, ?_⟩
      intro fuel
      simp [drive, within, stepEq, report, Machine.reportAt, visit_opening_along]
  | moved moved running fresh =>
      left
      rw [along_machine, opening_machine] at moved
      cases Machine.eq_stepN_succ moved
      refine ⟨⟨within, congrArg Prod.fst moved, running, ?_⟩, ?_⟩
      · simpa using fresh
      · rw [stepEq, visit_opening_along]
  | @cycle next previous moved running detects visited =>
      right
      rw [along_machine, opening_machine] at moved
      cases Machine.eq_stepN_succ moved
      rw [along_detectsCycles, opening_detectsCycles] at detects
      rw [opening_along_history, History.firstVisit?_eq_idxOf?, History.toList_ofList] at visited
      refine ⟨_, .cycle goesOn within (congrArg Prod.fst moved) running detects visited, ?_⟩
      intro fuel
      simp [drive, within, stepEq, report, Machine.reportAt, visit_opening_along]

/-- A limit that is used up ends the run whatever the fuel. -/
theorem drive_eq_of_exhausted {settings : Settings} {moves : Nat}
    (exhausted : settings.exhaustedBy moves = true) (session : Session) (fuel : Nat) :
    session.drive settings fuel moves = some (session.report (.stepLimit moves) moves) := by
  cases fuel <;> simp [drive, exhausted]

theorem drive_eq_of_moved {settings : Settings} {moves fuel : Nat} {session next : Session}
    (within : settings.exhaustedBy moves = false) (stepEq : session.step = (.moved, next)) :
    session.drive settings (fuel + 1) moves = next.drive settings fuel (moves + 1) := by
  simp [drive, within, stepEq]

theorem stops_of_exhausted {settings : Settings} {machine : Machine} {fuel moves : Nat}
    {report : Report} (goesOn : machine.GoesOn settings moves)
    (exhausted : settings.exhaustedBy moves = true)
    (returned : ((opening settings machine).along moves).drive settings fuel moves =
      some report) :
    machine.Stops settings report := by
  rw [drive_eq_of_exhausted exhausted] at returned
  cases returned
  simpa [Session.report, Machine.reportAt] using Machine.Stops.limit goesOn exhausted

/-- Driving a session that has made plain moves only ends with a listed
report. -/
theorem stops_of_drive {settings : Settings} {machine : Machine} {fuel moves : Nat}
    {report : Report} (goesOn : machine.GoesOn settings moves)
    (returned : ((opening settings machine).along moves).drive settings fuel moves =
      some report) :
    machine.Stops settings report := by
  induction fuel generalizing moves with
  | zero =>
      cases exhausted : settings.exhaustedBy moves with
      | true => exact stops_of_exhausted goesOn exhausted returned
      | false => simp [drive, exhausted] at returned
  | succ fuel inductionHypothesis =>
      cases exhausted : settings.exhaustedBy moves with
      | true => exact stops_of_exhausted goesOn exhausted returned
      | false =>
          rcases advances_or_drive_eq goesOn exhausted with
            ⟨advances, stepEq⟩ | ⟨listed, stops, driveEq⟩
          · rw [drive_eq_of_moved exhausted stepEq] at returned
            exact inductionHypothesis (goesOn.succ advances) returned
          · rw [driveEq fuel] at returned
            cases returned
            exact stops

/-- The plain moves at the beginning of a run can be driven at once. -/
theorem drive_eq_drive_along {settings : Settings} {machine : Machine} {count : Nat}
    (goesOn : machine.GoesOn settings count) (fuel : Nat) :
    (opening settings machine).drive settings (count + fuel) 0 =
      ((opening settings machine).along count).drive settings fuel count := by
  induction count generalizing fuel with
  | zero => simp [along]
  | succ count inductionHypothesis =>
      have begins : machine.GoesOn settings count :=
        fun index inside => goesOn index (Nat.lt_succ_of_lt inside)
      have advances := goesOn count (Nat.lt_succ_self count)
      have moved : ((opening settings machine).along count).machine.step =
          (true, stepN (count + 1) machine) := by
        simpa using Machine.step_stepN_eq advances.moves
      have stepsTo := StepsTo.moved moved advances.running (by simpa using advances.fresh)
      rw [visit_opening_along] at stepsTo
      rw [Nat.add_assoc, Nat.add_comm 1 fuel, inductionHypothesis begins,
        drive_eq_of_moved advances.within stepsTo.step_eq]

end Session

/-! ## The reports of a run -/

open Machine (stepN)

variable {settings : Settings} {machine : Machine} {report : Report}

/-- A run only ends with a listed report. -/
theorem stops_of_run {fuel : Nat} (returned : run fuel settings machine = some report) :
    machine.Stops settings report :=
  Session.stops_of_drive (machine.goesOn_zero settings) returned

/-- As long as the limit allows another step, the fuel of a run does so, too. -/
theorem exists_fuel_eq {settings : Settings} {steps fuel : Nat}
    (within : settings.exhaustedBy steps = false) (enough : steps < fuel) :
    ∃ extra, settings.stepLimit.getD fuel = steps + (extra + 1) := by
  have allowed : steps < settings.stepLimit.getD fuel := by
    cases limitEq : settings.stepLimit with
    | none => exact enough
    | some limit => exact Settings.exhaustedBy_eq_false_iff.mp within limit limitEq
  exact ⟨settings.stepLimit.getD fuel - steps - 1, by omega⟩

/-- Each listed report is the report of the run, given fuel for its steps. -/
theorem Machine.Stops.run_eq (stops : machine.Stops settings report) {fuel : Nat}
    (enough : report.steps < fuel) : run fuel settings machine = some report := by
  change (Session.opening settings machine).drive settings (settings.stepLimit.getD fuel) 0 =
    some report
  cases stops with
  | @limit steps goesOn exhausted =>
      have budget : settings.stepLimit.getD fuel = steps + 0 := by
        rw [goesOn.stepLimit_eq exhausted]
        rfl
      rw [budget, Session.drive_eq_drive_along goesOn, Session.drive_eq_of_exhausted exhausted]
      simp [Session.report, reportAt]
  | @idle steps goesOn within halted =>
      obtain ⟨extra, budget⟩ := exists_fuel_eq within enough
      have stepsTo : ((Session.opening settings machine).along steps).StepsTo .idle _ :=
        .idle (by simpa using halted)
      rw [budget, Session.drive_eq_drive_along goesOn]
      simp [Session.drive, within, stepsTo.step_eq, Session.report, reportAt, Session.pause]
  | @halted steps goesOn within running still =>
      obtain ⟨extra, budget⟩ := exists_fuel_eq within enough
      have stepsTo : ((Session.opening settings machine).along steps).StepsTo .halted _ :=
        .halted (by simpa using running) (by simpa using step_stepN_eq still)
      rw [budget, Session.drive_eq_drive_along goesOn]
      simp [Session.drive, within, stepsTo.step_eq, Session.report, reportAt]
  | @terminated steps goesOn within moves final =>
      obtain ⟨extra, budget⟩ := exists_fuel_eq within (Nat.lt_of_succ_lt enough)
      have stepsTo : ((Session.opening settings machine).along steps).StepsTo .terminated _ :=
        .terminated (by simpa using step_stepN_eq moves) final
      rw [budget, Session.drive_eq_drive_along goesOn]
      simp [Session.drive, within, stepsTo.step_eq, Session.report, reportAt,
        Session.visit_opening_along]
  | @cycle steps previous goesOn within moves running detects visited =>
      obtain ⟨extra, budget⟩ := exists_fuel_eq within (Nat.lt_of_succ_lt enough)
      have stepsTo := Session.StepsTo.cycle
        (show ((Session.opening settings machine).along steps).machine.step = (true, _) by
          simpa using step_stepN_eq moves)
        running (by simpa using detects)
        (by simpa [History.firstVisit?_eq_idxOf?] using visited)
      rw [budget, Session.drive_eq_drive_along goesOn]
      simp [Session.drive, within, stepsTo.step_eq, Session.report, reportAt,
        Session.visit_opening_along]

/-- The listed reports are exactly those of runs. -/
theorem exists_run_eq_some_iff :
    (∃ fuel, run fuel settings machine = some report) ↔ machine.Stops settings report := by
  constructor
  · rintro ⟨fuel, returned⟩
    exact stops_of_run returned
  · intro stops
    exact ⟨report.steps + 1, stops.run_eq (Nat.lt_succ_self _)⟩

/-- A run has at most one report. -/
theorem Machine.Stops.unique {other : Report} (first : machine.Stops settings report)
    (second : machine.Stops settings other) : report = other := by
  have firstReturned := first.run_eq
    (show report.steps < max report.steps other.steps + 1 by omega)
  have secondReturned := second.run_eq
    (show other.steps < max report.steps other.steps + 1 by omega)
  exact Option.some.inj (firstReturned.symm.trans secondReturned)

/-- With a step limit the fuel is not looked at. -/
theorem run_eq_run_of_stepLimit {limit : Nat} (limited : settings.stepLimit = some limit)
    (fuel other : Nat) : run fuel settings machine = run other settings machine := by
  simp [run, limited]

theorem Machine.Stops.run_eq_of_limited (stops : machine.Stops settings report) {limit : Nat}
    (limited : settings.stepLimit = some limit) (fuel : Nat) :
    run fuel settings machine = some report := by
  rw [run_eq_run_of_stepLimit limited fuel (report.steps + 1)]
  exact stops.run_eq (Nat.lt_succ_self _)

/-- Only a run without a step limit needs fuel for its steps. -/
theorem Machine.Stops.run_eq_of_ample (stops : machine.Stops settings report) {fuel : Nat}
    (ample : settings.stepLimit = none → report.steps < fuel) :
    run fuel settings machine = some report := by
  cases limited : settings.stepLimit with
  | none => exact stops.run_eq (ample limited)
  | some limit => exact stops.run_eq_of_limited limited fuel

theorem goesOn_or_exists_stops (settings : Settings) (machine : Machine) (count : Nat) :
    machine.GoesOn settings count ∨ ∃ report, machine.Stops settings report := by
  induction count with
  | zero => exact .inl (machine.goesOn_zero settings)
  | succ count inductionHypothesis =>
      rcases inductionHypothesis with goesOn | stopped
      · cases exhausted : settings.exhaustedBy count with
        | true => exact .inr ⟨_, .limit goesOn exhausted⟩
        | false =>
            rcases Session.advances_or_drive_eq goesOn exhausted with
              ⟨advances, _⟩ | ⟨listed, stops, _⟩
            · exact .inl (goesOn.succ advances)
            · exact .inr ⟨listed, stops⟩
      · exact .inr stopped

/-- With a step limit every run has a report. -/
theorem exists_run_eq_some {limit : Nat} (limited : settings.stepLimit = some limit)
    (machine : Machine) (fuel : Nat) : ∃ report, run fuel settings machine = some report := by
  have stopped : ∃ report, machine.Stops settings report := by
    rcases goesOn_or_exists_stops settings machine limit with goesOn | stopped
    · exact ⟨_, .limit goesOn (Settings.exhaustedBy_stepLimit limited)⟩
    · exact stopped
  obtain ⟨report, stops⟩ := stopped
  exact ⟨report, stops.run_eq_of_limited limited fuel⟩

theorem Machine.Stops.exists_not_advances (stops : machine.Stops settings report) :
    ∃ count ≤ report.steps, ¬machine.Advances settings count := by
  cases stops with
  | @limit steps goesOn exhausted =>
      refine ⟨steps, Nat.le_refl steps, fun advances => ?_⟩
      have within := advances.within
      rw [exhausted] at within
      contradiction
  | @idle steps goesOn within halted =>
      refine ⟨steps, Nat.le_refl steps, fun advances => ?_⟩
      have running := halted_eq_false_of_moves advances.moves
      rw [halted] at running
      contradiction
  | @halted steps goesOn within running still =>
      refine ⟨steps, Nat.le_refl steps, fun advances => ?_⟩
      have moves := advances.moves
      rw [still] at moves
      contradiction
  | @terminated steps goesOn within moves final =>
      refine ⟨steps, Nat.le_succ steps, fun advances => ?_⟩
      have running := advances.running
      rw [final] at running
      contradiction
  | @cycle steps previous goesOn within moves running detects visited =>
      refine ⟨steps, Nat.le_succ steps, fun advances => advances.fresh detects ?_⟩
      by_contra absent
      rw [List.idxOf?_eq_none_iff.mpr absent] at visited
      contradiction

/-- The report is found with the fuel for the plain moves and one step more. -/
theorem exists_run_eq_some_of_not_advances {count fuel : Nat}
    (goesOn : machine.GoesOn settings count) (ends : ¬machine.Advances settings count)
    (enough : count < fuel) : ∃ report, run fuel settings machine = some report := by
  cases exhausted : settings.exhaustedBy count with
  | true =>
      have stops := Machine.Stops.limit goesOn exhausted
      exact ⟨_, stops.run_eq_of_limited (goesOn.stepLimit_eq exhausted) fuel⟩
  | false =>
      rcases Session.advances_or_drive_eq goesOn exhausted with ⟨advances, _⟩ | ⟨report, _, driveEq⟩
      · exact absurd advances ends
      · obtain ⟨extra, budget⟩ := exists_fuel_eq exhausted enough
        refine ⟨report, ?_⟩
        change (Session.opening settings machine).drive settings (settings.stepLimit.getD fuel) 0 =
          some report
        rw [budget, Session.drive_eq_drive_along goesOn, driveEq]

/-- Fuel that is used up is the only reason for having no report. -/
theorem run_eq_none_iff {fuel : Nat} :
    run fuel settings machine = none ↔
      settings.stepLimit = none ∧ machine.GoesOn settings fuel := by
  constructor
  · intro never
    have unlimited : settings.stepLimit = none := by
      by_contra limited
      obtain ⟨limit, limitEq⟩ := Option.ne_none_iff_exists'.mp limited
      obtain ⟨report, returned⟩ := exists_run_eq_some limitEq machine fuel
      rw [never] at returned
      contradiction
    refine ⟨unlimited, ?_⟩
    intro index
    induction index using Nat.strongRecOn with
    | ind index inductionHypothesis =>
        intro inside
        by_contra ends
        have goesOn : machine.GoesOn settings index := fun earlier before =>
          inductionHypothesis earlier before (Nat.lt_trans before inside)
        obtain ⟨report, returned⟩ := exists_run_eq_some_of_not_advances goesOn ends inside
        rw [never] at returned
        contradiction
  · rintro ⟨unlimited, goesOn⟩
    change (Session.opening settings machine).drive settings (settings.stepLimit.getD fuel) 0 = none
    have within := Settings.exhaustedBy_eq_false_of_unlimited unlimited fuel
    rw [unlimited, Option.getD_none, ← Nat.add_zero fuel, Session.drive_eq_drive_along goesOn]
    simp [Session.drive, within]

/-- A run has no report exactly when it advances forever. -/
theorem forall_run_eq_none_iff :
    (∀ fuel, run fuel settings machine = none) ↔
      ∀ index, machine.Advances settings index := by
  constructor
  · intro never index
    exact (run_eq_none_iff.mp (never (index + 1))).2 index (Nat.lt_succ_self index)
  · intro forever fuel
    cases returned : run fuel settings machine with
    | none => rfl
    | some report =>
        obtain ⟨count, _, ends⟩ := (stops_of_run returned).exists_not_advances
        exact absurd (forever count) ends

/-! ## A looser limit -/

/-- The other settings allow every move that these allow, and treat repetitions
alike. -/
structure Settings.LoosensTo (settings other : Settings) : Prop where
  sameCheck : other.detectCycles = settings.detectCycles
  allows : ∀ moves, settings.exhaustedBy moves = false → other.exhaustedBy moves = false

namespace Machine

variable {other : Settings}

theorem Advances.loosen {index : Nat} (advances : machine.Advances settings index)
    (loosens : settings.LoosensTo other) : machine.Advances other index where
  within := loosens.allows index advances.within
  moves := advances.moves
  running := advances.running
  fresh := by
    rw [loosens.sameCheck]
    exact advances.fresh

theorem GoesOn.loosen {count : Nat} (goesOn : machine.GoesOn settings count)
    (loosens : settings.LoosensTo other) : machine.GoesOn other count :=
  fun index inside => (goesOn index inside).loosen loosens

/-- A run that is not stopped by its limit is the same under a looser one. -/
theorem Stops.loosen (stops : machine.Stops settings report)
    (loosens : settings.LoosensTo other) (unlimited : ∀ count, report.outcome ≠ .stepLimit count) :
    machine.Stops other report := by
  cases stops with
  | limit _ _ => exact absurd rfl (unlimited _)
  | idle goesOn within halted =>
      exact .idle (goesOn.loosen loosens) (loosens.allows _ within) halted
  | halted goesOn within running still =>
      exact .halted (goesOn.loosen loosens) (loosens.allows _ within) running still
  | terminated goesOn within moves final =>
      exact .terminated (goesOn.loosen loosens) (loosens.allows _ within) moves final
  | cycle goesOn within moves running detects visited =>
      exact .cycle (goesOn.loosen loosens) (loosens.allows _ within) moves running
        (loosens.sameCheck.trans detects) visited

end Machine

end MarkovAlgorithm
