import MarkovAlgorithm.Proofs.Session.Invariant

/-!
# Reported repetitions

A step reports a repetition exactly when an ordinary rule leads back to a
visited word while repetitions are looked for.  This holds whatever has
happened to the session before: its history may hold words of other rules, and
some of them several times.  The report names the first of the visits.

As long as repetitions are looked for and every step is a plain move, no word
comes twice.  The rules may change on the way.
-/

namespace MarkovAlgorithm

/-- The event that a response tells of. -/
def Response.event? : Response → Option Event
  | .event reported => some reported
  | .done | .rejected _ | .playing _ | .paused => none

namespace Session

/-- The events that a list of controls brings about. -/
def events (session : Session) : List Control → List Event
  | [] => []
  | control :: rest =>
      (session.perform control).1.event?.toList ++ (session.perform control).2.events rest

theorem after_append (session : Session) (first second : List Control) :
    session.after (first ++ second) = (session.after first).after second := by
  induction first generalizing session with
  | nil => rfl
  | cons control rest inductionHypothesis =>
      exact inductionHypothesis (session.perform control).2

/-! ## When a repetition is reported -/

/-- The next step fires an ordinary rule and leads back to a visited word, and
repetitions are looked for. -/
def ComesBack (session : Session) : Prop :=
  session.detectsCycles = true ∧ session.machine.halted = false ∧
    ∃ rule word, Machine.firing? session.machine.word session.machine.rules = some (rule, word) ∧
      rule.terminal = false ∧ word ∈ session.history.toList

theorem StepsTo.comesBack {session next : Session} {cycle : Cycle}
    (stepsTo : session.StepsTo (.cycle cycle) next) : session.ComesBack := by
  cases stepsTo with
  | cycle moves running detects visited =>
      obtain ⟨notHalted, rule, word, fires, rfl⟩ := Machine.step_eq_moved_iff.mp moves
      have known := History.exists_firstVisit?_iff.mp ⟨_, visited⟩
      exact ⟨detects, notHalted, rule, word, fires, running, known⟩

theorem ComesBack.exists_stepsTo {session : Session} (comesBack : session.ComesBack) :
    ∃ cycle next, session.StepsTo (.cycle cycle) next := by
  obtain ⟨detects, notHalted, rule, word, fires, ordinary, known⟩ := comesBack
  obtain ⟨previous, visited⟩ := History.exists_firstVisit?_iff.mpr known
  have moves := Machine.step_eq_moved_iff.mpr ⟨notHalted, rule, word, fires, rfl⟩
  exact ⟨_, _, .cycle moves ordinary detects visited⟩

/-! ## What a report says -/

/-- The session has just come upon a repetition and tells of it. -/
structure Shows (session : Session) (cycle : Cycle) : Prop where
  word : cycle.word = session.machine.word
  /-- The repetition is the latest visit. -/
  step : cycle.step + 1 = session.history.size
  latest : session.history.get? cycle.step = some cycle.word
  earlier : session.history.get? cycle.previousStep = some cycle.word
  ordered : cycle.previousStep < cycle.step
  first : IsLeast {number | session.history.get? number = some cycle.word} cycle.previousStep
  /-- A repetition does not halt the machine. -/
  active : session.machine.halted = false
  paused : session.running = false
  message : session.notice.map Notice.message =
    some ("Repeating state ".toList ++ cycle.word ++ " on step ".toList ++
      Text.decimal cycle.step ++ ", previous occurred on step ".toList ++
      Text.decimal cycle.previousStep)

/-- A reported repetition is the latest visit to a word that was visited
before. -/
theorem StepsTo.shows {session next : Session} {cycle : Cycle}
    (stepsTo : session.StepsTo (.cycle cycle) next) : next.Shows cycle := by
  cases stepsTo with
  | @cycle reached previous moves running detects visited =>
      have before := History.firstVisit?_eq_some_iff.mp visited
      have stillFirst := History.firstVisit?_push_of_eq_some visited reached.word
      have inside : previous < session.history.size := by
        have visit := before.1
        rw [Set.mem_ofPred_eq, History.get?_eq_getElem?] at visit
        rw [History.size_eq_length]
        exact (List.getElem?_eq_some_iff.mp visit).1
      have first := History.firstVisit?_eq_some_iff.mp stillFirst
      exact {
        word := rfl
        step := by simp [visit]
        latest := History.get?_push_size _ _
        earlier := first.1
        ordered := inside
        first := first
        active := running
        paused := rfl
        message := rfl }

/-! ## Distinct visits -/

theorem stepsTo_of_perform_eq_event {session : Session} {control : Control} {event : Event}
    (reported : (session.perform control).1 = .event event) :
    session.StepsTo event (session.perform control).2 := by
  have stepCase : (session.perform .step).1 = .event event →
      session.StepsTo event (session.perform .step).2 := by
    intro stepReported
    cases stepReported
    exact session.stepsTo_step
  cases control with
  | detectCycles _ => contradiction
  | setRules program =>
      cases accepted : session.machine.withProgram program <;>
        simp [perform, setRules, accepted] at reported
  | restart _ => contradiction
  | reset => contradiction
  | play => contradiction
  | pause => contradiction
  | step => exact stepCase reported
  | tick =>
      rw [perform_tick] at reported ⊢
      cases running : session.running with
      | true =>
          rw [running] at reported
          exact stepCase reported
      | false =>
          rw [running] at reported
          contradiction

theorem toList_history_of_restarts (session : Session) {control : Control}
    (restarts : control.restarts = true) :
    ∃ word, (session.perform control).2.history.toList = [word] := by
  cases control with
  | restart start => exact ⟨start, History.toList_startingAt start⟩
  | reset => exact ⟨session.machine.start, History.toList_startingAt session.machine.start⟩
  | _ => contradiction

/-- A plain move leads to a new word if repetitions are looked for. -/
theorem StepsTo.fresh {session next : Session} (stepsTo : session.StepsTo .moved next)
    (detects : session.detectsCycles = true) :
    next.machine.word ∉ session.history.toList := by
  cases stepsTo with
  | moved _ _ fresh => exact fresh detects

/-- One control keeps the visits distinct, unless it has an event other than a
plain move. -/
theorem nodup_perform {session : Session} (distinct : session.history.toList.Nodup)
    (detects : session.detectsCycles = true) {control : Control}
    (moved : ∀ event ∈ (session.perform control).1.event?, event = .moved) :
    (session.perform control).2.history.toList.Nodup := by
  cases restarts : control.restarts with
  | true =>
      obtain ⟨word, visits⟩ := session.toList_history_of_restarts restarts
      rw [visits]
      exact List.nodup_singleton word
  | false =>
      rw [session.toList_perform_history restarts]
      cases response : (session.perform control).1 with
      | event reported =>
          rw [response] at moved
          cases moved reported rfl
          have fresh := (stepsTo_of_perform_eq_event response).fresh detects
          exact List.nodup_append_comm.mp (List.nodup_cons.mpr ⟨fresh, distinct⟩)
      | _ => simpa [Response.records] using distinct

/-- A session that looks for repetitions and only makes plain moves visits
every word once. -/
theorem nodup_after {session : Session} (distinct : session.history.toList.Nodup)
    {controls : List Control}
    (detects : ∀ part, part <+: controls → (session.after part).detectsCycles = true)
    (moved : ∀ event ∈ session.events controls, event = .moved) :
    (session.after controls).history.toList.Nodup := by
  induction controls generalizing session with
  | nil => exact distinct
  | cons control rest inductionHypothesis =>
      have movedNow : ∀ event ∈ (session.perform control).1.event?, event = .moved := by
        intro event reported
        exact moved event (List.mem_append_left _ (Option.mem_toList.mpr reported))
      have movedLater : ∀ event ∈ (session.perform control).2.events rest, event = .moved := by
        intro event reported
        exact moved event (List.mem_append_right _ reported)
      apply inductionHypothesis (nodup_perform distinct (detects [] List.nil_prefix) movedNow) _
        movedLater
      intro part isPart
      exact detects (control :: part) ((List.prefix_cons_inj control).mpr isPart)

/-- A session that was opened or restarted just now has visited one word. -/
theorem nodup_of_restarted {start : Session}
    (origin : start = new ∨ ∃ machine, start = ofMachine machine) {controls : List Control}
    (restarted : ∀ control ∈ controls.getLast?, control.restarts = true) :
    (start.after controls).history.toList.Nodup := by
  rcases List.eq_nil_or_concat' controls with rfl | ⟨earlier, last, rfl⟩
  · rcases origin with rfl | ⟨machine, rfl⟩
    · exact List.nodup_singleton _
    · exact List.nodup_singleton _
  · have restarts := restarted last (by simp)
    obtain ⟨word, visits⟩ := (start.after earlier).toList_history_of_restarts restarts
    rw [after_append]
    change ((start.after earlier).perform last).2.history.toList.Nodup
    rw [visits]
    exact List.nodup_singleton word

/-- Reported repetitions are correct in every session: one is reported exactly
when the next step comes back to a visited word, and the session shows it
afterwards.  If repetitions have been looked for since the history began, and
all events since then were plain moves, the history holds no word twice. -/
theorem repetition_reported_iff (session : Session) :
    ((∃ cycle, session.step.1 = .cycle cycle) ↔ session.ComesBack) ∧
    (∀ cycle, session.step.1 = .cycle cycle → session.step.2.Shows cycle) ∧
    (∀ start before since, (start = new ∨ ∃ machine, start = ofMachine machine) →
      session = start.after (before ++ since) →
      (∀ control ∈ before.getLast?, control.restarts = true) →
      (∀ part, part <+: since → (start.after (before ++ part)).detectsCycles = true) →
      (∀ event ∈ (start.after before).events since, event = .moved) →
      session.history.toList.Nodup) := by
  refine ⟨⟨?_, ?_⟩, ?_, ?_⟩
  · rintro ⟨cycle, reported⟩
    have stepsTo := session.stepsTo_step
    rw [reported] at stepsTo
    exact stepsTo.comesBack
  · intro comesBack
    obtain ⟨cycle, next, stepsTo⟩ := comesBack.exists_stepsTo
    exact ⟨cycle, congrArg Prod.fst stepsTo.step_eq⟩
  · intro cycle reported
    have stepsTo := session.stepsTo_step
    rw [reported] at stepsTo
    exact stepsTo.shows
  · rintro start before since origin rfl restarted detects moved
    simp only [after_append] at detects ⊢
    exact nodup_after (nodup_of_restarted origin restarted) detects moved

/-- Two rules that undo each other, stepped from `a` over `b` back to `a` without
looking for repetitions, and then looking for them.  The next step comes back to
the word of the first visit after the start. -/
theorem repetition_reported_iff_swapping :
    (new.after [.setRules "a:b\nb:a".toList, .restart ['a'], .detectCycles false, .step, .step,
      .detectCycles true]).step.2.Shows ⟨['b'], 3, 1⟩ ∧
    (new.after [.setRules "a:b\nb:a".toList, .restart ['a'], .step]).history.toList.Nodup := by
  constructor
  · apply (repetition_reported_iff _).2.1
    decide
  · apply (repetition_reported_iff _).2.2 new [.setRules "a:b\nb:a".toList, .restart ['a']]
      [.step] (.inl rfl) rfl
    · decide
    · intro part isPart
      rcases List.prefix_cons_iff.mp isPart with rfl | ⟨rest, rfl, isRest⟩
      · decide
      · cases List.prefix_nil.mp isRest
        decide
    · decide

end Session

end MarkovAlgorithm
