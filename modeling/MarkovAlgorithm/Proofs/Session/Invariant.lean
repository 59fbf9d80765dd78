import MarkovAlgorithm.Proofs.Machine.Program
import MarkovAlgorithm.Proofs.Session.Step
import MarkovAlgorithm.Session

/-!
# What every session keeps

A session is changed by its controls only.  Whatever their order, the history
ends at the word of the machine, and automatic stepping is on only while the
machine has not halted.  The history grows by the words that steps lead to, and
by nothing else; restarting begins it anew.

The history begins at the starting word of the machine only from a restart on,
because a session may be opened around a machine in the middle of its
computation.
-/

namespace MarkovAlgorithm

/-- The controls that begin the history anew. -/
def Control.restarts : Control → Bool
  | .restart _ | .reset => true
  | .detectCycles _ | .setRules _ | .play | .pause | .step | .tick => false

/-- The responses that tell of another visit. -/
def Response.records : Response → Bool
  | .event .moved | .event .terminated | .event (.cycle _) => true
  | .event .halted | .event .idle => false
  | .done | .rejected _ | .playing _ | .paused => false

namespace History

@[simp]
theorem last?_push (history : History) (word : Word) :
    (history.push word).last? = some word := by
  simp [last?_eq_getLast?]

@[simp]
theorem last?_startingAt (word : Word) : (startingAt word).last? = some word :=
  last?_push empty word

theorem get?_push_of_eq_some {history : History} {step : Nat} {word : Word}
    (visited : history.get? step = some word) (added : Word) :
    (history.push added).get? step = some word := by
  rw [get?_eq_getElem?] at visited ⊢
  obtain ⟨inside, _⟩ := List.getElem?_eq_some_iff.mp visited
  rw [toList_push, List.getElem?_append_left inside]
  exact visited

end History

namespace Session

/-- The session after a list of controls. -/
def after (session : Session) : List Control → Session
  | [] => session
  | control :: rest => (session.perform control).2.after rest

/-! ## What a control does -/

theorem perform_tick (session : Session) :
    session.perform .tick =
      if session.running then session.perform .step else (.paused, session) := by
  cases running : session.running <;> simp [perform, tick, running]

theorem perform_setRules (session : Session) (program : Word) :
    ∃ rules notice, (session.perform (.setRules program)).2 =
        { session with machine := { session.machine with rules }, notice, running := false } ∧
      (session.perform (.setRules program)).1.records = false := by
  cases accepted : session.machine.withProgram program with
  | error error =>
      refine ⟨session.machine.rules, some (.badProgram error), ?_⟩
      simp [perform, setRules, accepted, Response.records]
  | ok changed =>
      obtain ⟨rules, _, rfl⟩ := Machine.withProgram_eq_ok_iff.mp accepted
      refine ⟨rules, none, ?_⟩
      simp [perform, setRules, accepted, Response.records]

/-- A step visits the word it leads to if it moves, and visits nothing
otherwise. -/
theorem StepsTo.history_eq {session next : Session} {event : Event}
    (stepsTo : session.StepsTo event next) :
    next.history =
      if (Response.event event).records then
        session.history.push next.machine.word
      else
        session.history := by
  cases stepsTo <;> rfl

/-- Unless it restarts, a control adds to the history what it reports. -/
theorem toList_perform_history (session : Session) {control : Control}
    (continues : control.restarts = false) :
    (session.perform control).2.history.toList =
      session.history.toList ++
        if (session.perform control).1.records then
          [(session.perform control).2.machine.word]
        else
          [] := by
  have stepHistory : (session.perform .step).2.history.toList =
      session.history.toList ++
        if (session.perform .step).1.records then
          [(session.perform .step).2.machine.word]
        else
          [] := by
    change session.step.2.history.toList = _
    rw [session.stepsTo_step.history_eq]
    cases records : (Response.event session.step.1).records <;> simp [perform, records]
  cases control with
  | detectCycles _ => exact (List.append_nil _).symm
  | setRules program =>
      obtain ⟨rules, notice, changed, silent⟩ := session.perform_setRules program
      rw [changed, silent]
      exact (List.append_nil _).symm
  | restart _ => contradiction
  | reset => contradiction
  | play => exact (List.append_nil _).symm
  | pause => exact (List.append_nil _).symm
  | step => exact stepHistory
  | tick =>
      rw [perform_tick]
      cases session.running with
      | true => exact stepHistory
      | false => exact (List.append_nil _).symm

/-! ## The invariant -/

/-- The history ends at the word of the machine, and automatic stepping is on
only while the machine has not halted. -/
structure Kept (session : Session) : Prop where
  last : session.history.last? = some session.machine.word
  running : session.running = true → session.machine.halted = false

/-- A paused session has only its history to keep. -/
theorem Kept.ofPaused {session : Session}
    (last : session.history.last? = some session.machine.word)
    (paused : session.running = false) : session.Kept := by
  refine ⟨last, ?_⟩
  intro running
  rw [paused] at running
  contradiction

theorem kept_ofMachine (machine : Machine) : (ofMachine machine).Kept :=
  .ofPaused (History.last?_startingAt machine.word) rfl

theorem Kept.stepsTo {session next : Session} {event : Event} (kept : session.Kept)
    (stepsTo : session.StepsTo event next) : next.Kept := by
  cases stepsTo with
  | idle _ => exact .ofPaused kept.last rfl
  | @halted halted running still =>
      have halts : halted = { session.machine with halted := true } := by
        have stepEq := Machine.step_eq_of_not_moves (congrArg Prod.fst still)
        rwa [still] at stepEq
      rw [halts]
      exact .ofPaused kept.last rfl
  | terminated _ _ => exact .ofPaused (History.last?_push _ _) rfl
  | moved _ running _ => exact ⟨History.last?_push _ _, fun _ => running⟩
  | cycle _ _ _ _ => exact .ofPaused (History.last?_push _ _) rfl

/-- One control keeps the invariant. -/
theorem Kept.perform {session : Session} (kept : session.Kept) (control : Control) :
    (session.perform control).2.Kept := by
  have stepKept : (session.perform .step).2.Kept := kept.stepsTo session.stepsTo_step
  cases control with
  | detectCycles _ => exact ⟨kept.last, kept.running⟩
  | setRules program =>
      obtain ⟨rules, notice, changed, _⟩ := session.perform_setRules program
      rw [changed]
      exact .ofPaused kept.last rfl
  | restart start => exact .ofPaused (History.last?_startingAt start) rfl
  | reset => exact .ofPaused (History.last?_startingAt session.machine.start) rfl
  | play =>
      refine ⟨kept.last, ?_⟩
      intro playing
      simpa [Session.perform, play] using playing
  | pause => exact .ofPaused kept.last rfl
  | step => exact stepKept
  | tick =>
      rw [perform_tick]
      cases session.running with
      | true => exact stepKept
      | false => exact kept

/-- Any sequence of controls keeps the invariant. -/
theorem Kept.after {session : Session} (kept : session.Kept) (controls : List Control) :
    (session.after controls).Kept := by
  induction controls generalizing session with
  | nil => exact kept
  | cons control rest inductionHypothesis => exact inductionHypothesis (kept.perform control)

/-- Automatic stepping never finds a halted machine. -/
theorem Kept.tick_ne_idle {session : Session} (kept : session.Kept) :
    session.tick.1 ≠ some .idle := by
  unfold tick
  cases running : session.running with
  | false => simp
  | true =>
      intro idle
      obtain ⟨event, next, stepsTo⟩ := session.exists_stepsTo
      simp only [stepsTo.step_eq, if_true, Option.some.injEq] at idle
      subst idle
      cases stepsTo with
      | idle halted =>
          rw [kept.running running] at halted
          contradiction

/-! ## Where the history begins -/

/-- The history begins at the starting word of the machine. -/
def BeginsAtStart (session : Session) : Prop :=
  session.history.get? 0 = some session.machine.start

theorem StepsTo.start_eq {session next : Session} {event : Event}
    (stepsTo : session.StepsTo event next) : next.machine.start = session.machine.start := by
  have stepStart := session.machine.step_start
  cases stepsTo with
  | idle _ => rfl
  | halted _ still => rwa [still] at stepStart
  | terminated moves _ => rwa [moves] at stepStart
  | moved moves _ _ => rwa [moves] at stepStart
  | cycle moves _ _ _ => rwa [moves] at stepStart

theorem beginsAtStart_of_restarts (session : Session) {control : Control}
    (restarts : control.restarts = true) : (session.perform control).2.BeginsAtStart := by
  cases control with
  | restart _ => rfl
  | reset => rfl
  | _ => contradiction

/-- No control changes where the history begins, except together with the
starting word. -/
theorem BeginsAtStart.perform {session : Session} (begins : session.BeginsAtStart)
    (control : Control) : (session.perform control).2.BeginsAtStart := by
  have stepBegins : (session.perform .step).2.BeginsAtStart := by
    change session.step.2.history.get? 0 = some session.step.2.machine.start
    rw [session.stepsTo_step.start_eq, session.stepsTo_step.history_eq]
    split
    · exact History.get?_push_of_eq_some begins _
    · exact begins
  cases control with
  | detectCycles _ => exact begins
  | setRules program =>
      obtain ⟨rules, notice, changed, _⟩ := session.perform_setRules program
      rw [changed]
      exact begins
  | restart _ => exact session.beginsAtStart_of_restarts rfl
  | reset => exact session.beginsAtStart_of_restarts rfl
  | play => exact begins
  | pause => exact begins
  | step => exact stepBegins
  | tick =>
      rw [perform_tick]
      cases session.running with
      | true => exact stepBegins
      | false => exact begins

theorem beginsAtStart_after {session : Session} {controls : List Control}
    (begun : session.BeginsAtStart ∨ ∃ control ∈ controls, control.restarts = true) :
    (session.after controls).BeginsAtStart := by
  induction controls generalizing session with
  | nil =>
      rcases begun with begins | ⟨control, absent, _⟩
      · exact begins
      · exact absurd absent (List.not_mem_nil)
  | cons first rest inductionHypothesis =>
      apply inductionHypothesis
      rcases begun with begins | ⟨control, given, restarts⟩
      · exact .inl (begins.perform first)
      · rcases List.mem_cons.mp given with rfl | later
        · exact .inl (session.beginsAtStart_of_restarts restarts)
        · exact .inr ⟨control, later, restarts⟩

/-! ## Reachable sessions -/

/-- What holds of a session however it was controlled, and what the next
control does to its history. -/
structure Coherent (session : Session) : Prop where
  nonempty : session.history.isEmpty = false
  /-- The latest visit is the word of the machine. -/
  last : session.history.last? = some session.machine.word
  /-- The index finds the least number of a word. -/
  first : ∀ word step, session.history.firstVisit? word = some step ↔
    IsLeast {number | session.history.get? number = some word} step
  /-- The index finds nothing only for words that were not visited. -/
  absent : ∀ word, session.history.firstVisit? word = none ↔ word ∉ session.history.toList
  running : session.running = true → session.machine.halted = false
  /-- Automatic stepping never finds a halted machine. -/
  active : session.tick.1 ≠ some .idle
  /-- The history grows by one word at each move, and otherwise stays. -/
  grows : ∀ control, control.restarts = false →
    (session.perform control).2.history.toList =
      session.history.toList ++
        if (session.perform control).1.records then
          [(session.perform control).2.machine.word]
        else
          []

theorem Kept.coherent {session : Session} (kept : session.Kept) : session.Coherent where
  nonempty := by
    have last := kept.last
    rw [History.last?, Array.back?_eq_some_iff] at last
    obtain ⟨earlier, visitsEq⟩ := last
    simp [History.isEmpty, visitsEq]
  last := kept.last
  first _ _ := History.firstVisit?_eq_some_iff
  absent _ := History.firstVisit?_eq_none_iff
  running := kept.running
  active := kept.tick_ne_idle
  grows _ := session.toList_perform_history

/-- Every session that controls can lead to is coherent, from the new session
and from a session around any machine alike.  Its history begins at the
starting word if the session was new or has been restarted. -/
theorem after_coherent {start : Session}
    (origin : start = new ∨ ∃ machine, start = ofMachine machine) (controls : List Control) :
    (start.after controls).Coherent ∧
      (start = new ∨ (∃ control ∈ controls, control.restarts = true) →
        (start.after controls).history.get? 0 =
          some (start.after controls).machine.start) := by
  have kept : start.Kept := by
    rcases origin with rfl | ⟨machine, rfl⟩
    · exact kept_ofMachine Machine.empty
    · exact kept_ofMachine machine
  refine ⟨(kept.after controls).coherent, ?_⟩
  intro begun
  apply beginsAtStart_after
  rcases begun with rfl | restarted
  · exact .inl rfl
  · exact .inr restarted

/-- A session around a machine that has left its starting word and halted, then
stepped in vain, reset and played. -/
theorem after_coherent_reset :
    ((ofMachine ⟨[⟨['a'], ['b'], true⟩], ['a'], ['b'], true⟩).after
        [.step, .reset, .play, .tick]).Coherent ∧
      ((ofMachine ⟨[⟨['a'], ['b'], true⟩], ['a'], ['b'], true⟩).after
        [.step, .reset, .play, .tick]).history.get? 0 = some ['a'] := by
  have coherent := after_coherent
    (.inr ⟨⟨[⟨['a'], ['b'], true⟩], ['a'], ['b'], true⟩, rfl⟩)
    [.step, .reset, .play, .tick]
  exact ⟨coherent.1, coherent.2 (.inr ⟨.reset, by decide, rfl⟩)⟩

end Session

end MarkovAlgorithm
