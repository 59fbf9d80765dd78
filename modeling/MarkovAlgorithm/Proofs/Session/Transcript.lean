import MarkovAlgorithm.Proofs.Session.Repetition

/-!
# The transcript of a session

A transcript holds the controls of a session with their responses.  The notice
of a session and whether it is running can be told from its transcript alone,
that is, from what its user has seen: each of them was brought about by some
exchange, and nothing since has undone it.

The notice is not withdrawn by stepping on.  It stays until the rules are
replaced or the session is restarted, unless another one takes its place.
-/

namespace MarkovAlgorithm

/-- A control with its response. -/
structure Exchange where
  control : Control
  response : Response
  deriving DecidableEq

/-- The wording of the notice that a response brings about. -/
def Response.announcement? : Response → Option Word
  | .rejected error => some ("Syntax error in line ".toList ++ error.line)
  | .event (.cycle cycle) => some cycle.message
  | .event .moved | .event .terminated | .event .halted | .event .idle => none
  | .done | .playing _ | .paused => none

namespace Exchange

/-- A program that was accepted and a restart withdraw the notice. -/
def withdraws (exchange : Exchange) : Bool :=
  match exchange.control with
  | .setRules _ => exchange.response = .done
  | .restart _ | .reset => true
  | .detectCycles _ | .play | .pause | .step | .tick => false

/-- Automatic stepping outlasts plain moves and the choice whether to look for
repetitions. -/
def keepsPlaying (exchange : Exchange) : Bool :=
  match exchange.control with
  | .step | .tick => exchange.response = .event .moved
  | .detectCycles _ => true
  | .setRules _ | .restart _ | .reset | .play | .pause => false

/-- Automatic stepping was turned on. -/
def playing : Exchange := ⟨.play, .playing true⟩

end Exchange

/-! ## What has lasted -/

/-- Something has happened, and everything since then has let it last. -/
def Since (lasts happens : Exchange → Prop) (transcript : List Exchange) : Prop :=
  ∃ before exchange after, transcript = before ++ exchange :: after ∧ happens exchange ∧
    ∀ later ∈ after, lasts later

section Since

variable {lasts happens : Exchange → Prop}

theorem not_since_nil : ¬Since lasts happens [] := by
  rintro ⟨before, exchange, after, split, _⟩
  simp at split

/-- The latest exchange either is the one looked for or lets an earlier one
last. -/
theorem since_append_singleton {transcript : List Exchange} {latest : Exchange} :
    Since lasts happens (transcript ++ [latest]) ↔
      happens latest ∨ lasts latest ∧ Since lasts happens transcript := by
  constructor
  · rintro ⟨before, exchange, after, split, happened, lasted⟩
    rcases List.eq_nil_or_concat' after with rfl | ⟨earlier, last, rfl⟩
    · rcases List.singleton_inj.mp (List.append_inj_right' split rfl) with rfl
      exact .inl happened
    · rw [← List.cons_append, ← List.append_assoc] at split
      rcases List.append_inj' split rfl with ⟨rfl, sameLatest⟩
      rcases List.singleton_inj.mp sameLatest with rfl
      refine .inr ⟨lasted latest (by simp), before, exchange, earlier, rfl, happened, ?_⟩
      intro later inEarlier
      exact lasted later (List.mem_append_left _ inEarlier)
  · rintro (happened | ⟨lastsOn, before, exchange, after, rfl, happened, lasted⟩)
    · exact ⟨transcript, latest, [], rfl, happened, by simp⟩
    · refine ⟨before, exchange, after ++ [latest], by simp, happened, ?_⟩
      intro later inAfter
      rcases List.mem_append.mp inAfter with inEarlier | isLatest
      · exact lasted later inEarlier
      · rcases List.mem_singleton.mp isLatest with rfl
        exact lastsOn

end Since

namespace Session

/-- The controls of a session with their responses, the first one first. -/
def transcript (session : Session) : List Control → List Exchange
  | [] => []
  | control :: rest =>
      ⟨control, (session.perform control).1⟩ :: (session.perform control).2.transcript rest

theorem transcript_append (session : Session) (first second : List Control) :
    session.transcript (first ++ second) =
      session.transcript first ++ (session.after first).transcript second := by
  induction first generalizing session with
  | nil => rfl
  | cons control rest inductionHypothesis =>
      exact congrArg _ (inductionHypothesis (session.perform control).2)

/-! ## One exchange -/

/-- A step announces repetitions and leaves the notice alone otherwise. -/
theorem StepsTo.message_eq {session next : Session} {event : Event}
    (stepsTo : session.StepsTo event next) :
    next.notice.map Notice.message =
      (Response.event event).announcement?.or (session.notice.map Notice.message) := by
  cases stepsTo <;> rfl

theorem StepsTo.running_iff {session next : Session} {event : Event}
    (stepsTo : session.StepsTo event next) :
    next.running = true ↔ event = .moved ∧ session.running = true := by
  cases stepsTo <;> simp [pause, visit]

/-- A program that cannot be read is announced, and the session is paused. -/
theorem perform_setRules_of_error {session : Session} {program : Word} {error : LineError}
    (rejected : session.machine.withProgram program = .error error) :
    session.perform (.setRules program) =
      (.rejected error,
        { session with notice := some (.badProgram error), running := false }) := by
  simp [perform, setRules, rejected]

/-- A control announces, withdraws or keeps the notice. -/
theorem message_perform (session : Session) (control : Control) :
    (session.perform control).2.notice.map Notice.message =
      (session.perform control).1.announcement?.or
        (if Exchange.withdraws ⟨control, (session.perform control).1⟩ then
          none
        else
          session.notice.map Notice.message) := by
  have stepCase := session.stepsTo_step.message_eq
  cases control with
  | detectCycles _ =>
      simp [perform, detecting, Response.announcement?, Exchange.withdraws]
  | setRules program =>
      cases accepted : session.machine.withProgram program with
      | error error =>
          rw [perform_setRules_of_error accepted]
          rfl
      | ok changed =>
          simp [perform, setRules, accepted, Response.announcement?, Exchange.withdraws]
  | restart _ => simp [perform, restart, Response.announcement?, Exchange.withdraws]
  | reset => simp [perform, reset, Response.announcement?, Exchange.withdraws]
  | play => simp [perform, play, Response.announcement?, Exchange.withdraws]
  | pause => simp [perform, pause, Response.announcement?, Exchange.withdraws]
  | step => exact stepCase
  | tick =>
      rw [perform_tick]
      cases session.running with
      | true => exact stepCase
      | false => rfl

theorem running_perform_iff (session : Session) (control : Control) :
    (session.perform control).2.running = true ↔
      (⟨control, (session.perform control).1⟩ : Exchange) = .playing ∨
        Exchange.keepsPlaying ⟨control, (session.perform control).1⟩ = true ∧
          session.running = true := by
  have stepCase := session.stepsTo_step.running_iff
  cases control with
  | detectCycles _ => simp [perform, detecting, Exchange.keepsPlaying, Exchange.playing]
  | setRules program =>
      rcases session.perform_setRules program with ⟨rules, notice, changed, _⟩
      simp [changed, Exchange.keepsPlaying, Exchange.playing]
  | restart _ => simp [perform, restart, Exchange.keepsPlaying, Exchange.playing]
  | reset => simp [perform, reset, Exchange.keepsPlaying, Exchange.playing]
  | play => simp [perform, play, Exchange.keepsPlaying, Exchange.playing]
  | pause => simp [perform, pause, Exchange.keepsPlaying, Exchange.playing]
  | step => simpa [perform, Exchange.keepsPlaying, Exchange.playing] using stepCase
  | tick =>
      rw [perform_tick]
      cases running : session.running with
      | true => simpa [perform, Exchange.keepsPlaying, Exchange.playing, running] using stepCase
      | false => simp [running, Exchange.playing]

/-! ## The whole transcript -/

/-- The most recent announcement that was not withdrawn. -/
def Announced (transcript : List Exchange) (message : Word) : Prop :=
  Since (fun exchange => exchange.response.announcement? = none ∧ exchange.withdraws = false)
    (fun exchange => exchange.response.announcement? = some message) transcript

/-- Automatic stepping was turned on last and has been kept on since. -/
def PlaysOn (transcript : List Exchange) : Prop :=
  Since (fun exchange => exchange.keepsPlaying = true) (fun exchange => exchange = .playing)
    transcript

/-- The notice of a session that had none is told from its transcript. -/
theorem message_after_iff {session : Session} (silent : session.notice = none)
    (controls : List Control) (message : Word) :
    (session.after controls).notice.map Notice.message = some message ↔
      Announced (session.transcript controls) message := by
  induction controls using List.reverseRecOn with
  | nil =>
      have never : ¬Announced [] message := not_since_nil
      simp [after, transcript, silent, never]
  | append_singleton controls control inductionHypothesis =>
      rw [after_append, transcript_append]
      simp only [after, transcript]
      rw [message_perform, Announced, since_append_singleton, ← Announced, ← inductionHypothesis]
      cases ((session.after controls).perform control).1.announcement? with
      | some announced => simp
      | none => simp

/-- Whether a session that was paused is running is told from its
transcript. -/
theorem running_after_iff {session : Session} (paused : session.running = false)
    (controls : List Control) :
    (session.after controls).running = true ↔ PlaysOn (session.transcript controls) := by
  induction controls using List.reverseRecOn with
  | nil =>
      have never : ¬PlaysOn [] := not_since_nil
      simp [after, transcript, paused, never]
  | append_singleton controls control inductionHypothesis =>
      rw [after_append, transcript_append]
      simp only [after, transcript]
      rw [running_perform_iff, PlaysOn, since_append_singleton, ← PlaysOn, ← inductionHypothesis]

/-! ## Playing to the end -/

/-- Plain moves come first.  If there is more, it is one end or repetition and
silence from then on. -/
def PlaysOut (responses : List Response) : Prop :=
  ∃ moves rest, responses = List.replicate moves (.event .moved) ++ rest ∧
    (rest = [] ∨ ∃ ending silence,
      (ending = .terminated ∨ ending = .halted ∨ ∃ cycle, ending = .cycle cycle) ∧
        rest = .event ending :: List.replicate silence .paused)

theorem PlaysOut.moved {responses : List Response} (playsOut : PlaysOut responses) :
    PlaysOut (.event .moved :: responses) := by
  rcases playsOut with ⟨moves, rest, rfl, ends⟩
  exact ⟨moves + 1, rest, rfl, ends⟩

/-- The responses to a number of ticks. -/
def tickResponses (session : Session) (count : Nat) : List Response :=
  (session.transcript (List.replicate count .tick)).map Exchange.response

theorem tickResponses_succ (session : Session) (count : Nat) :
    session.tickResponses (count + 1) =
      (session.perform .tick).1 :: (session.perform .tick).2.tickResponses count :=
  rfl

theorem tickResponses_of_paused {session : Session} (paused : session.running = false)
    (count : Nat) : session.tickResponses count = List.replicate count .paused := by
  induction count with
  | zero => rfl
  | succ count inductionHypothesis =>
      rw [tickResponses_succ, perform_tick, paused, List.replicate_succ]
      exact congrArg _ inductionHypothesis

/-- A session that plays while its machine has not halted plays out. -/
theorem playsOut_tickResponses {session : Session} (running : session.running = true)
    (active : session.machine.halted = false) (count : Nat) :
    PlaysOut (session.tickResponses count) := by
  induction count generalizing session with
  | zero => exact ⟨0, [], rfl, .inl rfl⟩
  | succ count inductionHypothesis =>
      rcases session.exists_stepsTo with ⟨event, next, stepsTo⟩
      have ticked : session.perform .tick = (.event event, next) := by
        rw [perform_tick, running]
        simp [perform, stepsTo.step_eq]
      rw [tickResponses_succ, ticked]
      have stopped (unmoved : event ≠ .moved) :
          next.tickResponses count = List.replicate count .paused := by
        apply tickResponses_of_paused
        rw [← Bool.not_eq_true, stepsTo.running_iff]
        exact fun playing => unmoved playing.1
      cases stepsTo with
      | idle halted =>
          rw [active] at halted
          contradiction
      | halted _ _ =>
          rw [stopped (by simp)]
          exact ⟨0, _, rfl, .inr ⟨_, count, .inr (.inl rfl), rfl⟩⟩
      | terminated _ _ =>
          rw [stopped (by simp)]
          exact ⟨0, _, rfl, .inr ⟨_, count, .inl rfl, rfl⟩⟩
      | @moved reached _ stillActive _ =>
          have playsOn : PlaysOut ((session.visit reached).tickResponses count) :=
            inductionHypothesis running stillActive
          exact playsOn.moved
      | cycle _ _ _ _ =>
          rw [stopped (by simp)]
          exact ⟨0, _, rfl, .inr ⟨_, count, .inr (.inr ⟨_, rfl⟩), rfl⟩⟩

/-- The notice and the running flag of every session can be told from its
transcript.  The notice is the most recent announcement that was not withdrawn,
and there is none if there is no such announcement.  The session is running
exactly if it was played last and has been kept running since.  A session that
begins to play and is only ticked from then on plays out. -/
theorem flags_told_by_transcript {start : Session}
    (origin : start = new ∨ ∃ machine, start = ofMachine machine) (controls : List Control) :
    (∀ message, (start.after controls).notice.map Notice.message = some message ↔
      Announced (start.transcript controls) message) ∧
    ((start.after controls).notice = none ↔
      ¬∃ message, Announced (start.transcript controls) message) ∧
    ((start.after controls).running = true ↔ PlaysOn (start.transcript controls)) ∧
    (((start.after controls).perform .play).1 = .playing true →
      ∀ count, PlaysOut (((start.after controls).perform .play).2.tickResponses count)) := by
  have fresh : start.notice = none ∧ start.running = false := by
    rcases origin with rfl | ⟨machine, rfl⟩ <;> exact ⟨rfl, rfl⟩
  have announced := message_after_iff fresh.1 controls
  refine ⟨announced, ?_, running_after_iff fresh.2 controls, ?_⟩
  · constructor
    · rintro silent ⟨message, isAnnounced⟩
      have shown := (announced message).mpr isAnnounced
      rw [silent] at shown
      contradiction
    · intro never
      cases shown : (start.after controls).notice with
      | none => rfl
      | some notice =>
          apply absurd _ never
          exact ⟨notice.message, (announced _).mp (by rw [shown]; rfl)⟩
  · intro played count
    have active : ((start.after controls).perform .play).2.machine.halted = false := by
      simpa [perform, play] using played
    apply playsOut_tickResponses _ active
    simpa [perform, play] using active

/-- Two rules that undo each other, stepped until a repetition is announced and
played in spite of it.  The next tick finds the next repetition. -/
theorem flags_told_by_transcript_swapping :
    Announced
      (new.transcript [.setRules "a:b\nb:a".toList, .restart ['a'], .step, .step, .play])
      "Repeating state a on step 2, previous occurred on step 0".toList ∧
    PlaysOn
      (new.transcript [.setRules "a:b\nb:a".toList, .restart ['a'], .step, .step, .play]) ∧
    PlaysOut
      (((new.after [.setRules "a:b\nb:a".toList, .restart ['a'], .step, .step]).perform
        .play).2.tickResponses 3) := by
  have stepped := flags_told_by_transcript (.inl rfl)
    [.setRules "a:b\nb:a".toList, .restart ['a'], .step, .step]
  have played := flags_told_by_transcript (.inl rfl)
    [.setRules "a:b\nb:a".toList, .restart ['a'], .step, .step, .play]
  exact ⟨(played.1 _).mp (by decide), played.2.2.1.mp (by decide), stepped.2.2.2 (by decide) 3⟩

end Session

end MarkovAlgorithm
