import MarkovAlgorithm.Proofs.Session.Transcript

/-!
# Rejected programs

A program that cannot be read pauses the session and leaves a notice.  Nothing
else comes of it, then or later: no control looks at the notice, so two sessions
that differ in their notices only respond alike for as long as they are
controlled alike.  Their notices agree, too, from the first exchange on that
renews them.
-/

namespace MarkovAlgorithm

/-- The responses that tell of a repetition. -/
def Response.repeats : Response → Bool
  | .event (.cycle _) => true
  | .event .moved | .event .terminated | .event .halted | .event .idle => false
  | .done | .rejected _ | .playing _ | .paused => false

/-- The exchanges behind which the notice does not depend on the one before. -/
def Exchange.renews (exchange : Exchange) : Bool :=
  match exchange.control with
  | .setRules _ | .restart _ | .reset => true
  | .detectCycles _ | .play | .pause | .step | .tick => exchange.response.repeats

namespace Session

/-- The session with another notice. -/
def noticing (session : Session) (notice : Option Notice) : Session :=
  { session with notice }

/-- The sessions are the same, except that their notices may differ. -/
structure AgreesApartFromNotice (first second : Session) : Prop where
  machine : first.machine = second.machine
  history : first.history = second.history
  running : first.running = second.running
  detectsCycles : first.detectsCycles = second.detectsCycles

theorem noticing_agrees (session : Session) (notice : Option Notice) :
    (session.noticing notice).AgreesApartFromNotice session :=
  ⟨rfl, rfl, rfl, rfl⟩

theorem StepsTo.noticing {session next : Session} {event : Event}
    (stepsTo : session.StepsTo event next) (notice : Option Notice) :
    (session.noticing notice).StepsTo event
      (next.noticing
        (bif Exchange.renews ⟨.step, .event event⟩ then next.notice else notice)) := by
  cases stepsTo with
  | idle halted => exact .idle halted
  | halted running still => exact .halted running still
  | terminated moves final => exact .terminated moves final
  | moved moves running fresh => exact .moved moves running fresh
  | cycle moves running detects visited => exact .cycle moves running detects visited

/-- No control looks at the notice. -/
theorem perform_noticing (session : Session) (notice : Option Notice) (control : Control) :
    (session.noticing notice).perform control =
      ((session.perform control).1,
        (session.perform control).2.noticing
          (bif Exchange.renews ⟨control, (session.perform control).1⟩ then
            (session.perform control).2.notice
          else
            notice)) := by
  have stepCase : (session.noticing notice).perform .step =
      ((session.perform .step).1,
        (session.perform .step).2.noticing
          (bif Exchange.renews ⟨.step, (session.perform .step).1⟩ then
            (session.perform .step).2.notice
          else
            notice)) := by
    have stepEq := (session.stepsTo_step.noticing notice).step_eq
    simp only [perform, stepEq]
  cases control with
  | detectCycles _ => rfl
  | setRules program =>
      cases accepted : session.machine.withProgram program with
      | error error =>
          have sameMachine : (session.noticing notice).machine.withProgram program =
              .error error := accepted
          rw [perform_setRules_of_error sameMachine, perform_setRules_of_error accepted]
          rfl
      | ok changed =>
          simp [perform, setRules, noticing, accepted, Exchange.renews]
  | restart _ => rfl
  | reset => rfl
  | play => rfl
  | pause => rfl
  | step => exact stepCase
  | tick =>
      have sameFlag : (session.noticing notice).running = session.running := rfl
      rw [perform_tick, perform_tick, sameFlag]
      cases session.running with
      | true => exact stepCase
      | false => rfl

theorem transcript_noticing (session : Session) (notice : Option Notice)
    (controls : List Control) :
    (session.noticing notice).transcript controls = session.transcript controls := by
  induction controls generalizing session notice with
  | nil => rfl
  | cons control rest inductionHypothesis =>
      simp only [transcript, perform_noticing, inductionHypothesis]

/-- Whatever the notice, a session becomes the same, and so does its notice once
it was renewed. -/
theorem after_noticing (session : Session) (notice : Option Notice) (controls : List Control) :
    (session.noticing notice).after controls =
      (session.after controls).noticing
        (bif (session.transcript controls).any Exchange.renews then
          (session.after controls).notice
        else
          notice) := by
  induction controls generalizing session notice with
  | nil => rfl
  | cons control rest inductionHypothesis =>
      simp only [after, transcript, perform_noticing, List.any_cons]
      cases Exchange.renews ⟨control, (session.perform control).1⟩ with
      | true => rfl
      | false => exact inductionHypothesis _ _

/-- A program that cannot be read does no more than a pause, apart from its
notice.  The two sessions respond alike to all further controls and stay the
same all along, and their notices are the same from the first exchange on that
renews them. -/
theorem rejected_program_only_pauses {program : Word} {error : LineError}
    (rejected : readRules (Text.lines program) = .error error) (session : Session) :
    (session.perform (.setRules program)).1 = .rejected error ∧
    (session.perform (.setRules program)).2.AgreesApartFromNotice (session.perform .pause).2 ∧
    ∀ controls,
      (session.perform (.setRules program)).2.transcript controls =
        (session.perform .pause).2.transcript controls ∧
      ((session.perform (.setRules program)).2.after controls).AgreesApartFromNotice
        ((session.perform .pause).2.after controls) ∧
      ((∃ exchange ∈ (session.perform .pause).2.transcript controls, exchange.renews = true) →
        ((session.perform (.setRules program)).2.after controls).notice =
          ((session.perform .pause).2.after controls).notice) := by
  have unreadable : session.machine.withProgram program = .error error := by
    rw [Machine.withProgram, Machine.withLines, rejected]
    rfl
  have noticed : session.perform (.setRules program) =
      (.rejected error, (session.perform .pause).2.noticing (some (.badProgram error))) :=
    perform_setRules_of_error unreadable
  rw [noticed]
  refine ⟨rfl, noticing_agrees _ _, ?_⟩
  intro controls
  refine ⟨transcript_noticing _ _ controls, ?_, ?_⟩
  · rw [after_noticing]
    exact noticing_agrees _ _
  · intro renewed
    rw [after_noticing, List.any_eq_true.mpr renewed]
    rfl

/-- A session that plays when it is given a line with two separate colons, and
then is played again until it comes upon a repetition. -/
theorem rejected_program_only_pauses_playing :
    readRules (Text.lines "a:b:c".toList) = .error ⟨"a:b:c".toList, some 1⟩ ∧
    ∃ session,
      session = new.after [.setRules "a:b\nb:a".toList, .restart ['a'], .step, .play] ∧
      (session.perform (.setRules "a:b:c".toList)).2.transcript [.tick, .play, .tick] =
        [⟨.tick, .paused⟩, .playing, ⟨.tick, .event (.cycle ⟨['a'], 2, 0⟩)⟩] ∧
      ((session.perform (.setRules "a:b:c".toList)).2.after [.tick, .play, .tick]).notice =
        ((session.perform .pause).2.after [.tick, .play, .tick]).notice := by
  have unread : readRules (Text.lines "a:b:c".toList) = .error ⟨"a:b:c".toList, some 1⟩ := by
    decide
  refine ⟨unread, _, rfl, ?_⟩
  have pauses := (rejected_program_only_pauses unread
    (new.after [.setRules "a:b\nb:a".toList, .restart ['a'], .step, .play])).2.2
      [.tick, .play, .tick]
  refine ⟨?_, pauses.2.2 (by decide)⟩
  rw [pauses.1]
  decide

end Session

end MarkovAlgorithm
