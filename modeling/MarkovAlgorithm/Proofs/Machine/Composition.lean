import MarkovAlgorithm.Proofs.Machine.Program
import MarkovAlgorithm.Proofs.Text.LineEnds

/-!
# Joined programs and varied line ends

Lines are read one after the other, so a joined list of lines holds the rules
of the first list and then those of the second, or the fault that comes first.
Where reading starts only shows in the number of a fault.  The same therefore
holds of two program texts that meet at the end of a line.

Line ends show nowhere in what a machine takes from a program: neither how they
are written, nor whether the last line has one.
-/

namespace MarkovAlgorithm

/-- The same error in a program that has a number of lines more in front. -/
def LineError.movedBy (error : LineError) (count : Nat) : LineError :=
  { error with number := error.number.map (· + count) }

/-! ## Joined lines -/

theorem readRulesFrom_append (number : Nat) (first second : List Word) :
    readRulesFrom number (first ++ second) =
      (readRulesFrom number first).bind fun rules =>
        (readRulesFrom (number + first.length) second).map (rules ++ ·) := by
  induction first generalizing number with
  | nil =>
      rw [List.nil_append, List.length_nil, Nat.add_zero]
      cases readRulesFrom number second <;> rfl
  | cons line rest inductionHypothesis =>
      have sameNumber : number + (line :: rest).length = number + 1 + rest.length := by
        rw [List.length_cons]
        omega
      rw [List.cons_append, sameNumber, readRulesFrom, readRulesFrom, inductionHypothesis]
      cases Rule.ofLine line with
      | error error => rfl
      | ok held =>
          cases held with
          | none => rfl
          | some rule =>
              cases readRulesFrom (number + 1) rest with
              | error error => rfl
              | ok rules => cases readRulesFrom (number + 1 + rest.length) second <;> rfl

/-- Lines further down hold the same rules, and the same fault further down. -/
theorem readRulesFrom_add (number count : Nat) (lines : List Word) :
    readRulesFrom (number + count) lines =
      (readRulesFrom number lines).mapError (·.movedBy count) := by
  induction lines generalizing number with
  | nil => rfl
  | cons line rest inductionHypothesis =>
      rw [readRulesFrom, readRulesFrom, Nat.add_right_comm, inductionHypothesis]
      cases Rule.ofLine line with
      | error error => rfl
      | ok held =>
          cases held with
          | none => rfl
          | some rule => cases readRulesFrom (number + 1) rest <;> rfl

theorem exists_number_of_readRulesFrom {number : Nat} {lines : List Word} {error : LineError}
    (failed : readRulesFrom number lines = .error error) :
    ∃ position, error.number = some position := by
  have holds := linesHold_readRulesFrom number lines
  rw [failed] at holds
  cases holds with
  | fault _ _ => exact ⟨_, rfl⟩

theorem readRulesFrom_append_empty (number : Nat) (lines : List Word) :
    readRulesFrom number (lines ++ [[]]) = readRulesFrom number lines := by
  have nothing : readRulesFrom (number + lines.length) [[]] = .ok [] := rfl
  rw [readRulesFrom_append, nothing]
  cases readRulesFrom number lines with
  | error error => rfl
  | ok rules => exact congrArg Except.ok (List.append_nil rules)

/-! ## Joined programs -/

/-- What follows a closed text is read from the line behind it on. -/
theorem readRulesFrom_lines_append {first : Word} (closed : Text.Closed first) (second : Word) :
    readRulesFrom 1 (Text.lines (first ++ second)) =
      (readRulesFrom 1 (Text.lines first)).bind fun rules =>
        ((readRulesFrom 1 (Text.lines second)).mapError
          (·.movedBy (first.count '\n'))).map (rules ++ ·) := by
  have firstDivides := Text.divides_lines first
  have joined := firstDivides.append closed (Text.divides_lines second)
  rw [Text.lines_eq_iff_divides.mpr joined, readRulesFrom_append,
    firstDivides.length_eq_count closed, readRulesFrom_add]

namespace Machine

/-- A program that is joined from two at the end of a line is accepted exactly if
both are, and has the rules of the first and then those of the second.  It fails
as the first part does, or else as the second does, only further down. -/
theorem withProgram_composes (machine : Machine) {first second : Word}
    (closed : Text.Closed first) :
    ((∃ next, machine.withProgram (first ++ second) = .ok next) ↔
      (∃ next, machine.withProgram first = .ok next) ∧
        ∃ next, machine.withProgram second = .ok next) ∧
    (∀ firstNext secondNext, machine.withProgram first = .ok firstNext →
      machine.withProgram second = .ok secondNext →
      machine.withProgram (first ++ second) =
        .ok { machine with rules := firstNext.rules ++ secondNext.rules }) ∧
    (∀ error, machine.withProgram first = .error error →
      machine.withProgram (first ++ second) = .error error) ∧
    ∀ firstNext error, machine.withProgram first = .ok firstNext →
      machine.withProgram second = .error error →
      ∃ number, error.number = some number ∧
        machine.withProgram (first ++ second) =
          .error ⟨error.line, some (number + first.count '\n')⟩ := by
  have joined := readRulesFrom_lines_append closed second
  rw [machine.withProgram_eq_map (Text.divides_lines (first ++ second)),
    machine.withProgram_eq_map (Text.divides_lines first),
    machine.withProgram_eq_map (Text.divides_lines second), joined]
  cases firstRead : readRulesFrom 1 (Text.lines first) with
  | error error => simp [Except.bind, Except.map]
  | ok firstRules =>
      cases secondRead : readRulesFrom 1 (Text.lines second) with
      | ok secondRules => simp [Except.bind, Except.map, Except.mapError]
      | error error =>
          obtain ⟨number, numbered⟩ := exists_number_of_readRulesFrom secondRead
          simp [Except.bind, Except.map, Except.mapError, LineError.movedBy, numbered]

/-- The seam stands behind a comment, and the fault of the second program on its
second line becomes one on the fourth. -/
theorem withProgram_composes_comment :
    Text.Closed "a:b\r\n#\n".toList ∧
    empty.withProgram ("a:b\r\n#\n".toList ++ "b::c".toList) =
      .ok { empty with rules := [⟨['a'], ['b'], false⟩, ⟨['b'], ['c'], true⟩] } ∧
    empty.withProgram ("a:b\r\n#\n".toList ++ "\n:::\n::::".toList) =
      .error ⟨":::".toList, some 4⟩ := by
  have closed : Text.Closed "a:b\r\n#\n".toList := .inr rfl
  have firstRead : empty.withProgram "a:b\r\n#\n".toList =
      .ok { empty with rules := [⟨['a'], ['b'], false⟩] } := rfl
  have secondRead : empty.withProgram "b::c".toList =
      .ok { empty with rules := [⟨['b'], ['c'], true⟩] } := rfl
  have secondFailed : empty.withProgram "\n:::\n::::".toList =
      .error ⟨":::".toList, some 2⟩ := rfl
  refine ⟨closed, (withProgram_composes empty closed).2.1 _ _ firstRead secondRead, ?_⟩
  obtain ⟨number, numbered, failed⟩ :=
    (withProgram_composes empty closed).2.2.2 _ _ firstRead secondFailed
  cases numbered
  exact failed

/-! ## Varied line ends -/

theorem withProgram_append_lineFeed (machine : Machine) {text : Word} (noReturn : '\r' ∉ text) :
    machine.withProgram (text ++ ['\n']) = machine.withProgram text := by
  have divides := Text.divides_lines text
  rw [machine.withProgram_eq_map divides]
  rcases divides.append_lineFeed noReturn with closed | extended
  · rw [machine.withProgram_eq_map closed]
  · rw [machine.withProgram_eq_map extended, readRulesFrom_append_empty]

/-- A program without carriage returns means the same to a machine with whatever
line ends, and with or without one behind its last line. -/
theorem withProgram_ignores_lineEnds (machine : Machine) {text varied ending : Word}
    (noReturn : '\r' ∉ text) (varies : Text.LineEndsVary text varied)
    (isEnding : ending = [] ∨ ending = ['\n'] ∨ ending = ['\r', '\n']) :
    machine.withProgram (varied ++ ending) = machine.withProgram text := by
  rcases isEnding with rfl | isClosing
  · rw [List.append_nil, withProgram, withProgram, varies.lines_eq noReturn]
  · have endingVaries : Text.LineEndsVary ['\n'] ending := by
      rcases isClosing with rfl | rfl
      · exact .kept '\n' .empty
      · exact .returned .empty
    have closedNoReturn : '\r' ∉ text ++ ['\n'] := by simp [noReturn]
    rw [withProgram, (varies.append endingVaries).lines_eq closedNoReturn, ← withProgram]
    exact machine.withProgram_append_lineFeed noReturn

/-- Only one of two line feeds is varied, and the last line is closed; so too in a
program that has a fault on its second line. -/
theorem withProgram_ignores_lineEnds_mixed :
    Text.LineEndsVary "a:b\n\nb::c".toList "a:b\n\r\nb::c".toList ∧
    empty.withProgram ("a:b\n\r\nb::c".toList ++ ['\r', '\n']) =
      .ok { empty with rules := [⟨['a'], ['b'], false⟩, ⟨['b'], ['c'], true⟩] } ∧
    Text.LineEndsVary "\n:::".toList "\r\n:::".toList ∧
    empty.withProgram ("\r\n:::".toList ++ ['\n']) = .error ⟨":::".toList, some 2⟩ := by
  have varies : Text.LineEndsVary "a:b\n\nb::c".toList "a:b\n\r\nb::c".toList :=
    .kept 'a' (.kept ':' (.kept 'b' (.kept '\n' (.returned
      (.kept 'b' (.kept ':' (.kept ':' (.kept 'c' .empty))))))))
  have faultyVaries : Text.LineEndsVary "\n:::".toList "\r\n:::".toList :=
    .returned (.kept ':' (.kept ':' (.kept ':' .empty)))
  refine ⟨varies, ?_, faultyVaries, ?_⟩
  · rw [withProgram_ignores_lineEnds empty (by decide) varies (.inr (.inr rfl))]
    rfl
  · rw [withProgram_ignores_lineEnds empty (by decide) faultyVaries (.inr (.inl rfl))]
    rfl

end Machine

end MarkovAlgorithm
