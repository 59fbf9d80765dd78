import MarkovAlgorithm.Machine
import MarkovAlgorithm.Proofs.Rule.Text
import MarkovAlgorithm.Proofs.Text.Lines

/-!
# Reading and listing programs

`LinesHold` says what the lines of a program hold: the rules of the lines that
are not comments, or the first faulty line with its number.  Reading finds
exactly that, whatever stands behind a faulty line.

A list of rules is listed with one rule a line.  The listing reads back as the
list exactly when every rule fits on a line: a separator, a line feed or a
carriage return at the end of a rule would be taken for something else.
-/

namespace MarkovAlgorithm

open Rule (separator Faulty Regular)

/-! ## Lines -/

/-- What lines hold, the first of which has the given number. -/
inductive LinesHold (number : Nat) : List Word → Except LineError (List Rule) → Prop where
  | rules {lines : List Word} {rules : List Rule} (sound : ∀ line ∈ lines, ¬Faulty line)
      (plain : ∀ rule ∈ rules, rule.Plain)
      (texts : rules.map Rule.text = lines.filter (separator ∈ ·)) :
      LinesHold number lines (.ok rules)
  | fault {before after : List Word} {line : Word} (sound : ∀ earlier ∈ before, ¬Faulty earlier)
      (faulty : Faulty line) :
      LinesHold number (before ++ line :: after)
        (.error ⟨line, some (number + before.length)⟩)

namespace LinesHold

variable {number : Nat} {rest : List Word} {result : Except LineError (List Rule)}

/-- A line in front that is not faulty leaves the first faulty line where it
is. -/
theorem error_cons {line : Word} {error : LineError} (sound : ¬Faulty line)
    (holds : LinesHold (number + 1) rest (.error error)) :
    LinesHold number (line :: rest) (.error error) := by
  cases holds with
  | @fault before after fault restSound faulty =>
      have earlierSound : ∀ earlier ∈ line :: before, ¬Faulty earlier :=
        List.forall_mem_cons.mpr ⟨sound, restSound⟩
      rw [Nat.add_assoc, Nat.add_comm 1]
      exact .fault earlierSound faulty

theorem comment {line : Word} (unmarked : separator ∉ line)
    (holds : LinesHold (number + 1) rest result) : LinesHold number (line :: rest) result := by
  have sound := Rule.not_faulty_of_not_mem unmarked
  cases result with
  | error error => exact holds.error_cons sound
  | ok found =>
      cases holds with
      | rules restSound plain texts =>
          apply rules (List.forall_mem_cons.mpr ⟨sound, restSound⟩) plain
          rw [texts, List.filter_cons_of_neg (by simpa using unmarked)]

theorem rule {rule : Rule} (plain : rule.Plain) (holds : LinesHold (number + 1) rest result) :
    LinesHold number (rule.text :: rest) (result.map (rule :: ·)) := by
  cases result with
  | error error => exact holds.error_cons plain.not_faulty
  | ok found =>
      cases holds with
      | rules restSound restPlain texts =>
          apply rules (List.forall_mem_cons.mpr ⟨plain.not_faulty, restSound⟩)
            (List.forall_mem_cons.mpr ⟨plain, restPlain⟩)
          rw [List.map_cons, texts,
            List.filter_cons_of_pos (by simpa using rule.separator_mem_text)]

end LinesHold

theorem readRulesFrom_text {rule : Rule} (plain : rule.Plain) (number : Nat) (rest : List Word) :
    readRulesFrom number (rule.text :: rest) =
      (readRulesFrom (number + 1) rest).map (rule :: ·) := by
  rw [readRulesFrom, plain.ofLine_text]
  cases readRulesFrom (number + 1) rest <;> rfl

/-- Reading finds what the lines hold. -/
theorem linesHold_readRulesFrom (number : Nat) (lines : List Word) :
    LinesHold number lines (readRulesFrom number lines) := by
  induction lines generalizing number with
  | nil => exact .rules (List.forall_mem_nil _) (List.forall_mem_nil _) rfl
  | cons line rest inductionHypothesis =>
      have restHolds := inductionHypothesis (number + 1)
      have holds := Rule.holds_ofLine line
      generalize read : Rule.ofLine line = held at holds
      cases holds with
      | comment unmarked =>
          rw [readRulesFrom, read]
          exact restHolds.comment unmarked
      | rule plain =>
          rw [readRulesFrom_text plain]
          exact restHolds.rule plain
      | fault faulty =>
          rw [readRulesFrom, read]
          exact .fault (List.forall_mem_nil _) faulty

/-! ## Programs -/

namespace Machine

/-- A machine takes the rules of a program exactly as its lines hold them. -/
theorem withProgram_eq_map (machine : Machine) {program : Word} {lines : List Word}
    (divides : Text.Divides program lines) :
    machine.withProgram program =
      (readRulesFrom 1 lines).map fun rules => { machine with rules } := by
  rw [withProgram, withLines, Text.lines_eq_iff_divides.mpr divides]
  rfl

theorem withProgram_eq_ok_iff {machine next : Machine} {program : Word} :
    machine.withProgram program = .ok next ↔
      ∃ rules, readRulesFrom 1 (Text.lines program) = .ok rules ∧
        next = { machine with rules } := by
  rw [machine.withProgram_eq_map (Text.divides_lines program)]
  cases readRulesFrom 1 (Text.lines program) with
  | error error => simp [Except.map]
  | ok rules => simp [Except.map, eq_comm]

/-- A program is read by its lines.  If the separators of every line are in
order, the machine takes the rules of the lines that have one, each written as
its line and terminal if the line has a pair, and changes in nothing else.
Otherwise the first line whose separators are not in order is reported with its
number, whatever comes behind it. -/
theorem withProgram_reads_lines (machine : Machine) (program : Word) :
    (∃! lines, Text.Divides program lines) ∧
    ∀ lines, Text.Divides program lines →
      ((∀ line ∈ lines, Regular line) →
        ∃ rules, machine.withProgram program = .ok { machine with rules } ∧
          rules.map Rule.text = lines.filter (separator ∈ ·) ∧
          ∀ rule ∈ rules, rule.Plain ∧
            (rule.terminal = true ↔ [separator, separator] <:+: rule.text)) ∧
      ((¬∀ line ∈ lines, Regular line) →
        ∃ before line after, lines = before ++ line :: after ∧
          (∀ earlier ∈ before, Regular earlier) ∧ ¬Regular line ∧
          machine.withProgram program = .error ⟨line, some (before.length + 1)⟩) := by
  constructor
  · refine ⟨Text.lines program, Text.divides_lines program, ?_⟩
    intro other divides
    exact (Text.lines_eq_iff_divides.mpr divides).symm
  · intro lines divides
    rw [machine.withProgram_eq_map divides]
    have holds := linesHold_readRulesFrom 1 lines
    generalize readRulesFrom 1 lines = read at holds ⊢
    simp only [Rule.regular_iff_not_faulty]
    cases holds with
    | @rules _ rules sound plain texts =>
        constructor
        · intro _
          refine ⟨rules, rfl, texts, ?_⟩
          intro rule inRules
          exact ⟨plain rule inRules, (plain rule inRules).terminal_iff_pair⟩
        · intro unsound
          exact absurd sound unsound
    | @fault before after line sound faulty =>
        constructor
        · intro allSound
          exact absurd faulty (allSound line (by simp))
        · intro _
          refine ⟨before, line, after, rfl, sound, not_not.mpr faulty, ?_⟩
          rw [Nat.add_comm]
          rfl

/-- A comment that holds a carriage return between two rules with different line
ends, and a program whose third line is the first faulty one. -/
theorem withProgram_reads_lines_mixed :
    (∃ rules,
      empty.withProgram "a:b\r\n#\r#\nb::c\r".toList = .ok { empty with rules } ∧
        rules.map Rule.text = ["a:b".toList, "b::c\r".toList]) ∧
    ∃ before line after, [[], [':'], "::a:".toList, ":::".toList] = before ++ line :: after ∧
      (∀ earlier ∈ before, Regular earlier) ∧ ¬Regular line ∧
      empty.withProgram "\n:\r\n::a:\n:::".toList = .error ⟨line, some (before.length + 1)⟩ := by
  have regular : ∀ line ∈ Text.lines "a:b\r\n#\r#\nb::c\r".toList, Regular line := by
    unfold Regular
    decide
  have irregular : ¬∀ line ∈ Text.lines "\n:\r\n::a:\n:::".toList, Regular line := by
    unfold Regular
    decide
  constructor
  · obtain ⟨rules, accepted, texts, _⟩ :=
      ((withProgram_reads_lines empty _).2 _ (Text.divides_lines _)).1 regular
    exact ⟨rules, accepted, texts⟩
  · exact ((withProgram_reads_lines empty _).2 _ (Text.divides_lines _)).2 irregular

end Machine

/-! ## Listings -/

/-- The text that lists rules, each on a line of its own. -/
def listing (rules : List Rule) : Word :=
  rules.flatMap fun rule => rule.text ++ ['\n']

namespace Rule

/-- The rule can be written on a line and read back from it. -/
structure FitsLine (rule : Rule) : Prop where
  plain : rule.Plain
  unbroken : '\n' ∉ rule.pattern ∧ '\n' ∉ rule.replacement
  noReturn : rule.replacement.getLast? ≠ some '\r'

theorem lineFeed_not_mem_text_iff (rule : Rule) :
    '\n' ∉ rule.text ↔ '\n' ∉ rule.pattern ∧ '\n' ∉ rule.replacement := by
  cases terminal : rule.terminal <;> simp [text, terminal, separator]

theorem getLast?_text_eq_return_iff (rule : Rule) :
    rule.text.getLast? = some '\r' ↔ rule.replacement.getLast? = some '\r' := by
  cases terminal : rule.terminal <;> cases ends : rule.replacement.getLast? <;>
    simp [text, terminal, ends, separator, List.getLast?_cons]

/-- A rule fits on a line if nothing of its written form is taken for something
else. -/
theorem fitsLine_iff {rule : Rule} :
    rule.FitsLine ↔
      rule.Plain ∧ '\n' ∉ rule.text ∧ Text.withoutReturn rule.text = rule.text := by
  rw [lineFeed_not_mem_text_iff, Text.withoutReturn_eq_self_iff, ne_eq,
    getLast?_text_eq_return_iff]
  constructor
  · rintro ⟨plain, unbroken, noReturn⟩
    exact ⟨plain, unbroken, noReturn⟩
  · rintro ⟨plain, unbroken, noReturn⟩
    exact ⟨plain, unbroken, noReturn⟩

end Rule

/-- Rules without line feeds are listed on one line each. -/
theorem divides_listing {rules : List Rule} (unbroken : ∀ rule ∈ rules, '\n' ∉ rule.text) :
    Text.Divides (listing rules) (rules.map fun rule => Text.withoutReturn rule.text) := by
  induction rules with
  | nil => exact .empty
  | cons first rest inductionHypothesis =>
      obtain ⟨firstUnbroken, restUnbroken⟩ := List.forall_mem_cons.mp unbroken
      rw [listing, List.flatMap_cons, List.append_assoc, List.singleton_append, List.map_cons]
      exact .ended firstUnbroken (inductionHypothesis restUnbroken)

theorem readRulesFrom_map_text {rules : List Rule} (plain : ∀ rule ∈ rules, rule.Plain)
    (number : Nat) : readRulesFrom number (rules.map Rule.text) = .ok rules := by
  induction rules generalizing number with
  | nil => rfl
  | cons first rest inductionHypothesis =>
      obtain ⟨firstPlain, restPlain⟩ := List.forall_mem_cons.mp plain
      rw [List.map_cons, readRulesFrom_text firstPlain, inductionHypothesis restPlain]
      rfl

/-- Rules that are read from their own listing fit on lines. -/
theorem fitsLine_of_linesHold {rules : List Rule} {lines : List Word}
    (divides : Text.Divides (listing rules) lines) {number : Nat}
    (holds : LinesHold number lines (.ok rules)) : ∀ rule ∈ rules, rule.FitsLine := by
  cases holds with
  | rules sound plain texts =>
      have unbroken : ∀ rule ∈ rules, '\n' ∉ rule.text := by
        intro rule inRules
        have inTexts : rule.text ∈ rules.map Rule.text := List.mem_map_of_mem inRules
        rw [texts] at inTexts
        exact divides.not_mem (List.mem_of_mem_filter inTexts)
      -- there are as many lines as rules, so none is a comment
      obtain rfl : lines = rules.map fun rule => Text.withoutReturn rule.text :=
        (Text.lines_eq_iff_divides.mpr divides).symm.trans
          (Text.lines_eq_iff_divides.mpr (divides_listing unbroken))
      have allRules : (rules.map fun rule => Text.withoutReturn rule.text).filter
          (separator ∈ ·) = rules.map fun rule => Text.withoutReturn rule.text := by
        apply List.filter_sublist.eq_of_length
        rw [← texts, List.length_map, List.length_map]
      rw [allRules, List.map_inj_left] at texts
      intro rule inRules
      rw [Rule.fitsLine_iff]
      exact ⟨plain rule inRules, unbroken rule inRules, (texts rule inRules).symm⟩

/-- A listing of rules is read back as these rules exactly when every rule fits
on a line. -/
theorem withProgram_listing_iff (machine : Machine) (rules : List Rule) :
    (∃ next, machine.withProgram (listing rules) = .ok next ∧ next.rules = rules) ↔
      ∀ rule ∈ rules, rule.FitsLine := by
  constructor
  · rintro ⟨next, accepted, nextRules⟩
    obtain ⟨found, read, rfl⟩ := Machine.withProgram_eq_ok_iff.mp accepted
    cases nextRules
    have holds := linesHold_readRulesFrom 1 (Text.lines (listing found))
    rw [read] at holds
    exact fitsLine_of_linesHold (Text.divides_lines (listing found)) holds
  · intro fits
    simp only [Rule.fitsLine_iff] at fits
    have divides := divides_listing fun rule inRules => (fits rule inRules).2.1
    have kept : (rules.map fun rule => Text.withoutReturn rule.text) = rules.map Rule.text :=
      List.map_congr_left fun rule inRules => (fits rule inRules).2.2
    rw [kept] at divides
    refine ⟨{ machine with rules }, ?_, rfl⟩
    rw [machine.withProgram_eq_map divides,
      readRulesFrom_map_text fun rule inRules => (fits rule inRules).1]
    rfl

/-- A carriage return at the end of a pattern is kept, one at the end of a
replacement is not. -/
theorem withProgram_listing_iff_return :
    (∃ next, Machine.empty.withProgram (listing [⟨['\r'], ['a'], false⟩]) = .ok next ∧
      next.rules = [⟨['\r'], ['a'], false⟩]) ∧
    ¬∃ next, Machine.empty.withProgram (listing [⟨['a'], ['\r', '\r'], false⟩]) = .ok next ∧
      next.rules = [⟨['a'], ['\r', '\r'], false⟩] := by
  constructor
  · rw [withProgram_listing_iff, List.forall_mem_singleton]
    exact ⟨by unfold Rule.Plain; decide, by decide, by decide⟩
  · rw [withProgram_listing_iff, List.forall_mem_singleton]
    intro fits
    exact fits.noReturn rfl

end MarkovAlgorithm
