import MarkovAlgorithm.CommandLine.Execution
import MarkovAlgorithm.Proofs.Machine.Program

/-!
# The listing of a checked program

A check reads a program and lists its rules.  Read rules are written as the
lines they come from, so the listing shows these lines, in their order and
without a change.  No line holds a line feed, and so the listing has one line
for each of them and one for their number.

A check fails on exactly the programs with a line that has a separator but not
the form of a rule.
-/

namespace MarkovAlgorithm

open Rule (separator)

namespace Rule

/-- The line has one of the two forms of a rule: one separator, or a pair, between
two sides without any. -/
def HasForm (line : Word) : Prop :=
  ∃ pattern replacement, separator ∉ pattern ∧ separator ∉ replacement ∧
    (line = pattern ++ [separator] ++ replacement ∨
      line = pattern ++ [separator, separator] ++ replacement)

/-- The forms of a rule are the written forms of plain rules. -/
theorem hasForm_iff {line : Word} :
    HasForm line ↔ ∃ rule : Rule, rule.Plain ∧ rule.text = line := by
  constructor
  · rintro ⟨pattern, replacement, patternPlain, replacementPlain, rfl | rfl⟩
    · exact ⟨⟨pattern, replacement, false⟩, ⟨patternPlain, replacementPlain⟩, rfl⟩
    · exact ⟨⟨pattern, replacement, true⟩, ⟨patternPlain, replacementPlain⟩, rfl⟩
  · rintro ⟨⟨pattern, replacement, terminal⟩, plain, rfl⟩
    refine ⟨pattern, replacement, plain.1, plain.2, ?_⟩
    cases terminal with
    | false => exact .inl rfl
    | true => exact .inr rfl

theorem faulty_iff_not_hasForm {line : Word} :
    Faulty line ↔ separator ∈ line ∧ ¬HasForm line := by
  rw [hasForm_iff]
  have holds := holds_ofLine line
  generalize ofLine line = held at holds
  cases holds with
  | comment unmarked => simp [unmarked, not_faulty_of_not_mem unmarked]
  | @rule rule plain =>
      constructor
      · intro faulty
        exact absurd faulty plain.not_faulty
      · rintro ⟨_, notWritten⟩
        exact absurd ⟨rule, plain, rfl⟩ notWritten
  | fault faulty =>
      have marked : separator ∈ line :=
        List.count_pos_iff.mp (Nat.lt_of_lt_of_le Nat.zero_lt_two faulty.1)
      refine iff_of_true faulty ⟨marked, ?_⟩
      rintro ⟨rule, plain, rfl⟩
      exact plain.not_faulty faulty

end Rule

namespace CommandLine

/-! ## Listed lines -/

/-- The line of a listing that shows a line of a program. -/
def listedLine (line : Word) (index : Nat) : Word :=
  (Nat.toDigits 10 index).leftpad 4 ' ' ++ [' '] ++
    (if [separator, separator] <:+: line then "halt" else "    ").toList ++ [' '] ++ line ++ ['\n']

/-- The listing that shows lines of a program, and their number. -/
def lineListing (lines : List Word) : Word :=
  (lines.zipIdx.map fun (line, index) => listedLine line index).flatten ++
    Nat.toDigits 10 lines.length ++ " rules\n".toList

theorem ruleLine_eq_listedLine {rule : Rule} (plain : rule.Plain) (index : Nat) :
    ruleLine rule index = listedLine rule.text index := by
  unfold ruleLine listedLine
  by_cases terminal : rule.terminal = true
  · rw [if_pos terminal, if_pos (plain.terminal_iff_pair.mp terminal)]
    rfl
  · rw [if_neg terminal, if_neg (terminal ∘ plain.terminal_iff_pair.mpr)]
    rfl

/-- Plain rules are listed as the lines they are written as. -/
theorem listing_eq_lineListing {rules : List Rule} (plain : ∀ rule ∈ rules, rule.Plain) :
    listing rules = lineListing (rules.map Rule.text) := by
  have sameLines : (rules.zipIdx.map fun entry => ruleLine entry.1 entry.2) =
      (rules.map Rule.text).zipIdx.map fun entry => listedLine entry.1 entry.2 := by
    rw [List.zipIdx_map, List.map_map]
    apply List.map_congr_left
    rintro ⟨rule, index⟩ inRules
    exact ruleLine_eq_listedLine (plain rule (List.fst_mem_of_mem_zipIdx inRules)) index
  have sameCount : rules.length = (rules.map Rule.text).length :=
    (List.length_map Rule.text).symm
  exact congrArg₂ (fun shown count => shown.flatten ++ Nat.toDigits 10 count ++ " rules\n".toList)
    sameLines sameCount

/-! ## Line feeds of a listing -/

theorem count_lineFeed_toDigits (number : Nat) : (Nat.toDigits 10 number).count '\n' = 0 := by
  rw [List.count_eq_zero]
  intro inside
  have isDigit := Nat.isDigit_of_mem_toDigits (by decide) (by decide) inside
  contradiction

theorem count_lineFeed_listedLine {line : Word} (unbroken : '\n' ∉ line) (index : Nat) :
    (listedLine line index).count '\n' = 1 := by
  have kindUnbroken : (if [separator, separator] <:+: line then "halt" else "    ").toList.count
      '\n' = 0 := by
    split <;> rfl
  simp [listedLine, List.leftpad, List.count_replicate, count_lineFeed_toDigits, kindUnbroken,
    List.count_eq_zero.mpr unbroken]

/-- A listing has a line for each line that it shows, and one more. -/
theorem count_lineFeed_lineListing {lines : List Word} (unbroken : ∀ line ∈ lines, '\n' ∉ line) :
    (lineListing lines).count '\n' = lines.length + 1 := by
  have single : (lines.zipIdx.map fun (line, index) => listedLine line index).map
      (List.count '\n') = List.replicate lines.length 1 := by
    rw [List.map_map, List.eq_replicate_iff]
    refine ⟨by simp, ?_⟩
    intro count inCounts
    obtain ⟨⟨line, index⟩, inLines, rfl⟩ := List.mem_map.mp inCounts
    exact count_lineFeed_listedLine (unbroken line (List.fst_mem_of_mem_zipIdx inLines)) index
  rw [lineListing, List.count_append, List.count_append, List.count_flatten, single,
    count_lineFeed_toDigits]
  simp

/-! ## Checks -/

theorem readProgram_standardInput (fileContent : Word → Except ReadFailure ByteArray)
    (program : Word) :
    readProgram ⟨fileContent, (String.ofList program).toUTF8⟩ ['-'] = .ok program := by
  have decoded : String.fromUTF8? (String.ofList program).toUTF8 = some (String.ofList program) :=
    dif_pos (String.ofList program).isValidUTF8
  rw [readProgram, if_pos (show isStandardInput ['-'] = true from rfl), decodeText, decoded]
  exact congrArg Except.ok String.toList_ofList

theorem readProgram_bind_checkProgram {surroundings : Surroundings} {path program : Word}
    (read : readProgram surroundings path = .ok program) :
    (readProgram surroundings path >>= checkProgram path) = checkProgram path program := by
  rw [read]
  rfl

/-- A check fails on exactly the programs with a line that has a separator but not
the form of a rule.  Otherwise it lists the lines that have a separator, each with
its number among them and with a mark if it holds a pair, and how many there
are. -/
theorem executeCheck_lists_lines {surroundings : Surroundings} {path program : Word}
    {lines : List Word} (read : readProgram surroundings path = .ok program)
    (divides : Text.Divides program lines) :
    ((∃ error : LineError, executeCheck surroundings path =
        ⟨1, [], "error: ".toList ++ ("invalid program ".toList ++ path ++ ": ".toList ++
          error.message) ++ ['\n']⟩) ↔
      ∃ line ∈ lines, separator ∈ line ∧ ¬Rule.HasForm line) ∧
    ((¬∃ line ∈ lines, separator ∈ line ∧ ¬Rule.HasForm line) →
      executeCheck surroundings path = ⟨0, lineListing (lines.filter (separator ∈ ·)), []⟩ ∧
      (lineListing (lines.filter (separator ∈ ·))).count '\n' =
        (lines.filter (separator ∈ ·)).length + 1) := by
  simp only [← Rule.faulty_iff_not_hasForm]
  have holds := linesHold_readRulesFrom 1 lines
  generalize linesRead : readRulesFrom 1 lines = found at holds
  cases holds with
  | @rules _ rules sound plain texts =>
      have listed : checkProgram path program = .ok (listing rules) := by
        rw [checkProgram, Machine.empty.withProgram_eq_map divides, linesRead]
        rfl
      have succeeds : executeCheck surroundings path = ⟨0, listing rules, []⟩ := by
        rw [executeCheck, readProgram_bind_checkProgram read, listed]
      have noneFaulty : ¬∃ line ∈ lines, Rule.Faulty line := by
        rintro ⟨line, inLines, faulty⟩
        exact sound line inLines faulty
      rw [succeeds]
      constructor
      · refine iff_of_false ?_ noneFaulty
        rintro ⟨error, failed⟩
        exact absurd (congrArg Result.exitCode failed) Nat.zero_ne_one
      · intro _
        have unbroken : ∀ line ∈ lines.filter (separator ∈ ·), '\n' ∉ line := by
          intro line inMarked
          exact divides.not_mem (List.mem_of_mem_filter inMarked)
        refine ⟨?_, count_lineFeed_lineListing unbroken⟩
        rw [← texts, ← listing_eq_lineListing plain]
  | @fault before after line sound faulty =>
      have failed : checkProgram path program =
          .error (.badProgramFile path ⟨line, some (1 + before.length)⟩) := by
        rw [checkProgram, Machine.empty.withProgram_eq_map divides, linesRead]
        rfl
      have fails : executeCheck surroundings path =
          (Failure.badProgramFile path ⟨line, some (1 + before.length)⟩).result := by
        rw [executeCheck, readProgram_bind_checkProgram read, failed]
      have someFaulty : ∃ fault ∈ before ++ line :: after, Rule.Faulty fault :=
        ⟨line, by simp, faulty⟩
      rw [fails]
      constructor
      · exact iff_of_true ⟨⟨line, some (1 + before.length)⟩, rfl⟩ someFaulty
      · intro noneFaulty
        exact absurd someFaulty noneFaulty

/-- A program of comments, rules of both kinds and different line ends, and one
with a third separator in its last line. -/
theorem executeCheck_lists_lines_mixed :
    executeCheck ⟨fun _ => .error .notFound, (String.ofList "#\na:b\r\n\n ::\r".toList).toUTF8⟩
        ['-'] =
      ⟨0, "   0      a:b\n   1 halt  ::\r\n2 rules\n".toList, []⟩ ∧
    ∃ error : LineError,
      executeCheck ⟨fun _ => .error .notFound, (String.ofList "a:b\na::b:".toList).toUTF8⟩ ['-'] =
        ⟨1, [], "error: ".toList ++ ("invalid program ".toList ++ ['-'] ++ ": ".toList ++
          error.message) ++ ['\n']⟩ := by
  constructor
  · have regular : ∀ line ∈ Text.lines "#\na:b\r\n\n ::\r".toList, Rule.Regular line := by
      unfold Rule.Regular
      decide
    have noneFaulty : ¬∃ line ∈ Text.lines "#\na:b\r\n\n ::\r".toList,
        separator ∈ line ∧ ¬Rule.HasForm line := by
      rintro ⟨line, inLines, noForm⟩
      exact Rule.regular_iff_not_faulty.mp (regular line inLines)
        (Rule.faulty_iff_not_hasForm.mpr noForm)
    rw [((executeCheck_lists_lines (readProgram_standardInput _ _) (Text.divides_lines _)).2
      noneFaulty).1]
    decide
  · have irregular : ¬Rule.Regular "a::b:".toList := by
      unfold Rule.Regular
      decide
    have faulty : Rule.Faulty "a::b:".toList :=
      Classical.not_not.mp (mt Rule.regular_iff_not_faulty.mpr irregular)
    apply (executeCheck_lists_lines (readProgram_standardInput _ _) (Text.divides_lines _)).1.mpr
    exact ⟨"a::b:".toList, by decide, Rule.faulty_iff_not_hasForm.mp faulty⟩

end CommandLine

end MarkovAlgorithm
