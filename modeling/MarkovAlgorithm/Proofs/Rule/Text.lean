import Mathlib.Data.List.Count
import Mathlib.Data.List.TakeWhile
import Mathlib.Data.Set.Function
import MarkovAlgorithm.Rule

/-!
# Reading and writing rules

A line is a comment, the written form of one rule, or an error, and
`Rule.Holds` says which by the separators in the line alone.  Reading decides
between the three exactly so: `Rule.ofLine_eq_iff`.

A rule can be read back from its written form exactly when neither of its
sides holds a separator.  Other rules have written forms, too, but such a line
is an error or holds a different rule.
-/

namespace MarkovAlgorithm.Rule

/-- Neither side holds a separator. -/
def Plain (rule : Rule) : Prop :=
  separator ∉ rule.pattern ∧ separator ∉ rule.replacement

/-- The line has several separators, and they are not a single adjacent
pair. -/
def Faulty (line : Word) : Prop :=
  2 ≤ line.count separator ∧
    ¬∃ before after, separator ∉ before ∧ separator ∉ after ∧
      line = before ++ [separator, separator] ++ after

/-- The line has at most one separator, or exactly two that are adjacent. -/
def Regular (line : Word) : Prop :=
  line.count separator ≤ 1 ∨
    line.count separator = 2 ∧ [separator, separator] <:+: line

/-- What a line holds. -/
inductive Holds : Word → Except LineError (Option Rule) → Prop where
  | comment {line : Word} (unmarked : separator ∉ line) : Holds line (.ok none)
  | rule {rule : Rule} (plain : rule.Plain) : Holds rule.text (.ok (some rule))
  | fault {line : Word} (faulty : Faulty line) : Holds line (.error ⟨line, none⟩)

/-! ## The written form -/

theorem text_terminal (pattern replacement : Word) :
    text ⟨pattern, replacement, true⟩ = pattern ++ separator :: separator :: replacement := by
  simp [text]

theorem text_ordinary (pattern replacement : Word) :
    text ⟨pattern, replacement, false⟩ = pattern ++ separator :: replacement := by
  simp [text]

theorem separator_mem_text (rule : Rule) : separator ∈ rule.text := by
  rcases rule with ⟨pattern, replacement, terminal⟩
  cases terminal with
  | true => simp [text_terminal]
  | false => simp [text_ordinary]

/-- The written form of a plain rule has no separators but the mark. -/
theorem Plain.count_text {rule : Rule} (plain : rule.Plain) :
    rule.text.count separator = if rule.terminal then 2 else 1 := by
  rcases rule with ⟨pattern, replacement, terminal⟩
  have patternCount : pattern.count separator = 0 := List.count_eq_zero.mpr plain.1
  have replacementCount : replacement.count separator = 0 := List.count_eq_zero.mpr plain.2
  cases terminal with
  | true => simp [text_terminal, patternCount, replacementCount]
  | false => simp [text_ordinary, patternCount, replacementCount]

/-- The written form of a plain rule shows whether the rule is terminal. -/
theorem Plain.terminal_iff_pair {rule : Rule} (plain : rule.Plain) :
    rule.terminal = true ↔ [separator, separator] <:+: rule.text := by
  constructor
  · intro terminal
    refine ⟨rule.pattern, rule.replacement, ?_⟩
    simp [text, terminal]
  · intro pair
    by_contra ordinary
    have several : 2 ≤ rule.text.count separator := pair.sublist.count_le separator
    rw [plain.count_text, if_neg ordinary] at several
    contradiction

theorem Plain.not_faulty {rule : Rule} (plain : rule.Plain) : ¬Faulty rule.text := by
  rintro ⟨several, noPair⟩
  rw [plain.count_text] at several
  split at several
  · rename_i terminal
    apply noPair
    refine ⟨rule.pattern, rule.replacement, plain.1, plain.2, ?_⟩
    simp [text, terminal]
  · contradiction

theorem not_faulty_of_not_mem {line : Word} (unmarked : separator ∉ line) : ¬Faulty line := by
  rintro ⟨several, _⟩
  rw [List.count_eq_zero.mpr unmarked] at several
  contradiction

/-- The separators of a line are in order unless the line is faulty. -/
theorem regular_iff_not_faulty {line : Word} : Regular line ↔ ¬Faulty line := by
  constructor
  · rintro (few | ⟨two, before, after, rfl⟩) ⟨several, noPair⟩
    · exact Nat.not_succ_le_self 1 (Nat.le_trans several few)
    · apply noPair
      rw [List.count_append, List.count_append] at two
      have pairCount : [separator, separator].count separator = 2 := rfl
      exact ⟨before, after, List.count_eq_zero.mp (by omega), List.count_eq_zero.mp (by omega), rfl⟩
  · intro notFaulty
    by_cases few : line.count separator ≤ 1
    · exact .inl few
    · right
      by_contra noPair
      apply notFaulty
      refine ⟨Nat.lt_of_not_le few, ?_⟩
      rintro ⟨before, after, beforePlain, afterPlain, rfl⟩
      apply noPair
      refine ⟨?_, before, after, rfl⟩
      rw [List.count_append, List.count_append, List.count_eq_zero.mpr beforePlain,
        List.count_eq_zero.mpr afterPlain]
      rfl

/-! ## Reading at the first separator -/

theorem ne_separator_of_mem {word : Word} (plain : separator ∉ word) :
    ∀ character ∈ word, decide (character ≠ separator) = true := by
  intro character inWord
  exact decide_eq_true (ne_of_mem_of_not_mem inWord plain)

/-- A line without a separator is a comment. -/
theorem ofLine_of_not_mem {line : Word} (unmarked : separator ∉ line) :
    ofLine line = .ok none := by
  have noneLeft : line.dropWhile (· ≠ separator) = [] :=
    List.dropWhile_eq_nil_iff.mpr (ne_separator_of_mem unmarked)
  simp only [ofLine, noneLeft]

section FirstSeparator

variable {pattern : Word} (patternPlain : separator ∉ pattern)
include patternPlain

theorem takeWhile_append_separator (rest : Word) :
    (pattern ++ separator :: rest).takeWhile (· ≠ separator) = pattern := by
  rw [List.takeWhile_append_of_pos (ne_separator_of_mem patternPlain),
    List.takeWhile_cons_of_neg (by simp), List.append_nil]

theorem dropWhile_append_separator (rest : Word) :
    (pattern ++ separator :: rest).dropWhile (· ≠ separator) = separator :: rest := by
  rw [List.dropWhile_append_of_pos (ne_separator_of_mem patternPlain),
    List.dropWhile_cons_of_neg (by simp)]

/-- Two separators at once announce the replacement of a terminal rule. -/
theorem ofLine_of_pair (replacement : Word) :
    ofLine (pattern ++ separator :: separator :: replacement) =
      readReplacement (pattern ++ separator :: separator :: replacement) pattern true
        replacement := by
  simp only [ofLine, takeWhile_append_separator patternPlain,
    dropWhile_append_separator patternPlain, if_true]

/-- One separator announces the replacement of an ordinary rule. -/
theorem ofLine_of_single {rest : Word} (single : rest.head? ≠ some separator) :
    ofLine (pattern ++ separator :: rest) =
      readReplacement (pattern ++ separator :: rest) pattern false rest := by
  cases rest with
  | nil =>
      simp only [ofLine, takeWhile_append_separator patternPlain,
        dropWhile_append_separator patternPlain]
  | cons next replacement =>
      have nextPlain : next ≠ separator := by simpa using single
      simp only [ofLine, takeWhile_append_separator patternPlain,
        dropWhile_append_separator patternPlain, if_neg nextPlain]

theorem faulty_of_pair {replacement : Word} (marked : separator ∈ replacement) :
    Faulty (pattern ++ separator :: separator :: replacement) := by
  constructor
  · rw [List.count_append, List.count_cons_self, List.count_cons_self]
    omega
  · rintro ⟨before, after, beforePlain, afterPlain, lineEq⟩
    have counts := congrArg (List.count separator) lineEq
    have further := List.count_pos_iff.mpr marked
    simp only [List.count_append, List.count_cons_self, List.count_nil,
      List.count_eq_zero.mpr patternPlain, List.count_eq_zero.mpr beforePlain,
      List.count_eq_zero.mpr afterPlain] at counts
    omega

theorem faulty_of_single {rest : Word} (single : rest.head? ≠ some separator)
    (marked : separator ∈ rest) : Faulty (pattern ++ separator :: rest) := by
  constructor
  · have further := List.count_pos_iff.mpr marked
    rw [List.count_append, List.count_cons_self]
    omega
  · rintro ⟨before, after, beforePlain, _, lineEq⟩
    -- both sides agree up to their first separator, so a pair would stand there
    have rests := congrArg (List.dropWhile (· ≠ separator)) lineEq
    rw [dropWhile_append_separator patternPlain, List.append_assoc, List.cons_append,
      dropWhile_append_separator beforePlain] at rests
    apply single
    rw [(List.cons.inj rests).2]
    rfl

end FirstSeparator

/-! ## What reading finds -/

/-- Reading finds what the line holds. -/
theorem holds_ofLine (line : Word) : Holds line (ofLine line) := by
  by_cases marked : separator ∈ line
  · obtain ⟨pattern, rest, rfl, patternPlain⟩ := List.eq_append_cons_of_mem marked
    by_cases pair : rest.head? = some separator
    · obtain ⟨replacement, rfl⟩ := List.head?_eq_some_iff.mp pair
      rw [ofLine_of_pair patternPlain, readReplacement]
      split
      case isTrue further => exact .fault (faulty_of_pair patternPlain further)
      case isFalse replacementPlain =>
        rw [← text_terminal]
        exact .rule ⟨patternPlain, replacementPlain⟩
    · rw [ofLine_of_single patternPlain pair, readReplacement]
      split
      case isTrue further => exact .fault (faulty_of_single patternPlain pair further)
      case isFalse replacementPlain =>
        rw [← text_ordinary]
        exact .rule ⟨patternPlain, replacementPlain⟩
  · rw [ofLine_of_not_mem marked]
    exact .comment marked

/-- A plain rule is read back from its written form. -/
theorem Plain.ofLine_text {rule : Rule} (plain : rule.Plain) :
    ofLine rule.text = .ok (some rule) := by
  rcases rule with ⟨pattern, replacement, terminal⟩
  obtain ⟨patternPlain, replacementPlain⟩ := plain
  have replacementRead (line : Word) : readReplacement line pattern terminal replacement =
      .ok (some ⟨pattern, replacement, terminal⟩) :=
    if_neg replacementPlain
  cases terminal with
  | true => rw [text_terminal, ofLine_of_pair patternPlain, replacementRead]
  | false =>
      have single : replacement.head? ≠ some separator := by
        intro atFront
        exact replacementPlain (List.mem_of_head? atFront)
      rw [text_ordinary, ofLine_of_single patternPlain single, replacementRead]

theorem Faulty.ofLine_eq {line : Word} (faulty : Faulty line) :
    ofLine line = .error ⟨line, none⟩ := by
  have holds := holds_ofLine line
  generalize ofLine line = result at holds ⊢
  cases holds with
  | comment unmarked => exact absurd faulty (not_faulty_of_not_mem unmarked)
  | rule plain => exact absurd faulty plain.not_faulty
  | fault _ => rfl

/-- `Holds` is the graph of `ofLine`. -/
theorem ofLine_eq_iff {line : Word} {result : Except LineError (Option Rule)} :
    ofLine line = result ↔ Holds line result := by
  constructor
  · rintro rfl
    exact holds_ofLine line
  · intro holds
    cases holds with
    | comment unmarked => exact ofLine_of_not_mem unmarked
    | rule plain => exact plain.ofLine_text
    | fault faulty => exact faulty.ofLine_eq

theorem ofLine_eq_some_iff {line : Word} {rule : Rule} :
    ofLine line = .ok (some rule) ↔ rule.Plain ∧ rule.text = line := by
  rw [ofLine_eq_iff]
  constructor
  · intro holds
    cases holds with
    | rule plain => exact ⟨plain, rfl⟩
  · rintro ⟨plain, rfl⟩
    exact .rule plain

theorem ofLine_eq_none_iff {line : Word} : ofLine line = .ok none ↔ separator ∉ line := by
  rw [ofLine_eq_iff]
  constructor
  · intro holds
    cases holds with
    | comment unmarked => exact unmarked
  · exact .comment

theorem ofLine_eq_error_iff {line : Word} {error : LineError} :
    ofLine line = .error error ↔ error = ⟨line, none⟩ ∧ Faulty line := by
  rw [ofLine_eq_iff]
  constructor
  · intro holds
    cases holds with
    | fault faulty => exact ⟨rfl, faulty⟩
  · rintro ⟨rfl, faulty⟩
    exact .fault faulty

/-- Reading and writing are inverse to each other on the rules whose sides hold
no separator, and every other line is a comment or an error. -/
theorem ofLine_inverts_text :
    (∀ line rule, ofLine line = .ok (some rule) ↔
      (separator ∉ rule.pattern ∧ separator ∉ rule.replacement) ∧ rule.text = line) ∧
    (∀ line, ofLine line = .ok none ↔ separator ∉ line) ∧
    (∀ line error, ofLine line = .error error ↔ error = ⟨line, none⟩ ∧ Faulty line) ∧
    (∀ rule, ofLine rule.text = .ok (some rule) ↔ rule.Plain) ∧
    Set.InjOn text {rule | rule.Plain} := by
  refine ⟨fun _ _ => ofLine_eq_some_iff, fun _ => ofLine_eq_none_iff,
    fun _ _ => ofLine_eq_error_iff, ?_, ?_⟩
  · intro rule
    rw [ofLine_eq_some_iff]
    exact and_iff_left rfl
  · intro first firstPlain second secondPlain sameText
    have firstRead := Plain.ofLine_text firstPlain
    rw [sameText, Plain.ofLine_text secondPlain] at firstRead
    cases firstRead
    rfl

-- A separator that ends a pattern is taken for half of a pair.
example : ofLine (text ⟨['a', separator], ['b'], false⟩) = .ok (some ⟨['a'], ['b'], true⟩) :=
  rfl

end MarkovAlgorithm.Rule
