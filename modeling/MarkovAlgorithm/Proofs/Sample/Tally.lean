import Mathlib.Data.List.Infix
import MarkovAlgorithm.Proofs.Run.Derivation
import MarkovAlgorithm.Sample

/-!
# From binary numerals to tallies

Between numeral and tally stand words of digits and strokes.  `reckon` reads such
a word from left to right: a stroke adds one, and a digit multiplies by the base
before it adds its own value, which for the digit one is the base less one.

Read in base two, the word denotes the same number all along.  A digit zero may
be erased only where it multiplies nothing, and the order of the rules sees to
that: as long as a stroke stands in front of a zero, or a one is left, another
rule fires.  Read in base three, the word becomes smaller with every move, so the
program comes to an end although the word itself grows.
-/

namespace MarkovAlgorithm.Sample

namespace Tally

open Machine (firing?)

/-! ## The rules -/

/-- A stroke that moves behind a zero is doubled. -/
def double : Rule := ⟨['|', '0'], ['0', '|', '|'], false⟩

/-- A one is a zero and a stroke. -/
def split : Rule := ⟨['1'], ['0', '|'], false⟩

/-- Drop a zero. -/
def drop : Rule := ⟨['0'], [], false⟩

/-- All rules, in order of priority. -/
def rules : List Rule := [double, split, drop]

theorem load_eq (start : Word) : binaryToUnary.load start = .ok ⟨rules, start, start, false⟩ :=
  rfl

/-! ## Reckoning -/

/-- The number behind one more letter. -/
def reckonLetter (base value : Nat) (letter : Char) : Nat :=
  if letter = '|' then
    value + 1
  else if letter = '1' then
    base * value + (base - 1)
  else
    base * value

/-- The number behind a word, from the number in front of it. -/
def reckon (base start : Nat) (word : Word) : Nat :=
  word.foldl (reckonLetter base) start

variable {base start : Nat} {word next : Word} {rule : Rule}

@[simp]
theorem reckon_nil : reckon base start [] = start :=
  rfl

@[simp]
theorem reckon_stroke : reckon base start ('|' :: word) = reckon base (start + 1) word :=
  rfl

@[simp]
theorem reckon_zero : reckon base start ('0' :: word) = reckon base (base * start) word :=
  rfl

@[simp]
theorem reckon_one :
    reckon base start ('1' :: word) = reckon base (base * start + (base - 1)) word :=
  rfl

@[simp]
theorem reckon_append (first second : Word) :
    reckon base start (first ++ second) = reckon base (reckon base start first) second :=
  List.foldl_append

theorem reckon_replicate_stroke (count : Nat) :
    reckon base start (List.replicate count '|') = start + count := by
  induction count generalizing start with
  | zero => rfl
  | succ count inductionHypothesis =>
      rw [List.replicate_succ, reckon_stroke, inductionHypothesis, Nat.add_right_comm,
        Nat.add_assoc]

theorem reckon_lt_reckon (positive : 0 < base) {smaller larger : Nat} (less : smaller < larger)
    (word : Word) : reckon base smaller word < reckon base larger word := by
  induction word generalizing smaller larger with
  | nil => exact less
  | cons letter word inductionHypothesis =>
      apply inductionHypothesis
      have scaled := Nat.mul_lt_mul_of_pos_left less positive
      unfold reckonLetter
      split
      · exact Nat.succ_lt_succ less
      · split
        · exact Nat.add_lt_add_right scaled (base - 1)
        · exact scaled

/-- On digits alone, reading in base two is the usual reading. -/
theorem reckon_two_eq_ofDigitChars (digits : ∀ letter ∈ word, letter = '0' ∨ letter = '1') :
    reckon 2 start word = Nat.ofDigitChars 2 word start := by
  induction word generalizing start with
  | nil => rfl
  | cons letter word inductionHypothesis =>
      obtain ⟨isDigit, restDigits⟩ := List.forall_mem_cons.mp digits
      rw [Nat.ofDigitChars_cons, ← inductionHypothesis restDigits]
      rcases isDigit with rfl | rfl <;> rfl

/-! ## The moves -/

/-- The word consists of digits and strokes. -/
def Mixed (word : Word) : Prop :=
  ∀ letter ∈ word, letter = '0' ∨ letter = '1' ∨ letter = '|'

/-- A zero is dropped only at the front of the word. -/
theorem before_eq_nil_of_drop {before after : Word} (mixed : Mixed word)
    (noDouble : ¬double.pattern <:+: word) (noSplit : ¬split.pattern <:+: word)
    (cuts : CutsLeftmost drop.pattern word before after) : before = [] := by
  have wordEq : word = before ++ '0' :: after := by
    rw [cuts.occurs, List.append_assoc]
    rfl
  rcases List.eq_nil_or_concat' before with empty | ⟨front, letter, rfl⟩
  · exact empty
  · rw [List.append_assoc, List.singleton_append] at wordEq
    rcases mixed letter (by simp [wordEq]) with rfl | rfl | rfl
    · have further := cuts.leftmost front ('0' :: after) (by simp [wordEq, drop])
      rw [List.length_append, List.length_singleton] at further
      exact absurd further (Nat.not_succ_le_self front.length)
    · exact absurd ⟨front, '0' :: after, by simp [wordEq, split]⟩ noSplit
    · exact absurd ⟨front, after, by simp [wordEq, double]⟩ noDouble

/-- What a move does to a word of digits and strokes. -/
theorem firing?_cases (mixed : Mixed word) (found : firing? word rules = some (rule, next)) :
    (∃ before after, word = before ++ '|' :: '0' :: after ∧ rule = double ∧
      next = before ++ '0' :: '|' :: '|' :: after) ∨
    (∃ before after, word = before ++ '1' :: after ∧ rule = split ∧
      next = before ++ '0' :: '|' :: after) ∨
    (word = '0' :: next ∧ rule = drop) := by
  obtain ⟨index, atIndex, passed, fired⟩ := Machine.firing?_eq_some_iff.mp found
  obtain ⟨before, after, cuts, nextEq⟩ := Rule.fire?_eq_some_iff.mp fired
  have occurs := cuts.occurs
  match index with
  | 0 =>
      cases atIndex
      exact .inl ⟨before, after, by simpa [double] using occurs, rfl,
        by simpa [double] using nextEq⟩
  | 1 =>
      cases atIndex
      exact .inr (.inl ⟨before, after, by simpa [split] using occurs, rfl,
        by simpa [split] using nextEq⟩)
  | 2 =>
      cases atIndex
      have noDouble := Rule.fire?_eq_none_iff.mp (passed 0 (by decide) double rfl)
      have noSplit := Rule.fire?_eq_none_iff.mp (passed 1 (by decide) split rfl)
      obtain rfl := before_eq_nil_of_drop mixed noDouble noSplit cuts
      obtain rfl : next = after := by simpa [drop] using nextEq
      exact .inr (.inr ⟨occurs, rfl⟩)
  | index + 3 => cases atIndex

theorem Mixed.move (mixed : Mixed word) (found : firing? word rules = some (rule, next)) :
    Mixed next := by
  rcases firing?_cases mixed found with
    ⟨before, after, rfl, _, rfl⟩ | ⟨before, after, rfl, _, rfl⟩ | ⟨rfl, _⟩
  · simp only [Mixed, List.forall_mem_append, List.forall_mem_cons] at mixed ⊢
    tauto
  · simp only [Mixed, List.forall_mem_append, List.forall_mem_cons] at mixed ⊢
    tauto
  · exact (List.forall_mem_cons.mp mixed).2

/-- A move keeps the number that the word denotes. -/
theorem reckon_two_move (mixed : Mixed word) (found : firing? word rules = some (rule, next)) :
    reckon 2 0 next = reckon 2 0 word := by
  rcases firing?_cases mixed found with
    ⟨before, after, rfl, _, rfl⟩ | ⟨before, after, rfl, _, rfl⟩ | ⟨rfl, _⟩
  · simp only [reckon_append, reckon_stroke, reckon_zero, Nat.mul_succ]
  · simp only [reckon_append, reckon_stroke, reckon_zero, reckon_one]
  · rw [reckon_zero, Nat.mul_zero]

/-- A move makes the word smaller. -/
theorem reckon_three_move (mixed : Mixed word) (found : firing? word rules = some (rule, next)) :
    reckon 3 1 next < reckon 3 1 word := by
  rcases firing?_cases mixed found with
    ⟨before, after, rfl, _, rfl⟩ | ⟨before, after, rfl, _, rfl⟩ | ⟨rfl, _⟩
  · simp only [reckon_append, reckon_stroke, reckon_zero]
    apply reckon_lt_reckon (by decide)
    omega
  · simp only [reckon_append, reckon_stroke, reckon_zero, reckon_one]
    apply reckon_lt_reckon (by decide)
    omega
  · rw [reckon_zero]
    exact reckon_lt_reckon (by decide) (by decide) next

theorem ordinary_of_firing? (mixed : Mixed word)
    (found : firing? word rules = some (rule, next)) : rule.terminal = false := by
  rcases firing?_cases mixed found with ⟨_, _, _, rfl, _⟩ | ⟨_, _, _, rfl, _⟩ | ⟨_, rfl⟩ <;> rfl

/-- Where no rule applies, there are only strokes. -/
theorem eq_replicate_of_stuck (mixed : Mixed word) (stuck : firing? word rules = none) :
    word = List.replicate word.length '|' := by
  have absent : ∀ rule ∈ rules, ¬rule.pattern <:+: word := by
    intro rule inRules occurs
    have found := (Machine.isSome_firing?_iff word rules).mpr
      ⟨rule, inRules, Rule.applies_iff_infix.mpr occurs⟩
    rw [stuck] at found
    contradiction
  rw [List.eq_replicate_iff]
  refine ⟨rfl, ?_⟩
  intro letter inWord
  rcases mixed letter inWord with rfl | rfl | rfl
  · exact absurd ((List.singleton_infix_iff _ _).mpr inWord) (absent drop (by decide))
  · exact absurd ((List.singleton_infix_iff _ _).mpr inWord) (absent split (by decide))
  · rfl

/-- The moves lead from a numeral to the tally of its number. -/
theorem exists_derives_tally (digits : ∀ letter ∈ word, letter = '0' ∨ letter = '1') :
    ∃ count, Derives rules count word (List.replicate (Nat.ofDigitChars 2 word 0) '|') ∧
      firing? (List.replicate (Nat.ofDigitChars 2 word 0) '|') rules = none := by
  have mixed : Mixed word := fun letter inWord => (digits letter inWord).imp_right .inl
  have decreases : ∀ {current rule next}, Mixed current ∧ reckon 2 0 current = reckon 2 0 word →
      firing? current rules = some (rule, next) →
      rule.terminal = false ∧ (Mixed next ∧ reckon 2 0 next = reckon 2 0 word) ∧
        reckon 3 1 next < reckon 3 1 current := by
    rintro current rule next ⟨currentMixed, sameNumber⟩ found
    have nextNumber := (reckon_two_move currentMixed found).trans sameNumber
    exact ⟨ordinary_of_firing? currentMixed found, ⟨currentMixed.move found, nextNumber⟩,
      reckon_three_move currentMixed found⟩
  obtain ⟨count, last, derives, ⟨lastMixed, sameNumber⟩, stuck, _⟩ :=
    exists_derives_of_decreasing rules _ (reckon 3 1) decreases ⟨mixed, rfl⟩
  have strokes := eq_replicate_of_stuck lastMixed stuck
  have lengthEq : last.length = Nat.ofDigitChars 2 word 0 := by
    rw [← reckon_two_eq_ofDigitChars digits, ← sameNumber, strokes, reckon_replicate_stroke,
      Nat.zero_add, List.length_replicate]
  rw [← lengthEq, ← strokes]
  exact ⟨count, derives, stuck⟩

end Tally

open Tally

/-- The program turns every binary numeral, leading zeros and the empty one included,
into as many strokes as its number says, and halts there.  It does so under every
limit from some bound on and also without a limit, whether repetitions are looked for
or not. -/
theorem binaryToUnary_halts_tallied (word : Word)
    (digits : ∀ letter ∈ word, letter = '0' ∨ letter = '1') :
    ∃ machine, binaryToUnary.load word = .ok machine ∧
      ∃ bound, ∀ (settings : Settings) (fuel : Nat),
        (∀ limit, settings.stepLimit = some limit → bound ≤ limit) →
        (settings.stepLimit = none → bound ≤ fuel) →
        ∃ report, run fuel settings machine = some report ∧ report.outcome = .halted ∧
          report.machine.word = List.replicate (Nat.ofDigitChars 2 word 0) '|' := by
  obtain ⟨count, derives, stuck⟩ := exists_derives_tally digits
  refine ⟨_, load_eq word, count + 1, ?_⟩
  intro settings fuel ample fueled
  have within : settings.exhaustedBy count = false :=
    Settings.exhaustedBy_eq_false_iff.mpr ample
  have stops := derives.stops_halted stuck word within
  exact ⟨_, stops.run_eq_of_ample fueled, rfl, rfl⟩

/-- A leading zero does not count: six strokes. -/
theorem binaryToUnary_halts_tallied_six :
    ∃ machine, binaryToUnary.load ['0', '1', '1', '0'] = .ok machine ∧
      ∃ bound, ∀ fuel, bound ≤ fuel →
        ∃ report, run fuel { stepLimit := none } machine = some report ∧
          report.outcome = .halted ∧ report.machine.word = "||||||".toList := by
  obtain ⟨machine, loaded, bound, runs⟩ :=
    binaryToUnary_halts_tallied ['0', '1', '1', '0'] (by simp)
  refine ⟨machine, loaded, bound, ?_⟩
  intro fuel fueled
  exact runs { stepLimit := none } fuel (by simp) fun _ => fueled

end MarkovAlgorithm.Sample
