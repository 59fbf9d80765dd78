import Mathlib.Algebra.Ring.GeomSum
import Mathlib.Data.Finset.Prod
import MarkovAlgorithm.Proofs.Machine.Step
import MarkovAlgorithm.Proofs.Run.Trajectory

/-!
# Runs of programs that do not grow

If no rule puts in more than it takes out, the words of a computation never get
longer than the first, and they are spelled with its letters and those of the
replacements.  There are only so many such words.  A run that looks for
repetitions visits different words until it stops, so it is through after that
many moves at most, with or without a step limit.
-/

namespace MarkovAlgorithm

/-! ## Counting words -/

/-- The words over given letters, up to a length. -/
def wordsUpTo (letters : Finset Char) : Nat → Finset Word
  | 0 => {[]}
  | length + 1 =>
      insert [] ((letters ×ˢ wordsUpTo letters length).image fun (first, rest) => first :: rest)

theorem mem_wordsUpTo {letters : Finset Char} {word : Word} {length : Nat}
    (short : word.length ≤ length) (spelled : ∀ letter ∈ word, letter ∈ letters) :
    word ∈ wordsUpTo letters length := by
  induction word generalizing length with
  | nil => cases length <;> simp [wordsUpTo]
  | cons first rest inductionHypothesis =>
      cases length with
      | zero => contradiction
      | succ length =>
          obtain ⟨firstSpelled, restSpelled⟩ := List.forall_mem_cons.mp spelled
          have restIn := inductionHypothesis (Nat.le_of_succ_le_succ short) restSpelled
          apply Finset.mem_insert_of_mem
          exact Finset.mem_image.mpr
            ⟨(first, rest), Finset.mem_product.mpr ⟨firstSpelled, restIn⟩, rfl⟩

theorem card_wordsUpTo_le (letters : Finset Char) (length : Nat) :
    (wordsUpTo letters length).card ≤
      ∑ size ∈ Finset.range (length + 1), letters.card ^ size := by
  induction length with
  | zero => simp [wordsUpTo]
  | succ length inductionHypothesis =>
      calc (wordsUpTo letters (length + 1)).card
          ≤ ((letters ×ˢ wordsUpTo letters length).image
              fun (first, rest) => first :: rest).card + 1 := Finset.card_insert_le _ _
        _ ≤ (letters ×ˢ wordsUpTo letters length).card + 1 :=
            Nat.succ_le_succ Finset.card_image_le
        _ = letters.card * (wordsUpTo letters length).card + 1 := by rw [Finset.card_product]
        _ ≤ letters.card * (∑ size ∈ Finset.range (length + 1), letters.card ^ size) + 1 :=
            Nat.succ_le_succ (Nat.mul_le_mul_left _ inductionHypothesis)
        _ = ∑ size ∈ Finset.range (length + 1 + 1), letters.card ^ size := geom_sum_succ.symm

namespace Machine

/-! ## The words of a computation -/

/-- No rule puts in more than it takes out. -/
def NonGrowing (machine : Machine) : Prop :=
  ∀ rule ∈ machine.rules, rule.replacement.length ≤ rule.pattern.length

/-- The letters of the word and of all replacements. -/
def letters (machine : Machine) : Finset Char :=
  (machine.word ++ machine.rules.flatMap Rule.replacement).toFinset

/-- The number of words over the letters that are no longer than the word. -/
def wordBound (machine : Machine) : Nat :=
  ∑ length ∈ Finset.range (machine.word.length + 1), machine.letters.card ^ length

/-- A word over the letters that is no longer than the word. -/
structure Confines (machine : Machine) (word : Word) : Prop where
  short : word.length ≤ machine.word.length
  spelled : ∀ letter ∈ word, letter ∈ machine.letters

variable {machine : Machine}

theorem confines_word (machine : Machine) : machine.Confines machine.word where
  short := Nat.le_refl _
  spelled letter inWord := by
    rw [letters, List.mem_toFinset]
    exact List.mem_append_left _ inWord

theorem mem_letters_of_mem_replacement {rule : Rule} {letter : Char}
    (inRules : rule ∈ machine.rules) (inReplacement : letter ∈ rule.replacement) :
    letter ∈ machine.letters := by
  rw [letters, List.mem_toFinset]
  exact List.mem_append_right _ (List.mem_flatMap.mpr ⟨rule, inRules, inReplacement⟩)

theorem Confines.replace {rule : Rule} {before after : Word}
    (confines : machine.Confines (before ++ rule.pattern ++ after))
    (inRules : rule ∈ machine.rules)
    (nonGrowing : rule.replacement.length ≤ rule.pattern.length) :
    machine.Confines (before ++ rule.replacement ++ after) := by
  constructor
  · have short := confines.short
    simp only [List.length_append] at short ⊢
    omega
  · intro letter inWord
    simp only [List.mem_append] at inWord
    rcases inWord with (inBefore | inReplacement) | inAfter
    · exact confines.spelled letter (by simp [inBefore])
    · exact mem_letters_of_mem_replacement inRules inReplacement
    · exact confines.spelled letter (by simp [inAfter])

theorem Confines.step {current : Machine} (nonGrowing : machine.NonGrowing)
    (sameRules : current.rules = machine.rules) (confines : machine.Confines current.word) :
    machine.Confines current.step.2.word := by
  rcases stepEq : current.step with ⟨moves, next⟩
  cases moves with
  | false =>
      have still := step_eq_of_not_moves (congrArg Prod.fst stepEq)
      rw [stepEq] at still
      rw [still]
      exact confines
  | true =>
      obtain ⟨rule, inRules, before, after, cuts, rfl⟩ := exists_cutsLeftmost_of_moves stepEq
      rw [sameRules] at inRules
      rw [cuts.occurs] at confines
      exact confines.replace inRules (nonGrowing rule inRules)

/-- No word of the computation leads out. -/
theorem NonGrowing.confines_stepN (nonGrowing : machine.NonGrowing) (count : Nat) :
    machine.Confines (stepN count machine).word := by
  induction count with
  | zero => exact machine.confines_word
  | succ count inductionHypothesis =>
      rw [stepN_succ]
      exact inductionHypothesis.step nonGrowing (stepN_rules count machine)

/-- A computation visits no more different words than there are. -/
theorem NonGrowing.le_wordBound (nonGrowing : machine.NonGrowing) {count : Nat}
    (distinct : (machine.trajectory count).Nodup) : count ≤ machine.wordBound := by
  have visited : (machine.trajectory count).toFinset ⊆
      wordsUpTo machine.letters machine.word.length := by
    intro word inTrajectory
    obtain ⟨index, _, rfl⟩ := mem_trajectory.mp (List.mem_toFinset.mp inTrajectory)
    have confines := nonGrowing.confines_stepN index
    exact mem_wordsUpTo confines.short confines.spelled
  calc count = (machine.trajectory count).toFinset.card := by
        rw [List.toFinset_card_of_nodup distinct, length_trajectory]
    _ ≤ (wordsUpTo machine.letters machine.word.length).card := Finset.card_le_card visited
    _ ≤ machine.wordBound := card_wordsUpTo_le _ _

/-! ## The run -/

/-- A limit that allows a move for each word does not stop the run. -/
theorem NonGrowing.outcome_ne_stepLimit {settings : Settings} {report : Report}
    (nonGrowing : machine.NonGrowing) (detects : settings.detectCycles = true)
    (ample : ∀ limit, settings.stepLimit = some limit → machine.wordBound ≤ limit)
    (stops : machine.Stops settings report) (count : Nat) :
    report.outcome ≠ .stepLimit count := by
  intro reported
  cases stops with
  | @limit steps goesOn exhausted =>
      have oneMore : steps + 1 ≤ machine.wordBound :=
        nonGrowing.le_wordBound (goesOn.nodup detects)
      have reached := ample steps (goesOn.stepLimit_eq exhausted)
      exact Nat.not_succ_le_self steps (Nat.le_trans oneMore reached)
  | _ => contradiction

end Machine

/-- A run that looks for repetitions comes to an end if no rule puts in more than
it takes out.  Its report is the same for all limits that allow as many moves as
there are words to visit, and also without a limit. -/
theorem nonGrowing_run_ends (machine : Machine) (nonGrowing : machine.NonGrowing) :
    ∃ report, (∀ count, report.outcome ≠ .stepLimit count) ∧
      report.steps ≤ machine.wordBound ∧
      ∀ settings fuel, settings.detectCycles = true →
        (∀ limit, settings.stepLimit = some limit → machine.wordBound ≤ limit) →
        (settings.stepLimit = none → machine.wordBound < fuel) →
        run fuel settings machine = some report := by
  let tightest : Settings := { stepLimit := some machine.wordBound }
  obtain ⟨report, returned⟩ :=
    exists_run_eq_some (show tightest.stepLimit = some machine.wordBound from rfl) machine 0
  have stops := stops_of_run returned
  have notLimited : ∀ count, report.outcome ≠ .stepLimit count := by
    apply nonGrowing.outcome_ne_stepLimit rfl _ stops
    rintro limit ⟨⟩
    exact Nat.le_refl machine.wordBound
  have bounded := nonGrowing.le_wordBound (stops.nodup rfl)
  refine ⟨report, notLimited, bounded, ?_⟩
  intro settings fuel detects ample fueled
  have loosens : tightest.LoosensTo settings := by
    refine ⟨detects, ?_⟩
    intro moves within
    rw [Settings.exhaustedBy_eq_false_iff] at within ⊢
    intro limit limited
    exact Nat.lt_of_lt_of_le (within machine.wordBound rfl) (ample limit limited)
  apply (stops.loosen loosens notLimited).run_eq_of_ample
  intro unlimited
  exact Nat.lt_of_le_of_lt bounded (fueled unlimited)

/-- Two rules that undo each other, without a limit: seven words are at most two
letters long. -/
theorem nonGrowing_run_ends_swapping :
    Machine.swapping.NonGrowing ∧ Machine.swapping.wordBound = 7 ∧
    ∃ report, run 8 { stepLimit := none } Machine.swapping = some report ∧
      report.steps ≤ 7 ∧ ∀ count, report.outcome ≠ .stepLimit count := by
  have nonGrowing : Machine.swapping.NonGrowing := by
    unfold Machine.NonGrowing
    decide
  have bound : Machine.swapping.wordBound = 7 := by decide
  obtain ⟨report, notLimited, bounded, same⟩ := nonGrowing_run_ends Machine.swapping nonGrowing
  rw [bound] at bounded same
  exact ⟨nonGrowing, bound, report, same _ 8 rfl (by simp) (fun _ => by decide), bounded,
    notLimited⟩

end MarkovAlgorithm
