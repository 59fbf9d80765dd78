import MarkovAlgorithm.Proofs.Run.Resumption

/-!
# Derivations and the runs along them

What a program does to a word is described by a derivation: a chain of moves
from word to word, counted, in which only ordinary rules fire.  `Derives` says
nothing about machines, limits or repetitions.  A run of a machine with the same
rules goes along the derivation, and if it ends in a terminal rule, or in a word
to which no rule applies, the run ends there, too, whatever its settings are, as
long as its limit allows it.

A derivation to such a word exists if every move makes the word smaller in some
measure.
-/

namespace MarkovAlgorithm

open Machine (firing? stepN)

/-- The rules lead from one word to another by `count` moves, all of which fire
ordinary rules. -/
inductive Derives (rules : List Rule) : Nat → Word → Word → Prop where
  | refl (word : Word) : Derives rules 0 word word
  | head {count : Nat} {rule : Rule} {word next last : Word}
      (fires : firing? word rules = some (rule, next)) (ordinary : rule.terminal = false)
      (rest : Derives rules count next last) : Derives rules (count + 1) word last

namespace Derives

variable {rules : List Rule} {count : Nat} {rule : Rule} {word next last : Word}

theorem single (fires : firing? word rules = some (rule, next))
    (ordinary : rule.terminal = false) : Derives rules 1 word next :=
  .head fires ordinary (.refl next)

theorem trans {first second : Nat} {middle : Word} (begins : Derives rules first word middle)
    (goesOn : Derives rules second middle last) : Derives rules (first + second) word last := by
  induction begins with
  | refl word =>
      rw [Nat.zero_add]
      exact goesOn
  | head fires ordinary _ inductionHypothesis =>
      rw [Nat.add_right_comm]
      exact .head fires ordinary (inductionHypothesis goesOn)

/-! ## The machine of a derivation -/

theorem step_eq_of_fires (fires : firing? word rules = some (rule, next)) (start : Word) :
    Machine.step ⟨rules, start, word, false⟩ = (true, ⟨rules, start, next, rule.terminal⟩) :=
  Machine.step_eq_moved_iff.mpr ⟨rfl, rule, next, fires, rfl⟩

/-- A machine goes along the derivation. -/
theorem stepN_eq (derives : Derives rules count word last) (start : Word) :
    stepN count ⟨rules, start, word, false⟩ = ⟨rules, start, last, false⟩ := by
  induction derives with
  | refl word => rfl
  | head fires ordinary _ inductionHypothesis =>
      rw [stepN, step_eq_of_fires fires, ordinary]
      exact inductionHypothesis

/-- All moves of a derivation leave the machine running. -/
theorem moving (derives : Derives rules count word last) (start : Word) :
    ∀ index < count, Machine.Moving ⟨rules, start, word, false⟩ index := by
  induction derives with
  | refl word =>
      intro index inside
      exact absurd inside (Nat.not_lt_zero index)
  | @head count rule word next last fires ordinary _ inductionHypothesis =>
      have stepEq := step_eq_of_fires fires start
      rw [ordinary] at stepEq
      have oneStep : stepN 1 ⟨rules, start, word, false⟩ = ⟨rules, start, next, false⟩ :=
        congrArg Prod.snd stepEq
      intro index inside
      cases index with
      | zero => exact ⟨congrArg Prod.fst stepEq, congrArg Machine.halted oneStep⟩
      | succ index =>
          rw [Nat.add_comm, ← Machine.moving_stepN_iff, oneStep]
          exact inductionHypothesis index (Nat.lt_of_succ_lt_succ inside)

/-- A derivation that comes back to a word of its own makes the machine go round. -/
theorem circles {first period : Nat} {middle : Word} (begins : Derives rules first word middle)
    (comesBack : Derives rules (period + 1) middle middle) (start : Word) :
    Machine.Circles ⟨rules, start, word, false⟩ ⟨middle, first + (period + 1), first⟩ := by
  have whole := begins.trans comesBack
  have ordered : first < first + (period + 1) := Nat.lt_add_of_pos_right (Nat.succ_pos period)
  have repeated : stepN first ⟨rules, start, word, false⟩ =
      stepN (first + (period + 1)) ⟨rules, start, word, false⟩ :=
    (begins.stepN_eq start).trans (whole.stepN_eq start).symm
  exact ⟨ordered, repeated, Machine.moving_of_repeat ordered (whole.moving start) repeated⟩

/-! ## Derivations that end -/

theorem step_stepN_eq (derives : Derives rules count word last)
    (fires : firing? last rules = some (rule, next)) (start : Word) :
    (stepN count ⟨rules, start, word, false⟩).step =
      (true, ⟨rules, start, next, rule.terminal⟩) := by
  rw [derives.stepN_eq, step_eq_of_fires fires]

/-- Behind a derivation to a word to which no rule applies the machine halts. -/
theorem step_stepN_eq_of_stuck (derives : Derives rules count word last)
    (stuck : firing? last rules = none) (start : Word) :
    (stepN count ⟨rules, start, word, false⟩).step = (false, ⟨rules, start, last, true⟩) := by
  rw [derives.stepN_eq]
  simp [Machine.step, stuck]

theorem ends_of_terminal (derives : Derives rules count word last)
    (fires : firing? last rules = some (rule, next)) (terminal : rule.terminal = true)
    (start : Word) : Machine.Ends ⟨rules, start, word, false⟩ count := by
  refine ⟨derives.moving start, ?_⟩
  rintro ⟨_, running⟩
  rw [Machine.stepN_succ, derives.step_stepN_eq fires, terminal] at running
  contradiction

theorem ends_of_stuck (derives : Derives rules count word last)
    (stuck : firing? last rules = none) (start : Word) :
    Machine.Ends ⟨rules, start, word, false⟩ count := by
  refine ⟨derives.moving start, ?_⟩
  rintro ⟨moves, _⟩
  rw [derives.step_stepN_eq_of_stuck stuck] at moves
  contradiction

/-- The run ends with the terminal rule. -/
theorem stops_terminated (derives : Derives rules count word last)
    (fires : firing? last rules = some (rule, next)) (terminal : rule.terminal = true)
    (start : Word) {settings : Settings} (within : settings.exhaustedBy count = false) :
    Machine.Stops settings ⟨rules, start, word, false⟩
      (Machine.reportAt ⟨rules, start, word, false⟩ (count + 1) .terminated
        ⟨rules, start, next, true⟩) := by
  have ends := derives.ends_of_terminal fires terminal start
  have stepEq := derives.step_stepN_eq fires start
  rw [terminal] at stepEq
  have finalEq := Machine.eq_stepN_succ stepEq
  rw [finalEq]
  exact ends.stops_terminated within (congrArg Prod.fst stepEq)
    (congrArg Machine.halted finalEq).symm

/-- The run halts at the word to which no rule applies. -/
theorem stops_halted (derives : Derives rules count word last) (stuck : firing? last rules = none)
    (start : Word) {settings : Settings} (within : settings.exhaustedBy count = false) :
    Machine.Stops settings ⟨rules, start, word, false⟩
      (Machine.reportAt ⟨rules, start, word, false⟩ count .halted ⟨rules, start, last, true⟩) := by
  have ends := derives.ends_of_stuck stuck start
  have stepEq := derives.step_stepN_eq_of_stuck stuck start
  rw [Machine.eq_stepN_succ stepEq]
  exact ends.stops_halted within (congrArg Machine.halted (derives.stepN_eq start))
    (congrArg Prod.fst stepEq)

end Derives

/-- If every move from a word of some kind fires an ordinary rule and leads to a
smaller word of that kind, the moves lead to a word to which no rule applies.
There are no more of them than the measure allows. -/
theorem exists_derives_of_decreasing (rules : List Rule) (Kind : Word → Prop)
    (measure : Word → Nat)
    (decreases : ∀ {word rule next}, Kind word → firing? word rules = some (rule, next) →
      rule.terminal = false ∧ Kind next ∧ measure next < measure word)
    {word : Word} (kind : Kind word) :
    ∃ count last, Derives rules count word last ∧ Kind last ∧ firing? last rules = none ∧
      count + measure last ≤ measure word := by
  cases found : firing? word rules with
  | none => exact ⟨0, word, .refl word, kind, found, by omega⟩
  | some firing =>
      obtain ⟨rule, next⟩ := firing
      obtain ⟨ordinary, nextKind, smaller⟩ := decreases kind found
      obtain ⟨count, last, derives, lastKind, stuck, bounded⟩ :=
        exists_derives_of_decreasing rules Kind measure decreases nextKind
      exact ⟨count + 1, last, .head found ordinary derives, lastKind, stuck, by omega⟩
termination_by measure word

end MarkovAlgorithm
