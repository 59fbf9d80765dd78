import Mathlib.Data.List.Nodup
import Mathlib.Data.Nat.Init
import MarkovAlgorithm.Machine

/-!
# The trajectory of a machine

Stepping a machine over and over gives its trajectory.  A step either moves or
leaves the word alone and halts the machine; which of the two it is depends on
the word only, as long as the machine has not halted.

Rules and starting word never change along a trajectory.  Two machines of one
trajectory that have not halted are therefore equal as soon as their words
are, and from then on the trajectory repeats itself.  Equality of the words
alone is not enough: a terminal rule may lead back to an earlier word.
-/

namespace MarkovAlgorithm.Machine

/-! ## One step -/

theorem isSome_firing?_iff (word : Word) (rules : List Rule) :
    (firing? word rules).isSome = true ↔ ∃ rule ∈ rules, rule.applies word = true := by
  induction rules with
  | nil => simp [firing?]
  | cons first rest inductionHypothesis =>
      rw [List.exists_mem_cons_iff, ← inductionHypothesis, ← Rule.isSome_fire?]
      cases firstFires : first.fire? word <;> simp [firing?, firstFires]

/-- A step moves exactly when the machine has not halted and some rule
applies. -/
theorem step_moves_iff (machine : Machine) :
    machine.step.1 = true ↔
      machine.halted = false ∧ ∃ rule ∈ machine.rules, rule.applies machine.word = true := by
  rw [← isSome_firing?_iff]
  cases halted : machine.halted with
  | true => simp [step, halted]
  | false =>
      cases found : firing? machine.word machine.rules <;> simp [step, halted, found]

theorem halted_eq_false_of_moves {machine : Machine} (moves : machine.step.1 = true) :
    machine.halted = false :=
  ((step_moves_iff machine).mp moves).1

/-- A step that does not move halts the machine and changes nothing else. -/
theorem step_eq_of_not_moves {machine : Machine} (still : machine.step.1 = false) :
    machine.step.2 = { machine with halted := true } := by
  rcases machine with ⟨rules, start, word, halted⟩
  cases halted with
  | true => rfl
  | false =>
      cases found : firing? word rules with
      | none => simp [step, found]
      | some firing => simp [step, found] at still

/-- A step moves by firing the first rule that applies. -/
theorem step_eq_moved_iff {machine next : Machine} :
    machine.step = (true, next) ↔
      machine.halted = false ∧ ∃ rule word,
        firing? machine.word machine.rules = some (rule, word) ∧
          next = { machine with word, halted := rule.terminal } := by
  cases halted : machine.halted with
  | true => simp [step, halted]
  | false =>
      cases found : firing? machine.word machine.rules with
      | none => simp [step, halted, found]
      | some firing =>
          rcases firing with ⟨rule, word⟩
          simp [step, halted, found, eq_comm]

/-! ## Many steps -/

@[simp]
theorem stepN_zero (machine : Machine) : stepN 0 machine = machine :=
  rfl

theorem stepN_add (first second : Nat) (machine : Machine) :
    stepN (first + second) machine = stepN second (stepN first machine) := by
  induction first generalizing machine with
  | zero => simp
  | succ first inductionHypothesis =>
      rw [Nat.succ_add]
      exact inductionHypothesis machine.step.2

theorem stepN_succ (count : Nat) (machine : Machine) :
    stepN (count + 1) machine = (stepN count machine).step.2 := by
  rw [stepN_add]
  rfl

@[simp]
theorem stepN_rules (count : Nat) (machine : Machine) :
    (stepN count machine).rules = machine.rules := by
  induction count with
  | zero => rfl
  | succ count inductionHypothesis => rw [stepN_succ, step_rules, inductionHypothesis]

@[simp]
theorem stepN_start (count : Nat) (machine : Machine) :
    (stepN count machine).start = machine.start := by
  induction count with
  | zero => rfl
  | succ count inductionHypothesis => rw [stepN_succ, step_start, inductionHypothesis]

theorem halted_stepN_of_le {machine : Machine} {first second : Nat} (ordered : first ≤ second)
    (halted : (stepN first machine).halted = true) :
    (stepN second machine).halted = true := by
  induction second, ordered using Nat.le_induction with
  | base => exact halted
  | succ second _ inductionHypothesis =>
      rw [stepN_succ, step_of_halted inductionHypothesis]
      exact inductionHypothesis

/-! ## Repetitions -/

/-- Along a trajectory the word and the halted flag determine the machine. -/
theorem stepN_eq_of_word_eq {machine : Machine} {first second : Nat}
    (sameFlag : (stepN first machine).halted = (stepN second machine).halted)
    (sameWord : (stepN first machine).word = (stepN second machine).word) :
    stepN first machine = stepN second machine := by
  have sameRules := (stepN_rules first machine).trans (stepN_rules second machine).symm
  have sameStart := (stepN_start first machine).trans (stepN_start second machine).symm
  cases firstEq : stepN first machine
  cases secondEq : stepN second machine
  simp_all

/-- Equal machines have equal futures. -/
theorem stepN_add_eq_of_eq {machine : Machine} {first second : Nat}
    (repeated : stepN first machine = stepN second machine) (offset : Nat) :
    stepN (first + offset) machine = stepN (second + offset) machine := by
  rw [stepN_add, stepN_add, repeated]

/-- After a repetition every later machine is one of those between the two
visits, counted modulo their distance. -/
theorem stepN_eq_stepN_mod {machine : Machine} {first second : Nat}
    (ordered : first < second)
    (repeated : stepN first machine = stepN second machine)
    {index : Nat} (later : first ≤ index) :
    stepN index machine =
      stepN (first + (index - first) % (second - first)) machine := by
  induction index using Nat.strongRecOn with
  | ind index inductionHypothesis =>
      by_cases inside : index < second
      · have remainder : (index - first) % (second - first) = index - first :=
          Nat.mod_eq_of_lt (by omega)
        rw [remainder, Nat.add_sub_cancel' later]
      · -- one period earlier the trajectory was at the same machine
        have earlier := inductionHypothesis (first + (index - second)) (by omega) (by omega)
        have shifted : stepN (first + (index - second)) machine = stepN index machine := by
          rw [stepN_add_eq_of_eq repeated, Nat.add_sub_cancel' (by omega)]
        have remainder : (first + (index - second) - first) % (second - first) =
            (index - first) % (second - first) := by
          rw [Nat.mod_eq_sub_mod (show second - first ≤ index - first by omega)]
          congr 1
          omega
        rw [← shifted, earlier, remainder]

/-! ## The visited words -/

/-- The words of the first `count` machines of a trajectory. -/
def trajectory (machine : Machine) (count : Nat) : List Word :=
  (List.range count).map fun index => (stepN index machine).word

@[simp]
theorem length_trajectory (machine : Machine) (count : Nat) :
    (machine.trajectory count).length = count := by
  simp [trajectory]

theorem trajectory_succ (machine : Machine) (count : Nat) :
    machine.trajectory (count + 1) =
      machine.trajectory count ++ [(stepN count machine).word] := by
  simp [trajectory, List.range_succ]

theorem mem_trajectory {machine : Machine} {count : Nat} {word : Word} :
    word ∈ machine.trajectory count ↔
      ∃ index < count, (stepN index machine).word = word := by
  simp [trajectory]

theorem getElem?_trajectory {machine : Machine} {count index : Nat} (inside : index < count) :
    (machine.trajectory count)[index]? = some (stepN index machine).word := by
  simp [trajectory, inside]

theorem take_trajectory {machine : Machine} {shorter longer : Nat} (ordered : shorter ≤ longer) :
    (machine.trajectory longer).take shorter = machine.trajectory shorter := by
  rw [trajectory, ← List.map_take, List.take_range, Nat.min_eq_left ordered, trajectory]

/-- The words of a trajectory are distinct exactly when none of them occurs
before. -/
theorem nodup_trajectory_iff {machine : Machine} {count : Nat} :
    (machine.trajectory count).Nodup ↔
      ∀ index < count, (stepN index machine).word ∉ machine.trajectory index := by
  induction count with
  | zero => simp [trajectory]
  | succ count inductionHypothesis =>
      rw [trajectory_succ, List.nodup_append_comm, List.singleton_append, List.nodup_cons,
        inductionHypothesis, Nat.forall_lt_succ_right]
      exact And.comm

end MarkovAlgorithm.Machine
