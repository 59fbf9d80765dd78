import Mathlib.Order.Bounds.Basic
import MarkovAlgorithm.Proofs.Machine.Trajectory
import MarkovAlgorithm.Proofs.Word

/-!
# What a step fires

A step goes through the rules in order and fires the first whose pattern
occurs in the word, at the leftmost occurrence.  `Machine.Fires` describes such
a step by the rules it passes and the one it stops at; `matchingRule?` names the
number of that rule by looking for occurrences only, without rewriting.  Both
single out the least number of a rule whose pattern occurs.

Where no pattern occurs, a step halts the machine at its word.  This is not
told apart from an earlier halt by the flag alone, so what is said about rules
is said of machines that have not halted.
-/

namespace MarkovAlgorithm.Machine

/-- The numbers of the rules whose pattern occurs in the word.  The empty
pattern occurs in every word. -/
def occurring (machine : Machine) : Set Nat :=
  {index | ∃ rule, machine.rules[index]? = some rule ∧ rule.pattern <:+: machine.word}

/-- The rules in front of `index` do not fire on the word. -/
def PassesOver (word : Word) (rules : List Rule) (index : Nat) : Prop :=
  ∀ number < index, ∀ earlier, rules[number]? = some earlier → earlier.fire? word = none

/-- The step passes over the rules in front of `index` and makes the move of the
rule there. -/
structure Fires (machine : Machine) (index : Nat) (rule : Rule) (rewritten : Word) : Prop where
  atIndex : machine.rules[index]? = some rule
  passed : PassesOver machine.word machine.rules index
  fired : rule.fire? machine.word = some rewritten
  moved : machine.step = (true, { machine with word := rewritten, halted := rule.terminal })

variable {machine : Machine} {index : Nat} {rule : Rule} {word rewritten : Word}

/-! ## The rule that is found -/

theorem passesOver_zero (word : Word) (rules : List Rule) : PassesOver word rules 0 :=
  fun number inFront => absurd inFront (Nat.not_lt_zero number)

theorem passesOver_succ_iff {first : Rule} {rest : List Rule} :
    PassesOver word (first :: rest) (index + 1) ↔
      first.fire? word = none ∧ PassesOver word rest index := by
  constructor
  · intro passed
    constructor
    · exact passed 0 (Nat.succ_pos index) first rfl
    · intro number inFront
      exact passed (number + 1) (Nat.succ_lt_succ inFront)
  · rintro ⟨firstPassed, restPassed⟩ number inFront earlier atNumber
    cases number with
    | zero =>
        cases atNumber
        exact firstPassed
    | succ number => exact restPassed number (Nat.lt_of_succ_lt_succ inFront) earlier atNumber

/-- The rule that is found is the first that fires. -/
theorem firing?_eq_some_iff {rules : List Rule} :
    firing? word rules = some (rule, rewritten) ↔
      ∃ index, rules[index]? = some rule ∧ PassesOver word rules index ∧
        rule.fire? word = some rewritten := by
  induction rules with
  | nil => simp [firing?]
  | cons first rest inductionHypothesis =>
      cases firstFires : first.fire? word with
      | none =>
          simp only [firing?, firstFires, inductionHypothesis]
          constructor
          · rintro ⟨index, atIndex, passed, fired⟩
            exact ⟨index + 1, atIndex, passesOver_succ_iff.mpr ⟨firstFires, passed⟩, fired⟩
          · rintro ⟨index, atIndex, passed, fired⟩
            cases index with
            | zero =>
                cases atIndex
                rw [firstFires] at fired
                contradiction
            | succ index => exact ⟨index, atIndex, (passesOver_succ_iff.mp passed).2, fired⟩
      | some firstRewritten =>
          simp only [firing?, firstFires]
          constructor
          · intro found
            cases found
            exact ⟨0, rfl, passesOver_zero _ _, firstFires⟩
          · rintro ⟨index, atIndex, passed, fired⟩
            cases index with
            | zero =>
                cases atIndex
                rw [Option.some.inj (firstFires.symm.trans fired)]
            | succ index =>
                have notFired := (passesOver_succ_iff.mp passed).1
                rw [firstFires] at notFired
                contradiction

theorem firing?_cons_of_cuts {before after : Word}
    (cuts : CutsLeftmost rule.pattern word before after) (rest : List Rule) :
    firing? word (rule :: rest) = some (rule, before ++ rule.replacement ++ after) := by
  rw [firing?, Rule.fire?_eq_some_iff.mpr ⟨before, after, cuts, rfl⟩]

theorem firing?_append_of_absent {front : List Rule}
    (absent : ∀ other ∈ front, ¬other.pattern <:+: word) (rest : List Rule) :
    firing? word (front ++ rest) = firing? word rest := by
  induction front with
  | nil => rfl
  | cons first others inductionHypothesis =>
      obtain ⟨firstAbsent, othersAbsent⟩ := List.forall_mem_cons.mp absent
      rw [List.cons_append, firing?, Rule.fire?_eq_none_iff.mpr firstAbsent]
      exact inductionHypothesis othersAbsent

/-- If only one of the rules in front applies, that rule fires, whatever rules
come behind. -/
theorem firing?_append_of_only {front rest : List Rule} {before after : Word}
    (inFront : rule ∈ front)
    (only : ∀ other ∈ front, other.pattern <:+: word → other = rule)
    (cuts : CutsLeftmost rule.pattern word before after) :
    firing? word (front ++ rest) = some (rule, before ++ rule.replacement ++ after) := by
  obtain ⟨earlier, later, rfl, notEarlier⟩ := List.eq_append_cons_of_mem inFront
  have absent : ∀ other ∈ earlier, ¬other.pattern <:+: word := by
    intro other inEarlier occurs
    rw [only other (List.mem_append_left _ inEarlier) occurs] at inEarlier
    exact notEarlier inEarlier
  rw [List.append_assoc, firing?_append_of_absent absent, List.cons_append,
    firing?_cons_of_cuts cuts]

theorem exists_cutsLeftmost_of_moves {next : Machine} (moves : machine.step = (true, next)) :
    ∃ rule ∈ machine.rules, ∃ before after,
      CutsLeftmost rule.pattern machine.word before after ∧
        next = { machine with
          word := before ++ rule.replacement ++ after, halted := rule.terminal } := by
  obtain ⟨_, rule, rewritten, found, rfl⟩ := step_eq_moved_iff.mp moves
  obtain ⟨index, atIndex, _, fired⟩ := firing?_eq_some_iff.mp found
  obtain ⟨before, after, cuts, rfl⟩ := Rule.fire?_eq_some_iff.mp fired
  exact ⟨rule, List.mem_of_getElem? atIndex, before, after, cuts, rfl⟩

/-! ## The number of the rule -/

/-- The first rule whose pattern occurs is the first that fires. -/
theorem isLeast_occurring_iff :
    IsLeast machine.occurring index ↔
      ∃ rule, machine.rules[index]? = some rule ∧ rule.pattern <:+: machine.word ∧
        PassesOver machine.word machine.rules index := by
  constructor
  · rintro ⟨⟨rule, atIndex, occurs⟩, least⟩
    refine ⟨rule, atIndex, occurs, ?_⟩
    intro number inFront earlier atNumber
    rw [Rule.fire?_eq_none_iff]
    intro occursEarlier
    exact Nat.not_le_of_lt inFront (least ⟨earlier, atNumber, occursEarlier⟩)
  · rintro ⟨rule, atIndex, occurs, passed⟩
    constructor
    · exact ⟨rule, atIndex, occurs⟩
    · rintro number ⟨earlier, atNumber, occursEarlier⟩
      by_contra inFront
      have notFired := passed number (Nat.lt_of_not_le inFront) earlier atNumber
      exact Rule.fire?_eq_none_iff.mp notFired occursEarlier

/-- A rule fires exactly when it is the first whose pattern occurs. -/
theorem exists_fires_iff (running : machine.halted = false) :
    (∃ rule rewritten, machine.Fires index rule rewritten) ↔ IsLeast machine.occurring index := by
  rw [isLeast_occurring_iff]
  constructor
  · rintro ⟨rule, rewritten, fires⟩
    have occurs := Rule.exists_fire?_eq_some_iff.mp ⟨rewritten, fires.fired⟩
    exact ⟨rule, fires.atIndex, occurs, fires.passed⟩
  · rintro ⟨rule, atIndex, occurs, passed⟩
    obtain ⟨rewritten, fired⟩ := Rule.exists_fire?_eq_some_iff.mpr occurs
    have found := firing?_eq_some_iff.mpr ⟨index, atIndex, passed, fired⟩
    have moved := step_eq_moved_iff.mpr ⟨running, rule, rewritten, found, rfl⟩
    exact ⟨rule, rewritten, atIndex, passed, fired, moved⟩

/-- The named rule is the first whose pattern occurs. -/
theorem matchingRule?_eq_some_iff (running : machine.halted = false) :
    machine.matchingRule? = some index ↔ IsLeast machine.occurring index := by
  unfold matchingRule?
  rw [running, if_neg Bool.false_ne_true, List.findIdx?_eq_some_iff_getElem]
  simp only [Rule.applies_iff_infix]
  constructor
  · rintro ⟨inside, occurs, absentEarlier⟩
    constructor
    · exact ⟨_, List.getElem?_eq_getElem inside, occurs⟩
    · rintro number ⟨earlier, atNumber, occursEarlier⟩
      by_contra inFront
      obtain ⟨_, rfl⟩ := List.getElem?_eq_some_iff.mp atNumber
      exact absentEarlier number (Nat.lt_of_not_le inFront) occursEarlier
  · rintro ⟨⟨rule, atIndex, occurs⟩, least⟩
    obtain ⟨inside, rfl⟩ := List.getElem?_eq_some_iff.mp atIndex
    refine ⟨inside, occurs, ?_⟩
    intro number inFront occursEarlier
    have named : number ∈ machine.occurring := ⟨_, List.getElem?_eq_getElem _, occursEarlier⟩
    exact Nat.not_le_of_lt inFront (least named)

theorem matchingRule?_eq_none_iff (running : machine.halted = false) :
    machine.matchingRule? = none ↔ ∀ rule ∈ machine.rules, ¬rule.pattern <:+: machine.word := by
  unfold matchingRule?
  rw [running, if_neg Bool.false_ne_true, List.findIdx?_eq_none_iff]
  simp only [← Rule.applies_iff_infix, Bool.not_eq_true]

theorem matchingRule?_eq_none_iff_still (running : machine.halted = false) :
    machine.matchingRule? = none ↔ machine.step.1 = false := by
  rw [matchingRule?_eq_none_iff running, ← Bool.not_eq_true, step_moves_iff]
  simp only [Rule.applies_iff_infix, running, true_and, not_exists, not_and]

/-! ## The step -/

/-- A step fires the first rule whose pattern occurs, at the leftmost
occurrence, and `matchingRule?` names that rule; where there is none, a step
halts the machine at its word.  Steps of a halted machine do nothing, and rules
and starting word always stay. -/
theorem step_fires_first_leftmost (machine : Machine) :
    (machine.halted = true →
      machine.step = (false, machine) ∧ machine.matchingRule? = none) ∧
    (machine.halted = false →
      (∀ index, machine.matchingRule? = some index ↔
        ∃ rule rewritten, machine.Fires index rule rewritten) ∧
      (∀ index, (∃ rule rewritten, machine.Fires index rule rewritten) ↔
        IsLeast machine.occurring index) ∧
      (∀ index rule rewritten, machine.Fires index rule rewritten →
        ∃ before after,
          CutsLeftmost rule.pattern machine.word before after ∧
          (∀ left right, CutsLeftmost rule.pattern machine.word left right →
            left = before ∧ right = after) ∧
          (rule.pattern = [] → before = []) ∧
          machine.step = (true, { machine with
            word := before ++ rule.replacement ++ after, halted := rule.terminal })) ∧
      (machine.matchingRule? = none ↔
        machine.step.1 = false ∧ machine.step.2.word = machine.word ∧
          machine.step.2.halted = true)) ∧
    machine.step.2.rules = machine.rules ∧ machine.step.2.start = machine.start := by
  refine ⟨?_, ?_, step_rules machine, step_start machine⟩
  · intro halted
    exact ⟨step_of_halted halted, if_pos halted⟩
  · intro running
    refine ⟨?_, fun _ => exists_fires_iff running, ?_, ?_⟩
    · intro index
      rw [matchingRule?_eq_some_iff running, exists_fires_iff running]
    · intro index rule rewritten fires
      obtain ⟨before, after, cuts, rfl⟩ := Rule.fire?_eq_some_iff.mp fires.fired
      refine ⟨before, after, cuts, fun _ _ other => other.unique cuts, ?_, fires.moved⟩
      intro empty
      rw [empty] at cuts
      exact cuts.before_eq_nil
    · rw [matchingRule?_eq_none_iff_still running]
      constructor
      · intro still
        rw [step_eq_of_not_moves still]
        exact ⟨still, rfl, rfl⟩
      · exact And.left

/-- The pattern of the second rule occurs twice in the word, and the two
occurrences overlap. -/
def overlapping : Machine :=
  (ofRules [⟨['b', 'a'], [], false⟩, ⟨['a', 'a'], ['b'], true⟩, ⟨[], ['c'], false⟩]).restart
    ['c', 'a', 'a', 'a']

/-- The second rule fires at its first occurrence, and being terminal it leaves
a machine that does not step any more. -/
theorem step_fires_first_leftmost_overlapping :
    overlapping.halted = false ∧
    (∃ rule rewritten, overlapping.Fires 1 rule rewritten) ∧
    overlapping.step.2.word = ['c', 'b', 'a'] ∧
    overlapping.step.2.halted = true ∧
    overlapping.step.2.step = (false, overlapping.step.2) := by
  have fires := ((step_fires_first_leftmost overlapping).2.1 rfl).1 1
  have halts := (step_fires_first_leftmost overlapping.step.2).1 (by decide)
  exact ⟨rfl, fires.mp (by decide), by decide, by decide, halts.1⟩

end MarkovAlgorithm.Machine
