import Mathlib.Logic.Equiv.Basic
import MarkovAlgorithm.Proofs.Run.Translation
import MarkovAlgorithm.Proofs.Word

/-!
# Renaming characters

No character means anything to a machine.  If all characters of its rules and of
its words are renamed, and different characters keep different names, the machine
does the same under the new names: the same rule fires at the same place, so each
step is the renamed step, and the report of a run is the renamed report.

This holds of every renaming, also of one that takes a letter to the separator of
rules or to the end of a line.  Only the text of a program gives a meaning to
those.
-/

namespace MarkovAlgorithm

variable {naming : Char → Char}

/-! ## Rules -/

/-- Rename the characters of both sides. -/
def Rule.rename (naming : Char → Char) (rule : Rule) : Rule :=
  { rule with
    pattern := rule.pattern.map naming
    replacement := rule.replacement.map naming }

namespace Rule

theorem fire?_rename (injective : Function.Injective naming) (rule : Rule) (word : Word) :
    (rule.rename naming).fire? (word.map naming) = (rule.fire? word).map (List.map naming) := by
  rw [fire?, Rule.rename, leftmostSplit_map injective, fire?]
  cases leftmostSplit rule.pattern word <;> simp

theorem applies_rename (injective : Function.Injective naming) (rule : Rule) (word : Word) :
    (rule.rename naming).applies (word.map naming) = rule.applies word := by
  rw [← isSome_fire?, fire?_rename injective, Option.isSome_map, isSome_fire?]

end Rule

/-! ## Machines -/

namespace Machine

/-- Rename the characters of all rules and words. -/
def rename (naming : Char → Char) (machine : Machine) : Machine where
  rules := machine.rules.map (Rule.rename naming)
  start := machine.start.map naming
  word := machine.word.map naming
  halted := machine.halted

theorem firing?_rename (injective : Function.Injective naming) (word : Word)
    (rules : List Rule) :
    firing? (word.map naming) (rules.map (Rule.rename naming)) =
      (firing? word rules).map fun (rule, rewritten) =>
        (rule.rename naming, rewritten.map naming) := by
  induction rules with
  | nil => rfl
  | cons first rest inductionHypothesis =>
      rw [List.map_cons, firing?, firing?, Rule.fire?_rename injective]
      cases first.fire? word with
      | none => exact inductionHypothesis
      | some rewritten => rfl

theorem matchingRule?_rename (injective : Function.Injective naming) (machine : Machine) :
    (machine.rename naming).matchingRule? = machine.matchingRule? := by
  simp only [matchingRule?, Machine.rename, List.findIdx?_map, Function.comp_def,
    Rule.applies_rename injective]

/-- The step of the renamed machine is the renamed step. -/
theorem step_rename (injective : Function.Injective naming) (machine : Machine) :
    (machine.rename naming).step = (machine.step.1, machine.step.2.rename naming) := by
  cases halted : machine.halted with
  | true =>
      have renamedHalted : (machine.rename naming).halted = true := halted
      rw [step_of_halted halted, step_of_halted renamedHalted]
  | false =>
      have fires := firing?_rename injective machine.word machine.rules
      cases found : firing? machine.word machine.rules with
      | none =>
          rw [found] at fires
          simp [step, Machine.rename, halted, fires, found]
      | some firing =>
          rw [found] at fires
          simp [step, Machine.rename, halted, fires, found, Rule.rename]

/-- Renaming translates the machines with any rules. -/
def Translation.ofNaming (injective : Function.Injective naming) (rules : List Rule) :
    Translation rules where
  machine := Machine.rename naming
  word := List.map naming
  word_injective := List.map_injective_iff.mpr injective
  word_machine _ := rfl
  halted_machine _ := rfl
  step_machine source _ := step_rename injective source

end Machine

namespace Report

/-- Rename the characters of a report: of its history, of its machine, and of the word of a
repetition. -/
def rename (naming : Char → Char) : Report → Report :=
  translate (Machine.rename naming) (List.map naming)

theorem outcome_rename (report : Report) :
    (report.rename naming).outcome = report.outcome.translate (List.map naming) :=
  rfl

theorem toList_rename (report : Report) :
    (report.rename naming).history.toList = report.history.toList.map (List.map naming) :=
  History.toList_ofList _

end Report

/-- No character is special.  Under any renaming that keeps different characters different, the
same rule is named, steps are renamed steps, and a run has a report exactly when the renamed
one has, which is then the renamed report. -/
theorem renaming_commutes (naming : Char → Char) (injective : Function.Injective naming)
    (machine : Machine) :
    (machine.rename naming).matchingRule? = machine.matchingRule? ∧
    (machine.rename naming).step = (machine.step.1, machine.step.2.rename naming) ∧
    ∀ (settings : Settings) (fuel : Nat),
      run fuel settings (machine.rename naming) =
        (run fuel settings machine).map (Report.rename naming) := by
  refine ⟨Machine.matchingRule?_rename injective machine,
    Machine.step_rename injective machine, ?_⟩
  intro settings fuel
  exact (Machine.Translation.ofNaming injective machine.rules).run_machine rfl settings fuel

/-- Two letters are swapped, and become the separator of rules and the end of a line.  The
repetition is found at the same place, and its word is renamed. -/
theorem renaming_commutes_swapping :
    Function.Injective ((Equiv.swap 'a' ':').trans (Equiv.swap 'b' '\n')) ∧
    ∃ report,
      run 0 { stepLimit := some 5 }
          (Machine.swapping.rename ((Equiv.swap 'a' ':').trans (Equiv.swap 'b' '\n'))) =
        some report ∧
      report.outcome = .cycle ⟨[':', '\n'], 2, 0⟩ ∧
      report.history.toList = [[':', '\n'], ['\n', ':'], [':', '\n']] := by
  have injective := ((Equiv.swap 'a' ':').trans (Equiv.swap 'b' '\n')).injective
  have renamed := (renaming_commutes _ injective Machine.swapping).2.2 { stepLimit := some 5 } 0
  obtain ⟨report, returned⟩ := exists_run_eq_some
    (show ({ stepLimit := some 5 } : Settings).stepLimit = some 5 from rfl) Machine.swapping 0
  have found : (some report).map (fun report => (report.outcome, report.history.toList)) =
      some (.cycle ⟨['a', 'b'], 2, 0⟩, [['a', 'b'], ['b', 'a'], ['a', 'b']]) := by
    rw [← returned]
    decide
  obtain ⟨outcomeEq, visitsEq⟩ := Prod.mk.inj (Option.some.inj found)
  rw [returned] at renamed
  refine ⟨injective, _, renamed, ?_, ?_⟩
  · rw [Report.outcome_rename, outcomeEq]
    decide
  · rw [Report.toList_rename, visitsEq]
    decide

end MarkovAlgorithm
