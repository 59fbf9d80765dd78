import Mathlib.Data.List.Infix
import MarkovAlgorithm.Proofs.Machine.Step
import MarkovAlgorithm.Proofs.Run.Translation

/-!
# Rules that never fire

A rule is shadowed by one in front of it whose pattern occurs in its own.
Wherever the pattern of the shadowed rule occurs, that of the other rule occurs,
too, and the other rule comes first.  A shadowed rule therefore never fires, in
no word, and can be removed from the program.

Removing it moves the rules behind it one place up.  This is the only difference:
a run of the machine without the rule has the same report, but for the rules of
the final machine.
-/

namespace MarkovAlgorithm

/-- A rule in front has a pattern that occurs in the pattern of the rule at
`index`.  The empty pattern occurs in every pattern. -/
def Shadowed (rules : List Rule) (index : Nat) : Prop :=
  ∃ earlier < index, ∃ first second, rules[earlier]? = some first ∧
    rules[index]? = some second ∧ first.pattern <:+: second.pattern

namespace Machine

variable {rules : List Rule} {index : Nat} {word : Word}

/-! ## The shadowed rule -/

/-- A shadowed rule does not fire where the rules in front of it do not. -/
theorem fire?_eq_none_of_shadowed {rule : Rule} (shadowed : Shadowed rules index)
    (atIndex : rules[index]? = some rule) (passed : PassesOver word rules index) :
    rule.fire? word = none := by
  obtain ⟨earlier, inFront, first, second, atEarlier, atSecond, occurs⟩ := shadowed
  cases atIndex.symm.trans atSecond
  have firstAbsent := Rule.fire?_eq_none_iff.mp (passed earlier inFront first atEarlier)
  rw [Rule.fire?_eq_none_iff]
  intro secondOccurs
  exact firstAbsent (occurs.trans secondOccurs)

/-- A rule that does not fire behind the rules in front of it can be left out. -/
theorem firing?_eraseIdx
    (silent : ∀ rule, rules[index]? = some rule → PassesOver word rules index →
      rule.fire? word = none) :
    firing? word (rules.eraseIdx index) = firing? word rules := by
  induction rules generalizing index with
  | nil => rfl
  | cons first rest inductionHypothesis =>
      cases index with
      | zero =>
          have notFired := silent first rfl (passesOver_zero word _)
          rw [List.eraseIdx_cons_zero, firing?, notFired]
      | succ index =>
          rw [List.eraseIdx_cons_succ, firing?, firing?]
          cases firstFires : first.fire? word with
          | some rewritten => rfl
          | none =>
              apply inductionHypothesis
              intro rule atIndex passed
              exact silent rule atIndex (passesOver_succ_iff.mpr ⟨firstFires, passed⟩)

/-! ## The machine without it -/

/-- Take out the rule at `index`. -/
def withoutRule (index : Nat) (machine : Machine) : Machine :=
  { machine with rules := machine.rules.eraseIdx index }

theorem matchingRule?_ne_of_shadowed {machine : Machine}
    (shadowed : Shadowed machine.rules index) : machine.matchingRule? ≠ some index := by
  intro named
  cases halted : machine.halted with
  | true =>
      rw [matchingRule?, if_pos halted] at named
      contradiction
  | false =>
      obtain ⟨rule, atIndex, occurs, passed⟩ :=
        isLeast_occurring_iff.mp ((matchingRule?_eq_some_iff halted).mp named)
      have notFired := fire?_eq_none_of_shadowed shadowed atIndex passed
      exact Rule.fire?_eq_none_iff.mp notFired occurs

theorem step_withoutRule {machine : Machine} (shadowed : Shadowed machine.rules index) :
    (machine.withoutRule index).step = (machine.step.1, machine.step.2.withoutRule index) := by
  have sameFiring : firing? machine.word (machine.rules.eraseIdx index) =
      firing? machine.word machine.rules :=
    firing?_eraseIdx fun _ => fire?_eq_none_of_shadowed shadowed
  cases halted : machine.halted with
  | true => simp [step, withoutRule, halted]
  | false =>
      cases found : firing? machine.word machine.rules with
      | none => simp [step, withoutRule, halted, sameFiring, found]
      | some firing => simp [step, withoutRule, halted, sameFiring, found]

/-- Taking out a shadowed rule translates the machines that have it. -/
def Translation.ofShadowed (shadowed : Shadowed rules index) : Translation rules where
  machine := withoutRule index
  word := id
  word_injective := Function.injective_id
  word_machine _ := rfl
  halted_machine _ := rfl
  step_machine _ sameRules := step_withoutRule (sameRules ▸ shadowed)

end Machine

/-- The report with a rule taken out of the final machine. -/
def Report.withoutRule (index : Nat) (report : Report) : Report :=
  { report with machine := report.machine.withoutRule index }

/-- A shadowed rule is dead.  In no word is it the one to fire, and without it a run from any
word has the same report, but for the rules of the final machine. -/
theorem shadowed_rule_is_dead {rules : List Rule} {index : Nat} (shadowed : Shadowed rules index)
    (start word : Word) (halted : Bool) :
    Machine.matchingRule? ⟨rules, start, word, halted⟩ ≠ some index ∧
    ∀ (settings : Settings) (fuel : Nat),
      run fuel settings ⟨rules.eraseIdx index, start, word, halted⟩ =
        (run fuel settings ⟨rules, start, word, halted⟩).map (Report.withoutRule index) := by
  refine ⟨Machine.matchingRule?_ne_of_shadowed shadowed, ?_⟩
  intro settings fuel
  have translated := (Machine.Translation.ofShadowed shadowed).run_machine
    (show Machine.rules ⟨rules, start, word, halted⟩ = rules from rfl) settings fuel
  refine translated.trans (Option.map_congr ?_)
  intro report returned
  exact (stops_of_run returned).translate_id _

/-- The pattern of the second rule holds that of the first, so only the first and the third
rule ever fire.  The third is moved up when the second is taken out. -/
theorem shadowed_rule_is_dead_overlapping :
    Shadowed [⟨['a'], ['b'], false⟩, ⟨['c', 'a'], [], true⟩, ⟨['c'], [], true⟩] 1 ∧
    ∃ report,
      run 0 { stepLimit := some 5 }
          ⟨[⟨['a'], ['b'], false⟩, ⟨['c'], [], true⟩], [], ['c', 'a'], false⟩ =
        some report ∧
      report.outcome = .terminated ∧ report.history.toList = [['c', 'a'], ['c', 'b'], ['b']] := by
  have shadowed :
      Shadowed [⟨['a'], ['b'], false⟩, ⟨['c', 'a'], [], true⟩, ⟨['c'], [], true⟩] 1 :=
    ⟨0, by decide, _, _, rfl, rfl, by decide⟩
  have removed := (shadowed_rule_is_dead shadowed [] ['c', 'a'] false).2 { stepLimit := some 5 } 0
  refine ⟨shadowed, _, removed.trans rfl, ?_, ?_⟩
  · rfl
  · rfl

end MarkovAlgorithm
