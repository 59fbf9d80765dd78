import MarkovAlgorithm.Rule

/-!
# The machine of a Markov algorithm

A machine holds its rules in order of priority, the word it starts from, the
word it has reached, and whether it has halted.  One step fires the first rule
that applies.  The machine halts when that rule is terminal, and also when no
rule applies; in the second case the word stays as it is, and the step does
not count as a move.

A halted machine stays as it is under `step`.  Only `restart` and `reset`
release it.
-/

namespace MarkovAlgorithm

/-- A machine at some point of its computation. -/
structure Machine where
  rules : List Rule
  start : Word
  word : Word
  halted : Bool
  deriving DecidableEq

namespace Machine

/-- The machine without rules, at the empty word. -/
def empty : Machine := ⟨[], [], [], false⟩

/-- The machine with given rules, at the empty word. -/
def ofRules (rules : List Rule) : Machine := { empty with rules }

/-- Start over from another word. -/
def restart (machine : Machine) (start : Word) : Machine :=
  { machine with start, word := start, halted := false }

/-- Start over from the starting word. -/
def reset (machine : Machine) : Machine :=
  { machine with word := machine.start, halted := false }

/-- The first rule of a list that applies to a word, with the rewritten word. -/
def firing? (word : Word) : List Rule → Option (Rule × Word)
  | [] => none
  | rule :: rest =>
      match rule.fire? word with
      | some rewritten => some (rule, rewritten)
      | none => firing? word rest

/-- One step, and whether it moved. -/
def step (machine : Machine) : Bool × Machine :=
  if machine.halted then
    (false, machine)
  else
    match firing? machine.word machine.rules with
    | some (rule, rewritten) =>
        (true, { machine with word := rewritten, halted := rule.terminal })
    | none => (false, { machine with halted := true })

/-- The index of the rule that the next step fires. -/
def matchingRule? (machine : Machine) : Option Nat :=
  if machine.halted then
    none
  else
    machine.rules.findIdx? (·.applies machine.word)

/-- The machine after a number of steps, moves or not. -/
def stepN : Nat → Machine → Machine
  | 0, machine => machine
  | count + 1, machine => stepN count machine.step.2

theorem step_of_halted {machine : Machine} (halted : machine.halted = true) :
    machine.step = (false, machine) := by
  simp [step, halted]

@[simp]
theorem step_rules (machine : Machine) : machine.step.2.rules = machine.rules := by
  unfold step
  split
  · rfl
  · split <;> rfl

@[simp]
theorem step_start (machine : Machine) : machine.step.2.start = machine.start := by
  unfold step
  split
  · rfl
  · split <;> rfl

end Machine

/-!
## Programs

A program is a text with one rule a line; lines without a colon are comments.
Reading stops at the first line that is neither a rule nor a comment, and
reports that line with its number.  All lines count, comments included, and
the first has the number one.

Giving a machine another program changes its rules only: its words and its
halted flag stay.
-/

/-- Read rules from lines, the first of which has the given number. -/
def readRulesFrom (number : Nat) : List Word → Except LineError (List Rule)
  | [] => .ok []
  | line :: rest =>
      match Rule.ofLine line with
      | .error error => .error (error.atLine number)
      | .ok none => readRulesFrom (number + 1) rest
      | .ok (some rule) =>
          match readRulesFrom (number + 1) rest with
          | .ok rules => .ok (rule :: rules)
          | .error error => .error error

/-- Read rules from all the lines of a program. -/
def readRules (lines : List Word) : Except LineError (List Rule) :=
  readRulesFrom 1 lines

namespace Machine

/-- The machine with the rules that the lines hold. -/
def withLines (machine : Machine) (lines : List Word) : Except LineError Machine :=
  (readRules lines).map fun rules => { machine with rules }

/-- The machine with the rules of a program. -/
def withProgram (machine : Machine) (program : Word) : Except LineError Machine :=
  machine.withLines (Text.lines program)

/-- A machine with the rules of a program, started at a word. -/
def load (program start : Word) : Except LineError Machine :=
  (empty.withProgram program).map (·.restart start)

end Machine

end MarkovAlgorithm
