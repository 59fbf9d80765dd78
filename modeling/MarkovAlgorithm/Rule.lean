import MarkovAlgorithm.Word

/-!
# Rewriting rules

A rule replaces the leftmost occurrence of its pattern by its replacement.  A
rule with the empty pattern therefore puts its replacement in front of the
word, and applies to every word.  A terminal rule ends the computation when it
fires.

A rule is written as its pattern, a separator and its replacement.  The
separator is one colon for an ordinary rule and two for a terminal one.

A line without a colon is no rule: it is a comment.  A line whose colons are
not exactly one separator is an error.  The two sides of a rule are arbitrary
words, so a rule with a colon in one of its sides has a written form, but that
form does not read back as the rule.
-/

namespace MarkovAlgorithm

/-- One rewriting rule. -/
structure Rule where
  pattern : Word
  replacement : Word
  terminal : Bool
  deriving DecidableEq

namespace Rule

/-- Replace the leftmost occurrence of the pattern, if there is one. -/
def fire? (rule : Rule) (word : Word) : Option Word :=
  (leftmostSplit rule.pattern word).map fun (before, after) =>
    before ++ (rule.replacement ++ after)

/-- The rule applies to words in which its pattern occurs. -/
def applies (rule : Rule) (word : Word) : Bool :=
  (leftmostSplit rule.pattern word).isSome

/-- Fire on the word if the rule applies and keep it otherwise, telling which
was the case. -/
def apply (rule : Rule) (word : Word) : Bool × Word :=
  match rule.fire? word with
  | some rewritten => (true, rewritten)
  | none => (false, word)

/-- A rule fires exactly on the words to which it applies. -/
@[simp]
theorem isSome_fire? (rule : Rule) (word : Word) :
    (rule.fire? word).isSome = rule.applies word := by
  simp [fire?, applies]

end Rule

/-! ## Rules as lines of text -/

/-- A line that holds a colon and is not a rule.  The number is the line's
position in its program, counted from one, when it stands in a program. -/
structure LineError where
  line : Word
  number : Option Nat
  deriving DecidableEq

namespace LineError

/-- The wording of the error. -/
def message (error : LineError) : Word :=
  "Syntax error in line ".toList ++ error.line

/-- The same error at a known position in its program. -/
def atLine (error : LineError) (number : Nat) : LineError :=
  { error with number := some number }

end LineError

namespace Rule

/-- The character that separates the sides of a rule. -/
def separator : Char := ':'

/-- The written form of a rule. -/
def text (rule : Rule) : Word :=
  let mark := if rule.terminal then [separator, separator] else [separator]
  rule.pattern ++ mark ++ rule.replacement

/-- Read what stands behind the first separator of a line. -/
def readReplacement (line pattern : Word) (terminal : Bool) (replacement : Word) :
    Except LineError (Option Rule) :=
  if separator ∈ replacement then
    .error ⟨line, none⟩
  else
    .ok (some ⟨pattern, replacement, terminal⟩)

/-- Read one line.  Comments give no rule. -/
def ofLine (line : Word) : Except LineError (Option Rule) :=
  let pattern := line.takeWhile (· ≠ separator)
  match line.dropWhile (· ≠ separator) with
  | [] => .ok none
  | _ :: rest =>
      match rest with
      | [] => readReplacement line pattern false []
      | next :: replacement =>
          if next = separator then
            readReplacement line pattern true replacement
          else
            readReplacement line pattern false (next :: replacement)

end Rule

end MarkovAlgorithm
