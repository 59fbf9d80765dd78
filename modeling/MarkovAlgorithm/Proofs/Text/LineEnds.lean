import MarkovAlgorithm.Proofs.Text.Lines

/-!
# Joined texts and varied line ends

The lines of two texts are the lines of the joined text, provided that the
first text is closed: otherwise its last line would run on into the second.
A closed text has as many lines as line feeds.

A line feed may be written with a carriage return in front of it or without
one.  `LineEndsVary` makes that choice at every line feed of a text.  If the
text holds no carriage returns of its own, its lines do not tell the choice.
-/

namespace MarkovAlgorithm.Text

/-! ## Closed texts -/

/-- The text is empty or ends with a line feed. -/
def Closed (text : Word) : Prop :=
  text = [] ∨ text.getLast? = some '\n'

theorem Closed.behind {content text : Word} (closed : Closed (content ++ '\n' :: text)) :
    Closed text := by
  cases text with
  | nil => exact .inl rfl
  | cons first rest =>
      right
      simpa [Closed] using closed

theorem not_closed {line : Word} (nonempty : line ≠ []) (unbroken : '\n' ∉ line) :
    ¬Closed line := by
  rintro (empty | ends)
  · exact nonempty empty
  · exact unbroken (List.mem_of_getLast? ends)

namespace Divides

variable {text : Word} {lines : List Word}

/-- What follows a closed text has lines of its own. -/
theorem append (divides : Divides text lines) (closed : Closed text) {rest : Word}
    {restLines : List Word} (restDivides : Divides rest restLines) :
    Divides (text ++ rest) (lines ++ restLines) := by
  induction divides with
  | empty => exact restDivides
  | unended nonempty unbroken => exact absurd closed (not_closed nonempty unbroken)
  | ended unbroken _ inductionHypothesis =>
      rw [List.append_assoc, List.cons_append, List.cons_append]
      exact .ended unbroken (inductionHypothesis closed.behind)

/-- Every line of a closed text has its line feed. -/
theorem length_eq_count (divides : Divides text lines) (closed : Closed text) :
    lines.length = text.count '\n' := by
  induction divides with
  | empty => rfl
  | unended nonempty unbroken => exact absurd closed (not_closed nonempty unbroken)
  | ended unbroken _ inductionHypothesis =>
      rw [List.length_cons, inductionHypothesis closed.behind, List.count_append,
        List.count_eq_zero.mpr unbroken, List.count_cons_self, Nat.zero_add]

/-- A line feed at the end closes the last line, or is an empty line if that
line was closed. -/
theorem append_lineFeed (divides : Divides text lines) (noReturn : '\r' ∉ text) :
    Divides (text ++ ['\n']) lines ∨ Divides (text ++ ['\n']) (lines ++ [[]]) := by
  induction divides with
  | empty => exact .inr (.ended List.not_mem_nil .empty)
  | @unended line _ unbroken =>
      left
      have kept : withoutReturn line = line :=
        withoutReturn_eq_self_iff.mpr fun ends => noReturn (List.mem_of_getLast? ends)
      have closed := Divides.ended unbroken .empty
      rwa [kept] at closed
  | @ended content text lines unbroken _ inductionHypothesis =>
      have restNoReturn : '\r' ∉ text := by
        intro inside
        exact noReturn (by simp [inside])
      rw [List.append_assoc, List.cons_append]
      rcases inductionHypothesis restNoReturn with closed | extended
      · exact .inl (.ended unbroken closed)
      · exact .inr (.ended unbroken extended)

end Divides

/-! ## Varied line ends -/

/-- The second text is the first with a carriage return in front of some of its
line feeds. -/
inductive LineEndsVary : Word → Word → Prop where
  | empty : LineEndsVary [] []
  | kept (character : Char) {text varied : Word} (rest : LineEndsVary text varied) :
      LineEndsVary (character :: text) (character :: varied)
  | returned {text varied : Word} (rest : LineEndsVary text varied) :
      LineEndsVary ('\n' :: text) ('\r' :: '\n' :: varied)

namespace LineEndsVary

variable {text varied : Word}

/-- Line ends vary independently of each other. -/
theorem append (varies : LineEndsVary text varied) {rest restVaried : Word}
    (restVaries : LineEndsVary rest restVaried) :
    LineEndsVary (text ++ rest) (varied ++ restVaried) := by
  induction varies with
  | empty => exact restVaries
  | kept character _ inductionHypothesis => exact .kept character inductionHypothesis
  | returned _ inductionHypothesis => exact .returned inductionHypothesis

/-- The lines of a text without carriage returns do not change with its line
ends. -/
theorem lines_eq (varies : LineEndsVary text varied) (noReturn : '\r' ∉ text) :
    lines varied = lines text := by
  induction varies with
  | empty => rfl
  | @kept character text varied _ inductionHypothesis =>
      obtain ⟨notReturn, restNoReturn⟩ := List.ne_and_not_mem_of_not_mem_cons noReturn
      have sameRest := inductionHypothesis restNoReturn
      by_cases isLineFeed : character = '\n'
      · rw [isLineFeed, lines_lineFeed, lines_lineFeed, sameRest]
      · rw [lines_cons isLineFeed fun isReturn => absurd isReturn.symm notReturn,
          lines_cons isLineFeed fun isReturn => absurd isReturn.symm notReturn, sameRest]
  | returned _ inductionHypothesis =>
      have restNoReturn := List.not_mem_of_not_mem_cons noReturn
      rw [lines_return_lineFeed, lines_lineFeed, inductionHypothesis restNoReturn]

end LineEndsVary

end MarkovAlgorithm.Text
