import Mathlib.Data.List.Infix
import MarkovAlgorithm.Word

/-!
# How a text divides into lines

`Text.Divides` describes the lines of a text by where its line feeds stand.
Everything up to a line feed is one line, less one carriage return at its end;
what stands behind the last line feed is another line, unless there is nothing,
and keeps a carriage return at its end.  Every text divides in exactly one way,
into its `Text.lines`.
-/

namespace MarkovAlgorithm.Text

/-- A line without the carriage return that belongs to its line feed. -/
def withoutReturn (content : Word) : Word :=
  if content.getLast? = some '\r' then content.dropLast else content

/-- The text divides into the lines. -/
inductive Divides : Word → List Word → Prop where
  | empty : Divides [] []
  | unended {line : Word} (nonempty : line ≠ []) (unbroken : '\n' ∉ line) : Divides line [line]
  | ended {content text : Word} {lines : List Word} (unbroken : '\n' ∉ content)
      (rest : Divides text lines) :
      Divides (content ++ '\n' :: text) (withoutReturn content :: lines)

/-! ## Carriage returns -/

theorem withoutReturn_cons_cons (first second : Char) (rest : Word) :
    withoutReturn (first :: second :: rest) = first :: withoutReturn (second :: rest) := by
  unfold withoutReturn
  rw [List.getLast?_cons_cons]
  split <;> rfl

theorem withoutReturn_eq_self_iff {content : Word} :
    withoutReturn content = content ↔ content.getLast? ≠ some '\r' := by
  constructor
  · intro same ends
    rw [withoutReturn, if_pos ends] at same
    have nonempty := List.length_pos_of_mem (List.mem_of_getLast? ends)
    have shorter := congrArg List.length same
    rw [List.length_dropLast] at shorter
    omega
  · intro notEnd
    exact if_neg notEnd

theorem mem_of_mem_withoutReturn {character : Char} {content : Word}
    (inside : character ∈ withoutReturn content) : character ∈ content := by
  unfold withoutReturn at inside
  split at inside
  · exact List.mem_of_mem_dropLast inside
  · exact inside

/-! ## Line by line -/

theorem lines_lineFeed (rest : Word) : lines ('\n' :: rest) = [] :: lines rest := by
  simp [lines]

theorem lines_return_lineFeed (rest : Word) : lines ('\r' :: '\n' :: rest) = [] :: lines rest := by
  simp [lines]

theorem lines_cons {character : Char} {rest : Word} (unbroken : character ≠ '\n')
    (notEnd : character = '\r' → rest.head? ≠ some '\n') :
    lines (character :: rest) = extendFirst character (lines rest) := by
  rw [lines]
  · exact unbroken
  · rintro tail rfl rfl
    exact notEnd rfl rfl

theorem lines_append_lineFeed {content : Word} (unbroken : '\n' ∉ content) (text : Word) :
    lines (content ++ '\n' :: text) = withoutReturn content :: lines text := by
  induction content with
  | nil => exact lines_lineFeed text
  | cons character rest inductionHypothesis =>
      obtain ⟨characterUnbroken, restUnbroken⟩ := List.ne_and_not_mem_of_not_mem_cons unbroken
      cases rest with
      | nil =>
          by_cases isReturn : character = '\r'
          · rw [isReturn]
            exact lines_return_lineFeed text
          · have kept : withoutReturn [character] = [character] :=
              withoutReturn_eq_self_iff.mpr (by simpa using isReturn)
            rw [List.singleton_append,
              lines_cons (Ne.symm characterUnbroken) fun atEnd => absurd atEnd isReturn,
              lines_lineFeed, kept]
            rfl
      | cons next rest =>
          have nextUnbroken : next ≠ '\n' := Ne.symm (List.ne_of_not_mem_cons restUnbroken)
          rw [List.cons_append, lines_cons (Ne.symm characterUnbroken) (by simp [nextUnbroken]),
            inductionHypothesis restUnbroken, withoutReturn_cons_cons]
          rfl

theorem lines_of_not_mem {line : Word} (nonempty : line ≠ []) (unbroken : '\n' ∉ line) :
    lines line = [line] := by
  induction line with
  | nil => contradiction
  | cons character rest inductionHypothesis =>
      obtain ⟨characterUnbroken, restUnbroken⟩ := List.ne_and_not_mem_of_not_mem_cons unbroken
      have notEnd : character = '\r' → rest.head? ≠ some '\n' := by
        intro _ atFront
        exact restUnbroken (List.mem_of_head? atFront)
      rw [lines_cons (Ne.symm characterUnbroken) notEnd]
      cases rest with
      | nil => rfl
      | cons next rest =>
          rw [inductionHypothesis (List.cons_ne_nil next rest) restUnbroken]
          rfl

/-! ## All lines -/

/-- Every text divides into its lines. -/
theorem divides_lines (text : Word) : Divides text (lines text) := by
  by_cases broken : '\n' ∈ text
  · obtain ⟨content, rest, rfl, unbroken⟩ := List.eq_append_cons_of_mem broken
    rw [lines_append_lineFeed unbroken]
    exact .ended unbroken (divides_lines rest)
  · by_cases empty : text = []
    · rw [empty]
      exact .empty
    · rw [lines_of_not_mem empty broken]
      exact .unended empty broken
termination_by text.length

/-- `Divides` is the graph of `lines`. -/
theorem lines_eq_iff_divides {text : Word} {result : List Word} :
    lines text = result ↔ Divides text result := by
  constructor
  · rintro rfl
    exact divides_lines text
  · intro divides
    induction divides with
    | empty => rfl
    | unended nonempty unbroken => exact lines_of_not_mem nonempty unbroken
    | ended unbroken _ inductionHypothesis =>
        rw [lines_append_lineFeed unbroken, inductionHypothesis]

theorem Divides.not_mem {text line : Word} {result : List Word} (divides : Divides text result)
    (inResult : line ∈ result) : '\n' ∉ line := by
  induction divides with
  | empty => contradiction
  | unended _ unbroken =>
      rw [List.mem_singleton.mp inResult]
      exact unbroken
  | ended unbroken _ inductionHypothesis =>
      rcases List.mem_cons.mp inResult with rfl | inRest
      · intro inside
        exact unbroken (mem_of_mem_withoutReturn inside)
      · exact inductionHypothesis inRest

end MarkovAlgorithm.Text
