/-!
# Words

A Markov algorithm rewrites a word by replacing the leftmost occurrence of a
pattern.  `leftmostSplit` finds that occurrence: it cuts a word into the part
before it and the part after it.  The search compares symbols only, so it is
stated for an arbitrary alphabet; no character has a meaning of its own here.

The search keeps the symbols it has passed, the latest first, so that its depth
does not grow with the word.  `leftmostSplit_cons` describes it without them.
The empty pattern occurs in front of every word.

Words are also texts.  They are divided into lines here, and numbers are written
as words in decimal, without sign and without leading zeros.
-/

namespace MarkovAlgorithm

universe u

/-- The words of the algorithm: finite sequences of characters. -/
abbrev Word := List Char

section Leftmost

variable {α : Type u} [DecidableEq α]

/-- Search for `pattern` behind the symbols passed so far, the latest of which
stands first.  The passed symbols in front of the occurrence come back in the
same order, with what stands after it. -/
@[specialize]
def searchFrom (pattern : List α) : List α → List α → Option (List α × List α)
  | passed, [] => if pattern.isEmpty then some (passed, []) else none
  | passed, head :: tail =>
      if pattern.isPrefixOf (head :: tail) then
        some (passed, (head :: tail).drop pattern.length)
      else
        searchFrom pattern (head :: passed) tail

/-- Cut a word around the leftmost occurrence of `pattern`, giving what stands
before it and what stands after it. -/
@[inline]
def leftmostSplit (pattern word : List α) : Option (List α × List α) :=
  (searchFrom pattern [] word).map fun (passed, after) => (passed.reverse, after)

/-- The passed symbols do not bear on the search. -/
theorem searchFrom_eq_map (pattern passed word : List α) :
    searchFrom pattern passed word =
      (searchFrom pattern [] word).map fun (before, after) => (before ++ passed, after) := by
  induction word generalizing passed with
  | nil => by_cases empty : pattern.isEmpty <;> simp [searchFrom, empty]
  | cons head tail ih =>
      by_cases inFront : pattern.isPrefixOf (head :: tail)
      · simp [searchFrom, inFront]
      · simp only [searchFrom, inFront]
        rw [ih (head :: passed), ih [head]]
        cases searchFrom pattern [] tail <;> simp

@[simp]
theorem leftmostSplit_nil (word : List α) :
    leftmostSplit [] word = some ([], word) := by
  cases word <;> simp [leftmostSplit, searchFrom]

theorem leftmostSplit_empty (pattern : List α) :
    leftmostSplit pattern [] = if pattern.isEmpty then some ([], []) else none := by
  by_cases empty : pattern.isEmpty <;> simp [leftmostSplit, searchFrom, empty]

theorem leftmostSplit_cons (pattern : List α) (head : α) (tail : List α) :
    leftmostSplit pattern (head :: tail) =
      if pattern.isPrefixOf (head :: tail) then
        some ([], (head :: tail).drop pattern.length)
      else
        (leftmostSplit pattern tail).map fun (before, after) => (head :: before, after) := by
  by_cases inFront : pattern.isPrefixOf (head :: tail)
  · simp [leftmostSplit, searchFrom, inFront]
  · simp only [leftmostSplit, searchFrom, inFront]
    rw [searchFrom_eq_map]
    cases searchFrom pattern [] tail <;> simp

theorem eq_append_of_leftmostSplit {pattern word before after : List α}
    (found : leftmostSplit pattern word = some (before, after)) :
    word = before ++ pattern ++ after := by
  induction word generalizing before with
  | nil =>
      rw [leftmostSplit_empty] at found
      split at found
      · rename_i empty
        simp_all
      · simp at found
  | cons head tail ih =>
      rw [leftmostSplit_cons] at found
      split at found
      · rename_i inFront
        simp only [Option.some.injEq, Prod.mk.injEq] at found
        obtain ⟨rfl, rfl⟩ := found
        exact (List.prefix_iff_eq_append.mp (List.isPrefixOf_iff_prefix.mp inFront)).symm
      · obtain ⟨⟨inner, rest⟩, inTail, joined⟩ := Option.map_eq_some_iff.mp found
        simp only [Prod.mk.injEq] at joined
        obtain ⟨rfl, rfl⟩ := joined
        simp [ih inTail]

end Leftmost

namespace Text

/-!
## Lines

A line ends at a line feed.  One carriage return directly before that line
feed belongs to the line end and is dropped with it; a carriage return
anywhere else is part of its line.  The last line may lack its line feed, and
a final line feed opens no further line.  No other character ends a line.
-/

/-- Put a character in front of the first line, opening it if there is none. -/
def extendFirst (character : Char) : List Word → List Word
  | [] => [[character]]
  | line :: rest => (character :: line) :: rest

/-- The lines of a text, without their ends. -/
def lines : Word → List Word
  | [] => []
  | '\n' :: rest => [] :: lines rest
  | '\r' :: '\n' :: rest => [] :: lines rest
  | character :: rest => extendFirst character (lines rest)

/-! ## Numerals and alignment -/

/-- The decimal numeral of a number. -/
def decimal (number : Nat) : Word :=
  Nat.toDigits 10 number

/-- A text filled up with blanks on the left to a width. -/
def alignRight (width : Nat) (text : Word) : Word :=
  List.replicate (width - text.length) ' ' ++ text

/-- A text filled up with blanks on the right to a width. -/
def alignLeft (width : Nat) (text : Word) : Word :=
  text ++ List.replicate (width - text.length) ' '

end Text

end MarkovAlgorithm
