import Mathlib.Data.Nat.Choose.Basic
import Mathlib.Tactic.Ring
import MarkovAlgorithm.Proofs.Run.Derivation
import MarkovAlgorithm.Sample

/-!
# Reversing a word

The program puts a front mark and a cursor in front of the word.  Between the
two stands what has been reversed, and behind the cursor what is left.  The
cursor picks up the next letter as a capital, the capital is carried to the
front, letter by letter, and is put down there.  When nothing is left, both
marks are dropped.

There is never more than one capital and one cursor in the word.  A pattern with
one of these marks can only occur around it, so of the rules that come first
each word allows only one.
-/

namespace MarkovAlgorithm.Sample

namespace Reversal

open Machine (firing?)

/-! ## The rules -/

/-- The letters of the words to be reversed. -/
def letters : List Char := ['a', 'b']

/-- Carry a capital over the letter in front of it. -/
def carry (letter carried : Char) : Rule :=
  ⟨[letter, carried.toUpper], [carried.toUpper, letter], false⟩

/-- Put a capital down behind the front mark. -/
def putDown (carried : Char) : Rule :=
  ⟨['%', carried.toUpper], ['%', carried], false⟩

/-- Pick up the letter behind the cursor. -/
def pickUp (letter : Char) : Rule :=
  ⟨['#', letter], [letter.toUpper, '#'], false⟩

def dropCursor : Rule := ⟨['#'], [], false⟩

def dropFront : Rule := ⟨['%'], [], true⟩

def setMarks : Rule := ⟨[], ['%', '#'], false⟩

/-- The rules for a capital. -/
def carrying : List Rule :=
  (letters.flatMap fun carried => letters.map fun letter => carry letter carried) ++
    letters.map putDown

/-- The rules for a cursor in front of a letter. -/
def picking : List Rule := letters.map pickUp

/-- All rules, in order of priority. -/
def rules : List Rule := carrying ++ (picking ++ [dropCursor, dropFront, setMarks])

theorem load_eq (start : Word) : reverse.load start = .ok ⟨rules, start, start, false⟩ :=
  rfl

/-! ## Words without marks -/

/-- The word holds no capital of a letter. -/
def NoCapital (word : Word) : Prop :=
  ∀ letter ∈ letters, letter.toUpper ∉ word

/-- The word is spelled with the letters. -/
def Spelled (word : Word) : Prop :=
  ∀ letter ∈ word, letter ∈ letters

variable {letter carried : Char} {left right word : Word}

theorem NoCapital.cons (clean : NoCapital word)
    (small : ∀ other ∈ letters, other.toUpper ≠ letter) : NoCapital (letter :: word) := by
  intro other inLetters
  exact List.not_mem_cons_of_ne_of_not_mem (small other inLetters) (clean other inLetters)

theorem NoCapital.append (cleanLeft : NoCapital left) (cleanRight : NoCapital right) :
    NoCapital (left ++ right) := by
  intro other inLetters inWord
  rcases List.mem_append.mp inWord with inLeft | inRight
  · exact cleanLeft other inLetters inLeft
  · exact cleanRight other inLetters inRight

theorem forall_letters {property : Char → Prop} (first : property 'a') (second : property 'b') :
    ∀ letter ∈ letters, property letter :=
  List.forall_mem_cons.mpr ⟨first, List.forall_mem_singleton.mpr second⟩

theorem toUpper_ne_of_mem :
    ∀ letter ∈ letters, ∀ other ∈ letters, other.toUpper ≠ letter := by
  refine forall_letters ?_ ?_
  · exact forall_letters (by decide) (by decide)
  · exact forall_letters (by decide) (by decide)

theorem toUpper_ne_front : ∀ other ∈ letters, other.toUpper ≠ '%' :=
  forall_letters (by decide) (by decide)

theorem toUpper_ne_cursor : ∀ other ∈ letters, other.toUpper ≠ '#' :=
  forall_letters (by decide) (by decide)

theorem Spelled.noCapital (spelled : Spelled word) : NoCapital word := by
  intro other inLetters inWord
  exact toUpper_ne_of_mem _ (spelled _ inWord) other inLetters rfl

theorem Spelled.cursor_not_mem (spelled : Spelled word) : '#' ∉ word := by
  intro inWord
  exact absurd (spelled _ inWord) (by decide)

theorem Spelled.noCapital_cons (spelled : Spelled word) : NoCapital ('%' :: word) :=
  spelled.noCapital.cons toUpper_ne_front

theorem Spelled.cursor_not_mem_cons (spelled : Spelled word) : '#' ∉ '%' :: word :=
  List.not_mem_cons_of_ne_of_not_mem (by decide) spelled.cursor_not_mem

/-! ## The rules for a capital -/

/-- Each rule for a capital has one behind some other letter. -/
theorem exists_pattern_of_mem_carrying {rule : Rule} (inCarrying : rule ∈ carrying) :
    ∃ first, ∃ capital ∈ letters, rule.pattern = [first, capital.toUpper] := by
  simp only [carrying, List.mem_append, List.mem_flatMap, List.mem_map] at inCarrying
  rcases inCarrying with ⟨capital, inLetters, first, _, rfl⟩ | ⟨capital, inLetters, rfl⟩
  · exact ⟨first, capital, inLetters, rfl⟩
  · exact ⟨'%', capital, inLetters, rfl⟩

theorem NoCapital.not_infix (clean : NoCapital word) :
    ∀ rule ∈ carrying, ¬rule.pattern <:+: word := by
  intro rule inCarrying occurs
  obtain ⟨first, capital, inLetters, patternEq⟩ := exists_pattern_of_mem_carrying inCarrying
  rw [patternEq] at occurs
  exact clean capital inLetters (occurs.subset (by simp))

/-- Of the rules for a capital only the one for its place can apply. -/
theorem pattern_eq_of_infix {first : Char} {rule : Rule} (cleanLeft : NoCapital (left ++ [first]))
    (cleanRight : NoCapital right) (isCarried : carried ∈ letters) (inCarrying : rule ∈ carrying)
    (occurs : rule.pattern <:+: left ++ [first] ++ carried.toUpper :: right) :
    rule.pattern = [first, carried.toUpper] := by
  obtain ⟨other, capital, inLetters, patternEq⟩ := exists_pattern_of_mem_carrying inCarrying
  rw [patternEq] at occurs ⊢
  have sameCapital : capital.toUpper = carried.toUpper := by
    have inWord := occurs.subset (show capital.toUpper ∈ [other, capital.toUpper] by simp)
    rcases List.mem_append.mp inWord with inLeft | inRest
    · exact absurd inLeft (cleanLeft capital inLetters)
    · exact (List.mem_cons.mp inRest).resolve_right (cleanRight capital inLetters)
  rw [sameCapital] at occurs ⊢
  have fits : [other] <:+ left ++ [first] :=
    ((infix_around_mark_iff (cleanLeft carried isCarried) (cleanRight carried isCarried)).mp
      (show [other] ++ carried.toUpper :: [] <:+: _ from occurs)).1
  obtain ⟨before, frontEq⟩ := fits
  obtain rfl : other = first := List.singleton_inj.mp (List.append_inj' frontEq rfl).2
  rfl

/-- The rule for the place of the capital fires. -/
theorem firing?_carrying {first : Char} {rule : Rule} (cleanLeft : NoCapital (left ++ [first]))
    (cleanRight : NoCapital right) (isCarried : carried ∈ letters) (inCarrying : rule ∈ carrying)
    (patternEq : rule.pattern = [first, carried.toUpper]) :
    firing? (left ++ [first] ++ carried.toUpper :: right) rules =
      some (rule, left ++ rule.replacement ++ right) := by
  have samePattern : ∀ one ∈ carrying, ∀ other ∈ carrying, one.pattern = other.pattern →
      one = other := by
    decide
  have cuts : CutsLeftmost rule.pattern (left ++ [first] ++ carried.toUpper :: right)
      left right := by
    rw [patternEq]
    simpa using cutsLeftmost_around_mark (cleanLeft carried isCarried)
      (show carried.toUpper ∉ [] ++ right from cleanRight carried isCarried)
  refine Machine.firing?_append_of_only inCarrying ?_ cuts
  intro other inOthers occurs
  apply samePattern other inOthers rule inCarrying
  rw [patternEq, pattern_eq_of_infix cleanLeft cleanRight isCarried inOthers occurs]

theorem firing?_carry (spelled : Spelled (left ++ [letter])) (clean : NoCapital right)
    (isCarried : carried ∈ letters) :
    firing? ('%' :: (left ++ [letter] ++ carried.toUpper :: right)) rules =
      some (carry letter carried, '%' :: (left ++ carried.toUpper :: letter :: right)) := by
  have isLetter : letter ∈ letters := spelled letter (by simp)
  have inCarrying : carry letter carried ∈ carrying :=
    List.mem_append_left _
      (List.mem_flatMap.mpr ⟨carried, isCarried, List.mem_map_of_mem isLetter⟩)
  have fires := firing?_carrying (show NoCapital ('%' :: left ++ [letter]) from
    spelled.noCapital_cons) clean isCarried inCarrying rfl
  simpa [carry] using fires

theorem firing?_putDown (clean : NoCapital right) (isCarried : carried ∈ letters) :
    firing? ('%' :: carried.toUpper :: right) rules =
      some (putDown carried, '%' :: carried :: right) := by
  have inCarrying : putDown carried ∈ carrying :=
    List.mem_append_right _ (List.mem_map_of_mem isCarried)
  have cleanFront : NoCapital ([] ++ ['%']) := Spelled.noCapital_cons (List.forall_mem_nil _)
  exact firing?_carrying cleanFront clean isCarried inCarrying rfl

/-! ## The rules for the cursor and for the front mark -/

theorem NoCapital.firing?_eq (clean : NoCapital word) :
    firing? word rules = firing? word (picking ++ [dropCursor, dropFront, setMarks]) :=
  Machine.firing?_append_of_absent clean.not_infix _

theorem NoCapital.firing?_eq_of_noCursor (clean : NoCapital word) (noCursor : '#' ∉ word) :
    firing? word rules = firing? word [dropFront, setMarks] := by
  have absent : ∀ rule ∈ picking ++ [dropCursor], ¬rule.pattern <:+: word := by
    intro rule inFront occurs
    rcases List.mem_append.mp inFront with inPicking | isLast
    · obtain ⟨letter, _, rfl⟩ := List.mem_map.mp inPicking
      exact noCursor (occurs.subset List.mem_cons_self)
    · rw [List.mem_singleton.mp isLast] at occurs
      exact noCursor (occurs.subset List.mem_cons_self)
  rw [clean.firing?_eq]
  exact Machine.firing?_append_of_absent absent [dropFront, setMarks]

/-- Only the letter behind the cursor can be picked up. -/
theorem pickUp_infix_iff (spelled : Spelled left) (restSpelled : Spelled right) :
    (pickUp letter).pattern <:+: '%' :: left ++ '#' :: right ↔ [letter] <+: right := by
  have around : [] ++ '#' :: [letter] <:+: '%' :: left ++ '#' :: right ↔
      [] <:+ '%' :: left ∧ [letter] <+: right :=
    infix_around_mark_iff spelled.cursor_not_mem_cons restSpelled.cursor_not_mem
  exact around.trans (and_iff_right List.nil_suffix)

theorem firing?_pickUp (spelled : Spelled left) (restSpelled : Spelled (letter :: right)) :
    firing? ('%' :: left ++ '#' :: letter :: right) rules =
      some (pickUp letter, '%' :: (left ++ letter.toUpper :: '#' :: right)) := by
  have clean : NoCapital ('%' :: left ++ '#' :: letter :: right) :=
    spelled.noCapital_cons.append (restSpelled.noCapital.cons toUpper_ne_cursor)
  have inPicking : pickUp letter ∈ picking :=
    List.mem_map_of_mem (restSpelled letter List.mem_cons_self)
  have only : ∀ other ∈ picking,
      other.pattern <:+: '%' :: left ++ '#' :: letter :: right → other = pickUp letter := by
    intro other inOthers occurs
    obtain ⟨picked, _, rfl⟩ := List.mem_map.mp inOthers
    rw [(List.cons_prefix_cons.mp ((pickUp_infix_iff spelled restSpelled).mp occurs)).1]
  have cuts : CutsLeftmost (pickUp letter).pattern ('%' :: left ++ '#' :: letter :: right)
      ('%' :: left) right :=
    cutsLeftmost_of_head_not_mem spelled.cursor_not_mem_cons
  rw [clean.firing?_eq, Machine.firing?_append_of_only inPicking only cuts]
  simp [pickUp]

theorem firing?_dropCursor (spelled : Spelled left) :
    firing? ('%' :: left ++ ['#']) rules = some (dropCursor, '%' :: left) := by
  have noneLeft : Spelled [] := List.forall_mem_nil _
  have clean : NoCapital ('%' :: left ++ ['#']) :=
    spelled.noCapital_cons.append (noneLeft.noCapital.cons toUpper_ne_cursor)
  have absent : ∀ other ∈ picking, ¬other.pattern <:+: '%' :: left ++ ['#'] := by
    intro other inPicking occurs
    obtain ⟨picked, _, rfl⟩ := List.mem_map.mp inPicking
    exact absurd ((pickUp_infix_iff spelled noneLeft).mp occurs) (by simp)
  have cuts : CutsLeftmost dropCursor.pattern ('%' :: left ++ ['#']) ('%' :: left) [] :=
    cutsLeftmost_of_head_not_mem spelled.cursor_not_mem_cons
  rw [clean.firing?_eq, Machine.firing?_append_of_absent absent,
    Machine.firing?_cons_of_cuts cuts]
  simp [dropCursor]

theorem firing?_dropFront (spelled : Spelled word) :
    firing? ('%' :: word) rules = some (dropFront, word) := by
  have cuts : CutsLeftmost dropFront.pattern ('%' :: word) [] word :=
    cutsLeftmost_of_head_not_mem List.not_mem_nil
  rw [spelled.noCapital_cons.firing?_eq_of_noCursor spelled.cursor_not_mem_cons,
    Machine.firing?_cons_of_cuts cuts]
  rfl

theorem firing?_setMarks (spelled : Spelled word) :
    firing? word rules = some (setMarks, '%' :: '#' :: word) := by
  have absent : ∀ other ∈ [dropFront], ¬other.pattern <:+: word := by
    rw [List.forall_mem_singleton]
    intro occurs
    exact absurd (spelled _ (occurs.subset List.mem_cons_self)) (by decide)
  have cuts : CutsLeftmost setMarks.pattern word [] word := ⟨rfl, fun _ _ _ => Nat.zero_le _⟩
  rw [spelled.noCapital.firing?_eq_of_noCursor spelled.cursor_not_mem]
  exact (Machine.firing?_append_of_absent absent [setMarks]).trans
    (Machine.firing?_cons_of_cuts cuts [])

/-! ## The derivation -/

/-- A capital is carried to the front and put down there. -/
theorem derives_carried (spelled : Spelled left) (clean : NoCapital right)
    (isCarried : carried ∈ letters) :
    Derives rules (left.length + 1) ('%' :: (left ++ carried.toUpper :: right))
      ('%' :: carried :: (left ++ right)) := by
  -- the letters of `left` are passed from the last to the first
  induction left using List.reverseRecOn generalizing right with
  | nil => exact .single (firing?_putDown clean isCarried) rfl
  | append_singleton front letter inductionHypothesis =>
      obtain ⟨frontSpelled, lastSpelled⟩ := List.forall_mem_append.mp spelled
      have passed : NoCapital (letter :: right) :=
        clean.cons (toUpper_ne_of_mem letter (List.forall_mem_singleton.mp lastSpelled))
      have rest := inductionHypothesis frontSpelled passed
      simpa using Derives.head (firing?_carry spelled clean isCarried) rfl rest

/-- One letter is moved from behind the cursor to the front. -/
theorem derives_turn (spelled : Spelled left) (restSpelled : Spelled (letter :: right)) :
    Derives rules (left.length + 2) ('%' :: (left ++ '#' :: letter :: right))
      ('%' :: (letter :: left ++ '#' :: right)) := by
  obtain ⟨isLetter, rightSpelled⟩ := List.forall_mem_cons.mp restSpelled
  have clean : NoCapital ('#' :: right) := (Spelled.noCapital rightSpelled).cons toUpper_ne_cursor
  exact .head (firing?_pickUp spelled restSpelled) rfl (derives_carried spelled clean isLetter)

/-- Letter by letter, what is left behind the cursor comes to stand in front in
reverse order. -/
theorem derives_reversed (spelled : Spelled left) (restSpelled : Spelled right) :
    Derives rules (right.length * (left.length + 2) + right.length.choose 2)
      ('%' :: (left ++ '#' :: right)) ('%' :: (right.reverse ++ left ++ ['#'])) := by
  induction right generalizing left with
  | nil => simpa using Derives.refl _
  | cons letter right inductionHypothesis =>
      obtain ⟨isLetter, rightSpelled⟩ := List.forall_mem_cons.mp restSpelled
      have turn := derives_turn spelled restSpelled
      have rest := inductionHypothesis (List.forall_mem_cons.mpr ⟨isLetter, spelled⟩) rightSpelled
      have counts : (letter :: right).length * (left.length + 2) +
          (letter :: right).length.choose 2 =
            left.length + 2 +
              (right.length * ((letter :: left).length + 2) + right.length.choose 2) := by
        simp only [List.length_cons, Nat.choose_succ_succ' _ 1, Nat.choose_one_right]
        ring
      rw [counts]
      simpa using turn.trans rest

/-- The moves of the whole computation but the last one. -/
theorem derives_reverse (spelled : Spelled word) :
    Derives rules (word.length.choose 2 + 2 * word.length + 2) word ('%' :: word.reverse) := by
  have reversed := derives_reversed (List.forall_mem_nil _) spelled
  have reverseSpelled : Spelled word.reverse := by simpa [Spelled] using spelled
  have dropped := Derives.single (firing?_dropCursor reverseSpelled) rfl
  have counts : word.length.choose 2 + 2 * word.length + 2 =
      word.length * (([] : Word).length + 2) + word.length.choose 2 + 1 + 1 := by
    simp only [List.length_nil]
    ring
  rw [counts]
  refine .head (firing?_setMarks spelled) rfl (Derives.trans ?_ dropped)
  simpa using reversed

/-- The number of moves for a word of a given length: two marks are set and
dropped again, and each letter is picked up, carried over those in front of it and
put down. -/
def moves (length : Nat) : Nat :=
  length * (length - 1) / 2 + 2 * length + 3

theorem moves_eq_succ (length : Nat) : moves length = length.choose 2 + 2 * length + 2 + 1 := by
  rw [moves, Nat.choose_two_right]

end Reversal

open Reversal

/-- The program reverses every word over its two letters, whether repetitions are
looked for or not.  It terminates after a number of moves that depends on the length
alone, and every lower limit cuts it off. -/
theorem reverse_terminates_reversed (word : Word)
    (spelled : ∀ letter ∈ word, letter = 'a' ∨ letter = 'b') :
    ∃ machine, reverse.load word = .ok machine ∧
      ∀ (settings : Settings) (fuel : Nat),
        ((∀ limit, settings.stepLimit = some limit → moves word.length ≤ limit) →
          (settings.stepLimit = none → moves word.length < fuel) →
          ∃ report, run fuel settings machine = some report ∧ report.outcome = .terminated ∧
            report.machine.word = word.reverse ∧ report.steps = moves word.length) ∧
        ∀ limit, settings.stepLimit = some limit → limit < moves word.length →
          ∃ report, run fuel settings machine = some report ∧
            report.outcome = .stepLimit limit := by
  have inLetters : Spelled word := by simpa [Spelled, letters] using spelled
  have reverseSpelled : Spelled word.reverse := by simpa [Spelled] using inLetters
  have derives := derives_reverse inLetters
  have drops := firing?_dropFront reverseSpelled
  refine ⟨_, load_eq word, ?_⟩
  intro settings fuel
  rw [moves_eq_succ]
  constructor
  · intro ample fueled
    have within : settings.exhaustedBy (word.length.choose 2 + 2 * word.length + 2) = false :=
      Settings.exhaustedBy_eq_false_iff.mpr ample
    have stops := derives.stops_terminated drops rfl word within
    exact ⟨_, stops.run_eq_of_ample fueled, rfl, rfl, rfl⟩
  · intro limit limited short
    have ends := derives.ends_of_terminal drops rfl word
    have stops := ends.stops_limit limited (Nat.le_of_lt_succ short)
    refine ⟨_, stops.run_eq_of_ample ?_, rfl⟩
    rw [limited]
    simp

/-- Three letters take twelve moves.  A limit of twelve is not reported, and one of
eleven is. -/
theorem reverse_terminates_reversed_three :
    ∃ machine, reverse.load ['a', 'b', 'b'] = .ok machine ∧
      (∃ report, run 0 { stepLimit := some 12 } machine = some report ∧
        report.outcome = .terminated ∧ report.machine.word = ['b', 'b', 'a']) ∧
      ∃ report, run 0 { stepLimit := some 11 } machine = some report ∧
        report.outcome = .stepLimit 11 := by
  obtain ⟨machine, loaded, runs⟩ := reverse_terminates_reversed ['a', 'b', 'b'] (by simp)
  obtain ⟨report, returned, outcome, reversed, _⟩ :=
    (runs { stepLimit := some 12 } 0).1 (by rintro limit ⟨⟩; decide) (by simp)
  exact ⟨machine, loaded, ⟨report, returned, outcome, reversed⟩,
    (runs { stepLimit := some 11 } 0).2 11 rfl (by decide)⟩

end MarkovAlgorithm.Sample
