import Mathlib.Data.List.Basic
import MarkovAlgorithm.Rule

/-!
# Leftmost occurrences

`CutsLeftmost` says what a leftmost occurrence is without searching for one:
the word is cut around the pattern, and no other cut has a shorter part in
front.  There is at most one such cut.  `leftmostSplit` finds it exactly when
the pattern occurs at all, also where occurrences of the pattern overlap.
Where a word holds some letter only once, a pattern with that letter can occur
only around it.

A rule therefore applies to the words in which its pattern occurs, and firing
it replaces the leftmost occurrence.
-/

namespace MarkovAlgorithm

universe u v

variable {α : Type u}

/-- The word is cut around the leftmost occurrence of the pattern. -/
structure CutsLeftmost (pattern word before after : List α) : Prop where
  occurs : word = before ++ pattern ++ after
  leftmost : ∀ left right, word = left ++ pattern ++ right → before.length ≤ left.length

namespace CutsLeftmost

variable {pattern word before after otherBefore otherAfter : List α}

/-- There is only one leftmost cut. -/
theorem unique (first : CutsLeftmost pattern word before after)
    (second : CutsLeftmost pattern word otherBefore otherAfter) :
    before = otherBefore ∧ after = otherAfter := by
  have sameLength : before.length = otherBefore.length :=
    Nat.le_antisymm (first.leftmost _ _ second.occurs) (second.leftmost _ _ first.occurs)
  have sameWord := first.occurs.symm.trans second.occurs
  rw [List.append_assoc, List.append_assoc] at sameWord
  obtain ⟨sameBefore, sameRest⟩ := List.append_inj sameWord sameLength
  exact ⟨sameBefore, List.append_cancel_left sameRest⟩

theorem before_eq_nil (cuts : CutsLeftmost [] word before after) : before = [] := by
  have inFront : before.length ≤ ([] : List α).length := cuts.leftmost [] word rfl
  exact List.length_eq_zero_iff.mp (Nat.le_zero.mp inFront)

end CutsLeftmost

/-! ## Patterns around a mark -/

section Mark

variable {mark : α} {left right inFront behind : List α}

/-- A pattern with a letter that the word holds only once occurs exactly if it
fits around that letter. -/
theorem infix_around_mark_iff (onlyLeft : mark ∉ left) (onlyRight : mark ∉ right) :
    inFront ++ mark :: behind <:+: left ++ mark :: right ↔
      inFront <:+ left ∧ behind <+: right := by
  constructor
  · rintro ⟨before, after, wordEq⟩
    have aligned : left ++ mark :: right =
        (before ++ inFront) ++ mark :: (behind ++ after) := by
      rw [← wordEq]
      simp
    obtain ⟨rfl, -, rfl⟩ := (List.append_cons_inj_of_notMem onlyLeft onlyRight).mp aligned
    exact ⟨List.suffix_append before inFront, List.prefix_append behind after⟩
  · rintro ⟨⟨before, rfl⟩, ⟨after, rfl⟩⟩
    exact ⟨before, after, by simp⟩

theorem cutsLeftmost_around_mark (onlyLeft : mark ∉ left ++ inFront)
    (onlyRight : mark ∉ behind ++ right) :
    CutsLeftmost (inFront ++ mark :: behind)
      (left ++ (inFront ++ mark :: behind) ++ right) left right where
  occurs := rfl
  leftmost before after wordEq := by
    have aligned : (left ++ inFront) ++ mark :: (behind ++ right) =
        (before ++ inFront) ++ mark :: (behind ++ after) := by
      simpa using wordEq
    obtain ⟨sameFront, -, -⟩ := (List.append_cons_inj_of_notMem onlyLeft onlyRight).mp aligned
    exact Nat.le_of_eq (congrArg List.length (List.append_cancel_right sameFront))

/-- The first place of a letter is the first at which a pattern that begins with
it can occur. -/
theorem cutsLeftmost_of_head_not_mem (absent : mark ∉ left) :
    CutsLeftmost (mark :: behind) (left ++ mark :: (behind ++ right)) left right where
  occurs := by simp
  leftmost before after wordEq := by
    rw [List.append_assoc] at wordEq
    rcases List.append_eq_append_iff.mp wordEq with ⟨_, beforeEq, _⟩ | ⟨between, leftEq, restEq⟩
    · rw [beforeEq, List.length_append]
      exact Nat.le_add_right _ _
    · cases between with
      | nil => simp [leftEq]
      | cons first others =>
          obtain ⟨rfl, _⟩ := List.cons.inj restEq
          exact absurd (by simp [leftEq]) absent

end Mark

variable [DecidableEq α] {pattern word before after : List α}

/-- No occurrence stands further left than the one that the search finds. -/
theorem length_le_of_leftmostSplit
    (found : leftmostSplit pattern word = some (before, after)) {left right : List α}
    (wordEq : word = left ++ pattern ++ right) : before.length ≤ left.length := by
  induction word generalizing before left with
  | nil =>
      rw [leftmostSplit_empty] at found
      split at found
      · cases found
        exact Nat.zero_le left.length
      · contradiction
  | cons head tail inductionHypothesis =>
      rw [leftmostSplit_cons] at found
      split at found
      · cases found
        exact Nat.zero_le left.length
      · rename_i notInFront
        obtain ⟨⟨inner, rest⟩, inTail, joined⟩ := Option.map_eq_some_iff.mp found
        cases joined
        cases left with
        | nil =>
            apply absurd _ notInFront
            rw [wordEq, List.isPrefixOf_iff_prefix]
            exact List.prefix_append pattern right
        | cons first passed =>
            have tailEq : tail = passed ++ pattern ++ right := (List.cons.inj wordEq).2
            exact Nat.succ_le_succ (inductionHypothesis inTail tailEq)

/-- The search finds the leftmost cut. -/
theorem cutsLeftmost_of_leftmostSplit
    (found : leftmostSplit pattern word = some (before, after)) :
    CutsLeftmost pattern word before after where
  occurs := eq_append_of_leftmostSplit found
  leftmost _ _ := length_le_of_leftmostSplit found

theorem leftmostSplit_eq_none_iff :
    leftmostSplit pattern word = none ↔ ¬pattern <:+: word := by
  induction word with
  | nil =>
      rw [leftmostSplit_empty, List.infix_nil]
      by_cases empty : pattern = [] <;> simp [empty]
  | cons head tail inductionHypothesis =>
      rw [leftmostSplit_cons, List.infix_cons_iff, ← List.isPrefixOf_iff_prefix]
      by_cases inFront : pattern.isPrefixOf (head :: tail)
      · simp [inFront]
      · simp [inFront, inductionHypothesis]

theorem isSome_leftmostSplit_iff :
    (leftmostSplit pattern word).isSome = true ↔ pattern <:+: word := by
  rw [Option.isSome_iff_ne_none, ne_eq, leftmostSplit_eq_none_iff, Classical.not_not]

/-- The search gives the leftmost cut and nothing else. -/
theorem leftmostSplit_eq_some_iff :
    leftmostSplit pattern word = some (before, after) ↔
      CutsLeftmost pattern word before after := by
  constructor
  · exact cutsLeftmost_of_leftmostSplit
  · intro cuts
    have occurs : pattern <:+: word := ⟨before, after, cuts.occurs.symm⟩
    obtain ⟨⟨left, right⟩, found⟩ :=
      Option.isSome_iff_exists.mp (isSome_leftmostSplit_iff.mpr occurs)
    obtain ⟨rfl, rfl⟩ := (cutsLeftmost_of_leftmostSplit found).unique cuts
    exact found

/-- A pattern that occurs has a leftmost occurrence. -/
theorem exists_cutsLeftmost (occurs : pattern <:+: word) :
    ∃ before after, CutsLeftmost pattern word before after := by
  obtain ⟨⟨before, after⟩, found⟩ :=
    Option.isSome_iff_exists.mp (isSome_leftmostSplit_iff.mpr occurs)
  exact ⟨before, after, cutsLeftmost_of_leftmostSplit found⟩

/-- The search does not depend on what the symbols are, as long as different
symbols stay different. -/
theorem leftmostSplit_map {β : Type v} [DecidableEq β] {rename : α → β}
    (injective : Function.Injective rename) (pattern word : List α) :
    leftmostSplit (pattern.map rename) (word.map rename) =
      (leftmostSplit pattern word).map fun (before, after) =>
        (before.map rename, after.map rename) := by
  induction word with
  | nil =>
      rw [List.map_nil, leftmostSplit_empty, leftmostSplit_empty, List.isEmpty_map]
      by_cases empty : pattern.isEmpty <;> simp [empty]
  | cons head tail inductionHypothesis =>
      have sameTest : (pattern.map rename).isPrefixOf ((head :: tail).map rename) =
          pattern.isPrefixOf (head :: tail) := by
        rw [Bool.eq_iff_iff, List.isPrefixOf_iff_prefix, List.isPrefixOf_iff_prefix,
          List.prefix_map_iff_of_injective injective]
      rw [List.map_cons, leftmostSplit_cons, ← List.map_cons, sameTest, leftmostSplit_cons]
      by_cases inFront : pattern.isPrefixOf (head :: tail)
      · simp [inFront, List.map_drop]
      · rw [if_neg inFront, if_neg inFront, inductionHypothesis]
        cases leftmostSplit pattern tail <;> rfl

namespace Rule

variable {rule : Rule} {word rewritten : Word}

theorem applies_iff_infix : rule.applies word = true ↔ rule.pattern <:+: word :=
  isSome_leftmostSplit_iff

/-- Firing replaces the leftmost occurrence of the pattern. -/
theorem fire?_eq_some_iff :
    rule.fire? word = some rewritten ↔
      ∃ before after, CutsLeftmost rule.pattern word before after ∧
        rewritten = before ++ rule.replacement ++ after := by
  unfold fire?
  rw [Option.map_eq_some_iff]
  constructor
  · rintro ⟨⟨before, after⟩, found, rfl⟩
    exact ⟨before, after, leftmostSplit_eq_some_iff.mp found, (List.append_assoc ..).symm⟩
  · rintro ⟨before, after, cuts, rfl⟩
    exact ⟨(before, after), leftmostSplit_eq_some_iff.mpr cuts, (List.append_assoc ..).symm⟩

theorem exists_fire?_eq_some_iff :
    (∃ rewritten, rule.fire? word = some rewritten) ↔ rule.pattern <:+: word := by
  rw [← Option.isSome_iff_exists, isSome_fire?, applies_iff_infix]

theorem fire?_eq_none_iff : rule.fire? word = none ↔ ¬rule.pattern <:+: word := by
  unfold fire?
  rw [Option.map_eq_none_iff, leftmostSplit_eq_none_iff]

end Rule

end MarkovAlgorithm
