import Mathlib.Data.List.Infix
import MarkovAlgorithm.Proofs.Run.Derivation
import MarkovAlgorithm.Sample

/-!
# Letters that are exchanged forever

The program exchanges an `a` and a `b` that stand side by side.  Other letters
stay where they are, so the word falls into blocks of these two letters.  As long
as an `a` stands in front of a `b`, the first rule fires and takes one pair of
such letters out of a block.  When no pair is left, the second rule puts one in,
and the first takes it out again, at the same place.

The number of pairs says how far the computation has come.  It goes down by one
with every move until it is zero, and then it is one and zero in turn.  A word
that comes back therefore does so after two moves, be it the first sorted word or
the word that came right before it.
-/

namespace MarkovAlgorithm.Sample

namespace Exchange

open Machine (firing? stepN)

/-! ## The rules -/

/-- Move a `b` to the front. -/
def sort : Rule := ⟨['a', 'b'], ['b', 'a'], false⟩

/-- Move an `a` to the front. -/
def unsort : Rule := ⟨['b', 'a'], ['a', 'b'], false⟩

/-- Both rules, in order of priority. -/
def rules : List Rule := [sort, unsort]

theorem load_eq (start : Word) : pingPong.load start = .ok ⟨rules, start, start, false⟩ :=
  rfl

/-! ## Pairs within a block -/

/-- The letters that are exchanged.  All others separate blocks of them. -/
def exchanged (letter : Char) : Bool :=
  letter == 'a' || letter == 'b'

/-- The number of pairs of an `a` and a `b` behind it in the same block: each `a`
counts the letters `b` in the rest of its block. -/
def blockPairs : Word → Nat
  | [] => 0
  | letter :: rest =>
      (if letter = 'a' then (rest.takeWhile exchanged).count 'b' else 0) + blockPairs rest

variable {word before after : Word}

theorem count_takeWhile_exchange (before after : Word) :
    ((before ++ ['a', 'b'] ++ after).takeWhile exchanged).count 'b' =
      ((before ++ ['b', 'a'] ++ after).takeWhile exchanged).count 'b' := by
  induction before with
  | nil => simp [exchanged]
  | cons letter before inductionHypothesis =>
      simp only [List.cons_append, List.takeWhile_cons]
      cases exchanged letter with
      | true => simp only [if_true, List.count_cons, inductionHypothesis]
      | false => rfl

/-- Moving a `b` to the front takes out one pair. -/
theorem blockPairs_sort (before after : Word) :
    blockPairs (before ++ ['a', 'b'] ++ after) =
      blockPairs (before ++ ['b', 'a'] ++ after) + 1 := by
  induction before with
  | nil =>
      have behind : blockPairs ('b' :: 'a' :: after) =
          (after.takeWhile exchanged).count 'b' + blockPairs after := by
        simp [blockPairs]
      have inFront : blockPairs ('a' :: 'b' :: after) =
          (after.takeWhile exchanged).count 'b' + 1 + blockPairs after := by
        simp [blockPairs, exchanged]
      change blockPairs ('a' :: 'b' :: after) = blockPairs ('b' :: 'a' :: after) + 1
      rw [inFront, behind, Nat.add_right_comm]
  | cons letter before inductionHypothesis =>
      simp only [List.cons_append, blockPairs]
      rw [inductionHypothesis, count_takeWhile_exchange, Nat.add_assoc]

theorem infix_of_count_pos {rest : Word} (counted : 0 < (rest.takeWhile exchanged).count 'b') :
    ['a', 'b'] <:+: 'a' :: rest := by
  induction rest with
  | nil => contradiction
  | cons letter rest inductionHypothesis =>
      by_cases isB : letter = 'b'
      · subst isB
        exact (List.prefix_append ['a', 'b'] rest).isInfix
      · by_cases isA : letter = 'a'
        · subst isA
          have countedBehind : 0 < (rest.takeWhile exchanged).count 'b' := by
            simpa [exchanged] using counted
          exact List.infix_cons (inductionHypothesis countedBehind)
        · simp [exchanged, isA, isB] at counted

/-- There are pairs as long as an `a` and a `b` stand side by side. -/
theorem blockPairs_pos_iff : 0 < blockPairs word ↔ ['a', 'b'] <:+: word := by
  constructor
  · intro pairs
    induction word with
    | nil => contradiction
    | cons letter rest inductionHypothesis =>
        rw [blockPairs] at pairs
        by_cases inRest : 0 < blockPairs rest
        · exact List.infix_cons (inductionHypothesis inRest)
        · by_cases isA : letter = 'a'
          · subst isA
            rw [if_pos rfl] at pairs
            exact infix_of_count_pos (by omega)
          · rw [if_neg isA] at pairs
            omega
  · rintro ⟨before, after, rfl⟩
    rw [blockPairs_sort]
    exact Nat.succ_pos _

/-! ## The moves -/

/-- One of the rules applies. -/
def Mixed (word : Word) : Prop :=
  ['a', 'b'] <:+: word ∨ ['b', 'a'] <:+: word

theorem firing?_sort (cuts : CutsLeftmost ['a', 'b'] word before after) :
    firing? word rules = some (sort, before ++ ['b', 'a'] ++ after) :=
  Machine.firing?_cons_of_cuts cuts [unsort]

theorem firing?_unsort (sorted : ¬['a', 'b'] <:+: word)
    (cuts : CutsLeftmost ['b', 'a'] word before after) :
    firing? word rules = some (unsort, before ++ ['a', 'b'] ++ after) := by
  have absent : ∀ other ∈ [sort], ¬other.pattern <:+: word := List.forall_mem_singleton.mpr sorted
  exact (Machine.firing?_append_of_absent absent [unsort]).trans
    (Machine.firing?_cons_of_cuts cuts [])

theorem firing?_eq_none (still : ¬Mixed word) : firing? word rules = none := by
  obtain ⟨noSort, noUnsort⟩ := not_or.mp still
  have absent : ∀ other ∈ rules, ¬other.pattern <:+: word :=
    List.forall_mem_cons.mpr ⟨noSort, List.forall_mem_singleton.mpr noUnsort⟩
  exact Machine.firing?_append_of_absent absent []

/-- As long as there are pairs, a move takes out one of them. -/
theorem exists_derives_of_pairs (pairs : 0 < blockPairs word) :
    ∃ next, Derives rules 1 word next ∧ Mixed next ∧ blockPairs next + 1 = blockPairs word := by
  obtain ⟨before, after, cuts⟩ := exists_cutsLeftmost (blockPairs_pos_iff.mp pairs)
  refine ⟨_, .single (firing?_sort cuts) rfl, .inr ⟨before, after, rfl⟩, ?_⟩
  rw [cuts.occurs, blockPairs_sort]

/-- The pairs are taken out one by one. -/
theorem exists_derives (mixed : Mixed word) {count : Nat} (few : count ≤ blockPairs word) :
    ∃ next, Derives rules count word next ∧ Mixed next ∧
      blockPairs next + count = blockPairs word := by
  induction count with
  | zero => exact ⟨word, .refl word, mixed, rfl⟩
  | succ count inductionHypothesis =>
      obtain ⟨middle, begins, _, pairsLeft⟩ := inductionHypothesis (Nat.le_of_succ_le few)
      obtain ⟨next, move, nextMixed, oneLess⟩ :=
        exists_derives_of_pairs (show 0 < blockPairs middle by omega)
      exact ⟨next, begins.trans move, nextMixed, by omega⟩

/-- Where an `a` has been moved in front of a `b`, no other pair stands further left. -/
theorem cutsLeftmost_of_sorted (sorted : ¬['a', 'b'] <:+: before ++ ['b', 'a'] ++ after) :
    CutsLeftmost ['a', 'b'] (before ++ ['a', 'b'] ++ after) before after where
  occurs := rfl
  leftmost left right wordEq := by
    rw [List.append_assoc, List.append_assoc] at wordEq
    rcases List.append_eq_append_iff.mp wordEq with ⟨_, leftEq, _⟩ | ⟨between, beforeEq, restEq⟩
    · rw [leftEq, List.length_append]
      exact Nat.le_add_right _ _
    · -- a pair in front of the moved letter would have been there before
      match between, restEq with
      | [], _ => simp [beforeEq]
      | [_], restEq => simp at restEq
      | first :: second :: others, restEq =>
          simp only [List.cons_append, List.cons.injEq] at restEq
          obtain ⟨rfl, rfl, _⟩ := restEq
          exact absurd ⟨left, others ++ ['b', 'a'] ++ after, by simp [beforeEq]⟩ sorted

/-- Without a pair, one is put in by the next move and taken out by the one after it. -/
theorem exists_derives_back (mixed : Mixed word) (sorted : blockPairs word = 0) :
    ∃ next, Derives rules 1 word next ∧ Derives rules 1 next word ∧ blockPairs next = 1 := by
  have noPair : ¬['a', 'b'] <:+: word := by
    rw [← blockPairs_pos_iff, sorted]
    exact Nat.lt_irrefl 0
  obtain ⟨before, after, cuts⟩ := exists_cutsLeftmost (mixed.resolve_left noPair)
  obtain rfl := cuts.occurs
  refine ⟨before ++ ['a', 'b'] ++ after, .single (firing?_unsort noPair cuts) rfl,
    .single (firing?_sort (cutsLeftmost_of_sorted noPair)) rfl, ?_⟩
  rw [blockPairs_sort, sorted]

/-! ## The computation -/

/-- The pairs are taken out by `count` moves, and from then on one is put in and
taken out again. -/
structure Alternates (machine : Machine) (count : Nat) : Prop where
  falling : ∀ index ≤ count, blockPairs (stepN index machine).word + index = count
  unsorted : blockPairs (stepN (count + 1) machine).word = 1
  circles : ∃ sorted, machine.Circles ⟨sorted, count + 2, count⟩

theorem alternates (mixed : Mixed word) (start : Word) :
    Alternates ⟨rules, start, word, false⟩ (blockPairs word) := by
  obtain ⟨sorted, sorts, sortedMixed, pairsLeft⟩ := exists_derives mixed (Nat.le_refl _)
  obtain ⟨unsorted, unsorts, sortsAgain, onePair⟩ :=
    exists_derives_back sortedMixed (show blockPairs sorted = 0 by omega)
  refine ⟨?_, ?_, sorted, sorts.circles (unsorts.trans sortsAgain) start⟩
  · intro index few
    obtain ⟨next, derives, _, pairsThere⟩ := exists_derives mixed few
    rw [derives.stepN_eq]
    exact pairsThere
  · rw [(sorts.trans unsorts).stepN_eq]
    exact onePair

theorem Alternates.sortedAgain {machine : Machine} {count : Nat}
    (alternates : Alternates machine count) : blockPairs (stepN (count + 2) machine).word = 0 := by
  obtain ⟨sorted, circles⟩ := alternates.circles
  have sameWord : (stepN (count + 2) machine).word = (stepN count machine).word :=
    congrArg Machine.word circles.repeated.symm
  have noneLeft := alternates.falling count (Nat.le_refl count)
  rw [sameWord]
  omega

/-- A word that comes back does so after two moves. -/
theorem Alternates.step_eq {machine : Machine} {count : Nat} {cycle : Cycle}
    (alternates : Alternates machine count) (circles : machine.Circles cycle)
    (reached : cycle.step ≤ count + 2) : cycle.step = cycle.previousStep + 2 := by
  have ordered := circles.ordered
  have samePairs : blockPairs (stepN cycle.previousStep machine).word =
      blockPairs (stepN cycle.step machine).word := by
    rw [circles.repeated]
  have unsorted := alternates.unsorted
  have sortedAgain := alternates.sortedAgain
  have earlier := alternates.falling cycle.previousStep
  have later := alternates.falling cycle.step
  rcases Nat.lt_trichotomy cycle.step (count + 1) with falling | putIn | takenOut
  · -- as long as the number of pairs goes down, no word comes back
    omega
  · -- one pair was left right before the word was sorted
    rw [putIn, unsorted] at samePairs
    omega
  · have last : cycle.step = count + 2 := by omega
    rw [last, sortedAgain] at samePairs
    have notBetween : cycle.previousStep ≠ count + 1 := by
      intro between
      rw [between, unsorted] at samePairs
      contradiction
    omega

end Exchange

open Sample.Exchange

/-- The program halts at once on words in which its two letters never stand side by side.  On
every other word it goes on forever.  A run that looks for repetitions then finds a word that it
visited two moves before, at the latest two moves after all pairs have been taken out; a run that
ignores repetitions is ended by its limit alone. -/
theorem pingPong_halts_or_alternates (word : Word) :
    ∃ machine, pingPong.load word = .ok machine ∧
      ∀ (settings : Settings) (fuel : Nat),
        (¬['a', 'b'] <:+: word ∧ ¬['b', 'a'] <:+: word →
          (∀ limit, settings.stepLimit = some limit → 1 ≤ limit) →
          (settings.stepLimit = none → 1 ≤ fuel) →
          ∃ report, run fuel settings machine = some report ∧ report.outcome = .halted ∧
            report.steps = 0) ∧
        (['a', 'b'] <:+: word ∨ ['b', 'a'] <:+: word →
          (settings.detectCycles = true →
            (∀ limit, settings.stepLimit = some limit → blockPairs word + 2 ≤ limit) →
            (settings.stepLimit = none → blockPairs word + 2 < fuel) →
            ∃ report cycle, run fuel settings machine = some report ∧
              report.outcome = .cycle cycle ∧ cycle.step = cycle.previousStep + 2 ∧
              cycle.step ≤ blockPairs word + 2) ∧
          (settings.detectCycles = false →
            (∀ limit, settings.stepLimit = some limit →
              ∃ report, run fuel settings machine = some report ∧
                report.outcome = .stepLimit limit) ∧
            (settings.stepLimit = none → run fuel settings machine = none))) := by
  refine ⟨_, load_eq word, ?_⟩
  intro settings fuel
  constructor
  · intro still ample fueled
    have stuck := firing?_eq_none (not_or.mpr still)
    have within : settings.exhaustedBy 0 = false := Settings.exhaustedBy_eq_false_iff.mpr ample
    have stops := (Derives.refl word).stops_halted stuck word within
    exact ⟨_, stops.run_eq_of_ample fueled, rfl, rfl⟩
  · intro mixed
    have alternates := alternates mixed word
    obtain ⟨sorted, circles⟩ := alternates.circles
    constructor
    · intro detects ample fueled
      obtain ⟨report, cycle, stops, reported, early⟩ := circles.exists_stops_cycle detects ample
      obtain ⟨stepEq, closes⟩ := stops.circles reported
      rw [← stepEq] at early
      refine ⟨report, cycle, stops.run_eq_of_ample ?_, reported,
        alternates.step_eq closes early, early⟩
      intro unlimited
      exact Nat.lt_of_le_of_lt (stepEq ▸ early) (fueled unlimited)
    · intro ignores
      constructor
      · intro limit limited
        exact ⟨_, circles.run_eq ignores limited fuel, rfl⟩
      · intro unlimited
        exact Machine.run_eq_none_of_moving ignores unlimited circles.moving fuel

/-- Two blocks with three pairs in all, and two letters that are kept apart. -/
theorem pingPong_halts_or_alternates_blocks :
    blockPairs "aabxab".toList = 3 ∧
    (∃ machine, pingPong.load "aabxab".toList = .ok machine ∧
      ∃ report cycle, run 0 { stepLimit := some 5 } machine = some report ∧
        report.outcome = .cycle cycle ∧ cycle.step = cycle.previousStep + 2) ∧
    ∃ machine, pingPong.load "axb".toList = .ok machine ∧
      ∃ report, run 0 { stepLimit := some 1 } machine = some report ∧
        report.outcome = .halted := by
  obtain ⟨swapper, swapperLoaded, swaps⟩ := pingPong_halts_or_alternates "aabxab".toList
  obtain ⟨idler, idlerLoaded, idles⟩ := pingPong_halts_or_alternates "axb".toList
  obtain ⟨report, cycle, returned, reported, twoMoves, _⟩ :=
    ((swaps { stepLimit := some 5 } 0).2 (.inl (by decide))).1 rfl (by decide) (by simp)
  obtain ⟨still, stillReturned, halts, _⟩ :=
    (idles { stepLimit := some 1 } 0).1 (by decide) (by simp) (by simp)
  exact ⟨by decide, ⟨swapper, swapperLoaded, report, cycle, returned, reported, twoMoves⟩,
    idler, idlerLoaded, still, stillReturned, halts⟩

end MarkovAlgorithm.Sample
