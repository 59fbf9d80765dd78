import Mathlib.Data.List.Induction
import Mathlib.Order.Bounds.Basic
import MarkovAlgorithm.History

/-!
# Histories as lists of words

A history is used through its list of visits.  `History.ofList` builds the
history of given visits, and the first visit to a word is the least number at
which the list holds that word.

However a history was operated on, it shows the words that were added since it
was last begun anew.  Nothing of what was there before is left, neither among
the visits nor in their index, and a word that is pushed again keeps the number
of its first visit.  The words are told from the operations alone, without
looking at the histories in between.
-/

namespace MarkovAlgorithm.History

/-- The history of given visits. -/
def ofList (words : List Word) : History :=
  words.foldl push empty

theorem ofList_append_singleton (words : List Word) (word : Word) :
    ofList (words ++ [word]) = (ofList words).push word := by
  simp [ofList]

@[simp]
theorem toList_ofList (words : List Word) : (ofList words).toList = words := by
  induction words using List.reverseRecOn with
  | nil => rfl
  | append_singleton words word inductionHypothesis =>
      rw [ofList_append_singleton, toList_push, inductionHypothesis]

theorem get?_eq_getElem? (history : History) (step : Nat) :
    history.get? step = history.toList[step]? := by
  simp [get?, toList]

theorem last?_eq_getLast? (history : History) : history.last? = history.toList.getLast? := by
  simp [last?, toList, Array.getLast?_toList]

theorem firstVisit?_eq_none_iff {history : History} {word : Word} :
    history.firstVisit? word = none ↔ word ∉ history.toList := by
  rw [firstVisit?_eq_idxOf?]
  exact List.idxOf?_eq_none_iff

theorem exists_firstVisit?_iff {history : History} {word : Word} :
    (∃ step, history.firstVisit? word = some step) ↔ word ∈ history.toList := by
  rw [← Option.ne_none_iff_exists', ne_eq, firstVisit?_eq_none_iff, not_not]

theorem contains_iff_mem {history : History} {word : Word} :
    history.contains word = true ↔ word ∈ history.toList := by
  rw [contains, Std.TreeMap.contains_eq_isSome_getElem?, history.indexed]
  exact List.isSome_idxOf?

/-- The first visit to a word is the least number that the word has. -/
theorem firstVisit?_eq_some_iff {history : History} {word : Word} {step : Nat} :
    history.firstVisit? word = some step ↔
      IsLeast {number | history.get? number = some word} step := by
  simp only [firstVisit?_eq_idxOf?, List.idxOf?, List.findIdx?_eq_some_iff_getElem,
    get?_eq_getElem?, IsLeast, mem_lowerBounds, Set.mem_ofPred_eq]
  constructor
  · rintro ⟨inside, found, earlier⟩
    refine ⟨?_, ?_⟩
    · rw [List.getElem?_eq_getElem inside, beq_iff_eq.mp found]
    · intro number visited
      by_contra before
      obtain ⟨inside', atNumber⟩ := List.getElem?_eq_some_iff.mp visited
      exact earlier number (by omega) (beq_iff_eq.mpr atNumber)
  · rintro ⟨visited, least⟩
    obtain ⟨inside, atStep⟩ := List.getElem?_eq_some_iff.mp visited
    refine ⟨inside, beq_iff_eq.mpr atStep, ?_⟩
    intro number before found
    have atNumber : history.toList[number]? = some word := by
      rw [List.getElem?_eq_getElem (by omega), beq_iff_eq.mp found]
    exact absurd (least number atNumber) (by omega)

/-! ## Another visit -/

theorem get?_push_size (history : History) (word : Word) :
    (history.push word).get? history.size = some word := by
  simp [get?_eq_getElem?]

/-- Later visits do not change the first one. -/
theorem firstVisit?_push_of_eq_some {history : History} {word : Word} {step : Nat}
    (visited : history.firstVisit? word = some step) (added : Word) :
    (history.push added).firstVisit? word = some step := by
  rw [firstVisit?_eq_idxOf?, List.idxOf?] at visited ⊢
  rw [toList_push, List.findIdx?_append, visited]
  rfl

theorem render_push (history : History) (word : Word) :
    (history.push word).render =
      history.render ++ (Text.decimal history.size ++ ": ".toList ++ word ++ ['\n']) := by
  simp [render, List.zipIdx_append]

/-! ## Operations -/

namespace Operation

/-- The operations that begin the history anew. -/
def restarts : Operation → Bool
  | .new | .startingAt _ | .clear => true
  | .push _ => false

/-- The word that an operation adds. -/
def word? : Operation → Option Word
  | .startingAt word | .push word => some word
  | .new | .clear => none

/-- The operations from the last one on that begins the history anew, and all of
them if there is none. -/
def sinceRestart : List Operation → List Operation
  | [] => []
  | operation :: later =>
      if later.any restarts then sinceRestart later else operation :: later

/-- The words added since the history was last begun anew. -/
def latestWords (operations : List Operation) : List Word :=
  (sinceRestart operations).filterMap word?

theorem sinceRestart_of_none {operations : List Operation}
    (continues : operations.any restarts = false) : sinceRestart operations = operations := by
  cases operations with
  | nil => rfl
  | cons operation later =>
      have laterContinues : later.any restarts = false := by
        rw [List.any_cons, Bool.or_eq_false_iff] at continues
        exact continues.2
      simp [sinceRestart, laterContinues]

/-- The first operation counts unless a later one begins the history anew. -/
theorem latestWords_cons (operation : Operation) (later : List Operation) :
    latestWords (operation :: later) =
      (if later.any restarts then [] else operation.word?.toList) ++ latestWords later := by
  cases continues : later.any restarts with
  | true => simp [latestWords, sinceRestart, continues]
  | false =>
      rw [latestWords, latestWords, sinceRestart_of_none continues]
      cases added : operation.word? <;> simp [sinceRestart, continues, added]

end Operation

open Operation (latestWords)

/-- The history after a list of operations. -/
def after (history : History) : List Operation → History
  | [] => history
  | operation :: rest => (history.perform operation).2.after rest

/-- What the operations of a list answer. -/
def answers (history : History) : List Operation → List (Option Nat)
  | [] => []
  | operation :: rest =>
      (history.perform operation).1 :: (history.perform operation).2.answers rest

theorem after_append (history : History) (first second : List Operation) :
    history.after (first ++ second) = (history.after first).after second := by
  induction first generalizing history with
  | nil => rfl
  | cons operation rest inductionHypothesis =>
      exact inductionHypothesis (history.perform operation).2

theorem answers_append (history : History) (first second : List Operation) :
    history.answers (first ++ second) =
      history.answers first ++ (history.after first).answers second := by
  induction first generalizing history with
  | nil => rfl
  | cons operation rest inductionHypothesis =>
      exact congrArg _ (inductionHypothesis (history.perform operation).2)

theorem length_answers (history : History) (operations : List Operation) :
    (history.answers operations).length = operations.length := by
  induction operations generalizing history with
  | nil => rfl
  | cons operation rest inductionHypothesis =>
      exact congrArg Nat.succ (inductionHypothesis (history.perform operation).2)

/-! ## The visits -/

/-- An operation keeps the visits or drops them, and adds its word. -/
theorem toList_perform (history : History) (operation : Operation) :
    (history.perform operation).2.toList =
      (if operation.restarts then [] else history.toList) ++ operation.word?.toList := by
  cases operation with
  | new => rfl
  | startingAt word => exact toList_startingAt word
  | push word => exact toList_push history word
  | clear => rfl

/-- Operations keep the visits unless one of them begins the history anew, and
add their latest words. -/
theorem toList_after (history : History) (operations : List Operation) :
    (history.after operations).toList =
      (if operations.any Operation.restarts then [] else history.toList) ++
        latestWords operations := by
  induction operations generalizing history with
  | nil => exact (List.append_nil _).symm
  | cons operation later inductionHypothesis =>
      rw [after, inductionHypothesis, toList_perform, Operation.latestWords_cons, List.any_cons]
      cases later.any Operation.restarts <;> simp

theorem toList_after_empty (operations : List Operation) :
    (empty.after operations).toList = latestWords operations := by
  rw [toList_after, toList_empty, ite_self, List.nil_append]

/-- A push answers the number of visits before it. -/
theorem getElem?_answers_push (history : History) (before later : List Operation)
    (word : Word) :
    (history.answers (before ++ .push word :: later))[before.length]? =
      some (some (history.after before).toList.length) := by
  rw [answers_append, ← length_answers history before, List.getElem?_append_right le_rfl,
    Nat.sub_self, ← size_eq_length]
  rfl

/-! ## The index -/

/-- Pushes do not change the first visit to a word. -/
theorem firstVisit?_after_pushes {history : History} {word : Word} {step : Nat}
    (visited : history.firstVisit? word = some step) (pushed : List Word) :
    (history.after (pushed.map .push)).firstVisit? word = some step := by
  induction pushed generalizing history with
  | nil => exact visited
  | cons added rest inductionHypothesis =>
      exact inductionHypothesis (firstVisit?_push_of_eq_some visited added)

/-- Whatever is asked of the history, it answers as a list of words does. -/
structure Shows (history : History) (words : List Word) : Prop where
  size : history.size = words.length
  isEmpty : history.isEmpty = words.isEmpty
  toList : history.toList = words
  get : ∀ step, history.get? step = words[step]?
  last : history.last? = words.getLast?
  contains : ∀ word, history.contains word = true ↔ word ∈ words
  /-- The index finds the least number of a word. -/
  first : ∀ word step, history.firstVisit? word = some step ↔
    IsLeast {number | words[number]? = some word} step
  /-- The index finds nothing only for words that are not in the list. -/
  absent : ∀ word, history.firstVisit? word = none ↔ word ∉ words

theorem shows_toList (history : History) : history.Shows history.toList where
  size := history.size_eq_length
  isEmpty := Array.isEmpty_toList.symm
  toList := rfl
  get := history.get?_eq_getElem?
  last := history.last?_eq_getLast?
  contains _ := contains_iff_mem
  first word step := by
    simp only [← get?_eq_getElem?]
    exact firstVisit?_eq_some_iff
  absent _ := firstVisit?_eq_none_iff

/-- After any operations a history shows the words added since it was last begun
anew.  Each push has answered how many these were before it, and pushing on does
not change the first visit to any of them. -/
theorem after_shows_latestWords (operations : List Operation) :
    (empty.after operations).Shows (latestWords operations) ∧
    (∀ before word later, operations = before ++ .push word :: later →
      (empty.answers operations)[before.length]? =
        some (some (latestWords before).length)) ∧
    (∀ word ∈ latestWords operations, ∀ pushed : List Word,
      (empty.after (operations ++ pushed.map .push)).firstVisit? word =
        (empty.after operations).firstVisit? word) := by
  refine ⟨?_, ?_, ?_⟩
  · rw [← toList_after_empty]
    exact shows_toList (empty.after operations)
  · rintro before word later rfl
    rw [getElem?_answers_push, toList_after_empty]
  · intro word added pushed
    rw [← toList_after_empty, ← exists_firstVisit?_iff] at added
    rcases added with ⟨step, visited⟩
    rw [after_append, visited]
    exact firstVisit?_after_pushes visited pushed

/-- A history that was cleared and used again.  Both words were in it before, and
were numbered the other way round. -/
theorem after_shows_latestWords_cleared :
    latestWords [.startingAt ['a'], .push ['b'], .clear, .push ['b'], .push ['a'], .push ['b']] =
      [['b'], ['a'], ['b']] ∧
    (empty.after [.startingAt ['a'], .push ['b'], .clear, .push ['b'], .push ['a'],
      .push ['b']]).Shows [['b'], ['a'], ['b']] ∧
    (empty.answers [.startingAt ['a'], .push ['b'], .clear, .push ['b'], .push ['a'],
      .push ['b']])[5]? = some (some 2) ∧
    (empty.after [.startingAt ['a'], .push ['b'], .clear, .push ['b'], .push ['a'],
      .push ['b'], .push ['a']]).firstVisit? ['a'] = some 1 := by
  obtain ⟨shows, answered, kept⟩ := after_shows_latestWords
    [.startingAt ['a'], .push ['b'], .clear, .push ['b'], .push ['a'], .push ['b']]
  refine ⟨by decide, shows, ?_, ?_⟩
  · exact answered [.startingAt ['a'], .push ['b'], .clear, .push ['b'], .push ['a']] ['b'] [] rfl
  · exact (kept ['a'] (by decide) [['a']]).trans (by decide)

end MarkovAlgorithm.History
