import MarkovAlgorithm.Word
import Std.Data.TreeMap.Lemmas

/-!
# The history of a computation

A history records the words that a computation has visited, in order, and
knows for each of them the first visit.  The visits are numbered from zero.

A history is a list of words: `visits` is that list, and `firstVisits` is an
index into it, kept so that a repeated word is recognised without a search.
The field `indexed` ties the two together, so an index entry can neither be
missing nor point at a later visit.

The index is ordered by a fingerprint of the word before the word itself.
Long words with a common beginning are then told apart at once.  The order of
the fingerprints means nothing, and words that share one are still compared.

The operations on a history are also given as data, so that all that is done to
one is a list of them.  Only a push has an answer, the number of the visit.
-/

namespace MarkovAlgorithm

/-- A number that is quick to compute and mostly different for different
words.  Its arithmetic wraps around. -/
def fingerprint (word : Word) : UInt64 :=
  word.foldl (fun value character => 31 * value + character.val.toUInt64) 7

/-- The place of a word in the order of an index. -/
def indexKey (word : Word) : UInt64 × Word :=
  (fingerprint word, word)

/-- A map from words to numbers. -/
abbrev WordIndex := Std.TreeMap (UInt64 × Word) Nat lexOrd.compare

/-- The visited words, with the first visit of each. -/
structure History where
  visits : Array Word
  firstVisits : WordIndex
  indexed : ∀ word, firstVisits[indexKey word]? = visits.toList.idxOf? word

namespace History

/-- No visits. -/
def empty : History where
  visits := #[]
  firstVisits := ∅
  indexed := by simp

/-- The visits in order. -/
def toList (history : History) : List Word :=
  history.visits.toList

/-- The number of visits. -/
def size (history : History) : Nat :=
  history.visits.size

/-- Whether nothing was visited. -/
def isEmpty (history : History) : Bool :=
  history.visits.isEmpty

/-- The latest visit. -/
def last? (history : History) : Option Word :=
  history.visits.back?

/-- The visit of a given number. -/
def get? (history : History) (step : Nat) : Option Word :=
  history.visits[step]?

/-- The number of the first visit to a word. -/
def firstVisit? (history : History) (word : Word) : Option Nat :=
  history.firstVisits[indexKey word]?

/-- Whether a word was visited. -/
def contains (history : History) (word : Word) : Bool :=
  history.firstVisits.contains (indexKey word)

private theorem idxOf?_append_singleton (words : List Word) (added word : Word) :
    (words ++ [added]).idxOf? word =
      (words.idxOf? word).or (if added = word then some words.length else none) := by
  induction words with
  | nil =>
      by_cases equal : added = word <;> simp [List.idxOf?, List.findIdx?_cons, equal]
  | cons first rest ih =>
      simp only [List.idxOf?, List.cons_append, List.findIdx?_cons] at ih ⊢
      by_cases equal : first = word
      · simp [equal]
      · simp only [beq_iff_eq, equal, if_false, ih]
        cases List.findIdx? (· == word) rest with
        | none => by_cases last : added = word <;> simp [last]
        | some found => simp

/-- Different words have different places. -/
private theorem compare_indexKey_eq_iff (first second : Word) :
    lexOrd.compare (indexKey first) (indexKey second) = .eq ↔ first = second := by
  constructor
  · intro equal
    exact congrArg Prod.snd (Std.LawfulEqCmp.eq_of_compare equal)
  · rintro rfl
    exact Std.ReflCmp.compare_self

/-- Recording a visit at the end keeps the index of first visits. -/
private theorem indexed_push {visits : Array Word} {firstVisits : WordIndex}
    (indexed : ∀ word, firstVisits[indexKey word]? = visits.toList.idxOf? word)
    (added word : Word) :
    (firstVisits.insertIfNew (indexKey added) visits.size)[indexKey word]? =
      (visits.push added).toList.idxOf? word := by
  rw [Std.TreeMap.getElem?_insertIfNew, Array.toList_push, idxOf?_append_singleton, ← indexed]
  simp only [compare_indexKey_eq_iff]
  by_cases equal : added = word
  · subst equal
    cases found : firstVisits[indexKey added]? with
    | none =>
        have absent : indexKey added ∉ firstVisits := by
          rw [Std.TreeMap.mem_iff_isSome_getElem?, found]
          simp
        simp [absent]
    | some number =>
        have present : indexKey added ∈ firstVisits := by
          rw [Std.TreeMap.mem_iff_isSome_getElem?, found]
          simp
        simp [present]
  · simp [equal]

/-- Record a visit.  Its number is the size of the history before. -/
def push : History → Word → History
  | ⟨visits, firstVisits, indexed⟩, word =>
      let number := visits.size
      { visits := visits.push word
        firstVisits := firstVisits.insertIfNew (indexKey word) number
        indexed := indexed_push indexed word }

/-- Record a visit and tell its number. -/
def record (history : History) (word : Word) : Nat × History :=
  (history.size, history.push word)

/-- The history that begins at a word. -/
def startingAt (word : Word) : History :=
  empty.push word

/-- Forget every visit. -/
def clear (_ : History) : History :=
  empty

/-- One line for each visit: its number, a colon and the word. -/
def render (history : History) : Word :=
  (history.toList.zipIdx.map fun (word, step) =>
    Text.decimal step ++ ": ".toList ++ word ++ ['\n']).flatten

@[simp]
theorem toList_empty : empty.toList = [] :=
  rfl

@[simp]
theorem toList_push (history : History) (word : Word) :
    (history.push word).toList = history.toList ++ [word] := by
  simp [push, toList]

@[simp]
theorem toList_startingAt (word : Word) : (startingAt word).toList = [word] := by
  simp [startingAt]

@[simp]
theorem size_eq_length (history : History) : history.size = history.toList.length := by
  simp [size, toList]

/-- The index finds the least number of a visit. -/
theorem firstVisit?_eq_idxOf? (history : History) (word : Word) :
    history.firstVisit? word = history.toList.idxOf? word :=
  history.indexed word

/-! ## Operations -/

/-- What can be done to a history. -/
inductive Operation where
  | new
  | startingAt (word : Word)
  | push (word : Word)
  | clear
  deriving DecidableEq

/-- Carry out one operation. -/
def perform (history : History) : Operation → Option Nat × History
  | .new => (none, empty)
  | .startingAt word => (none, startingAt word)
  | .push word =>
      let (number, next) := history.record word
      (some number, next)
  | .clear => (none, history.clear)

end History

end MarkovAlgorithm
