import Mathlib.Order.Bounds.Basic
import MarkovAlgorithm.Proofs.Text.Encoding

/-!
# Rewriting bytes

A rule can be applied to the bytes of a word.  The bytes of its pattern are
searched for, and what stands before and behind them is copied around the bytes
of the replacement.  Two things could go wrong on the way: a cut could fall
inside a character, and the room for the result is reckoned by a subtraction.

`Rule.rewriteBytes` keeps both as faults.  Neither occurs on the bytes of a word,
and the result is the bytes of the word that the rule gives; they fill the room
exactly.
-/

namespace MarkovAlgorithm

open Text (encoded BetweenCharacters isBoundary)

/-- Why bytes cannot be rewritten. -/
inductive ByteFault where
  | insideCharacter (offset : Nat)
  | patternTooLong
  deriving DecidableEq

/-- Bytes, and the room that was made for them. -/
structure Buffer where
  room : Nat
  bytes : List UInt8
  deriving DecidableEq

namespace Text

/-- The least offset at which a pattern of bytes occurs. -/
def firstOffset? (pattern bytes : List UInt8) : Option Nat :=
  (leftmostSplit pattern bytes).map fun (before, _) => before.length

/-- The bytes in front of an offset. -/
def bytesBefore (bytes : List UInt8) (offset : Nat) : Except ByteFault (List UInt8) :=
  if isBoundary bytes offset then .ok (bytes.take offset) else .error (.insideCharacter offset)

/-- The bytes from an offset on. -/
def bytesFrom (bytes : List UInt8) (offset : Nat) : Except ByteFault (List UInt8) :=
  if isBoundary bytes offset then .ok (bytes.drop offset) else .error (.insideCharacter offset)

/-- The room for bytes with a pattern taken out and a replacement put in. -/
def roomFor (bytes pattern replacement : List UInt8) : Except ByteFault Nat :=
  if pattern.length ≤ bytes.length then
    .ok (bytes.length - pattern.length + replacement.length)
  else
    .error .patternTooLong

end Text

/-- Apply the rule to bytes.  If it does not apply there is no result. -/
def Rule.rewriteBytes (rule : Rule) (bytes : List UInt8) : Except ByteFault (Option Buffer) :=
  let pattern := encoded rule.pattern
  let replacement := encoded rule.replacement
  if pattern.isEmpty then
    .ok (some ⟨replacement.length + bytes.length, replacement ++ bytes⟩)
  else
    match Text.firstOffset? pattern bytes with
    | none => .ok none
    | some offset => do
        let room ← Text.roomFor bytes pattern replacement
        let before ← Text.bytesBefore bytes offset
        let after ← Text.bytesFrom bytes (offset + pattern.length)
        .ok (some ⟨room, before ++ replacement ++ after⟩)

/-! ## Offsets -/

namespace Text

/-- The part in front of the leftmost occurrence ends at the least offset at which the
pattern begins. -/
theorem isLeast_of_cutsLeftmost {pattern bytes before after : List UInt8}
    (cuts : CutsLeftmost pattern bytes before after) :
    IsLeast {offset | pattern <+: bytes.drop offset} before.length := by
  constructor
  · exact ⟨after, by simp [cuts.occurs]⟩
  · rintro offset ⟨right, occurs⟩
    have otherCut : bytes = bytes.take offset ++ pattern ++ right := by
      rw [List.append_assoc, occurs, List.take_append_drop]
    exact Nat.le_trans (cuts.leftmost _ _ otherCut) (List.length_take_le offset bytes)

theorem firstOffset?_eq_some_iff {pattern bytes : List UInt8} {offset : Nat} :
    firstOffset? pattern bytes = some offset ↔
      IsLeast {other | pattern <+: bytes.drop other} offset := by
  unfold firstOffset?
  rw [Option.map_eq_some_iff]
  constructor
  · rintro ⟨⟨before, after⟩, found, rfl⟩
    exact isLeast_of_cutsLeftmost (leftmostSplit_eq_some_iff.mp found)
  · intro least
    have occurs : pattern <:+: bytes := least.1.isInfix.trans (List.drop_suffix ..).isInfix
    obtain ⟨before, after, cuts⟩ := exists_cutsLeftmost occurs
    have sameOffset := (isLeast_of_cutsLeftmost cuts).unique least
    exact ⟨(before, after), leftmostSplit_eq_some_iff.mpr cuts, sameOffset⟩

/-- The bytes of a pattern are found where the pattern is. -/
theorem firstOffset?_encoded (pattern word : Word) :
    firstOffset? (encoded pattern) (encoded word) =
      (leftmostSplit pattern word).map fun (before, _) => (encoded before).length := by
  rw [firstOffset?, leftmostSplit_encoded, Option.map_map]
  rfl

variable {word front back : Word}

theorem bytesBefore_encoded (wordEq : word = front ++ back) :
    bytesBefore (encoded word) (encoded front).length = .ok (encoded front) := by
  have boundary := isBoundary_encoded_iff.mpr ⟨front, back, wordEq, rfl⟩
  rw [bytesBefore, if_pos boundary, wordEq, encoded_append, List.take_left]

theorem bytesFrom_encoded (wordEq : word = front ++ back) :
    bytesFrom (encoded word) (encoded front).length = .ok (encoded back) := by
  have boundary := isBoundary_encoded_iff.mpr ⟨front, back, wordEq, rfl⟩
  rw [bytesFrom, if_pos boundary, wordEq, encoded_append, List.drop_left]

end Text

/-! ## Rewritten bytes -/

namespace Rule

variable {rule : Rule} {word before after : Word}

theorem length_encoded_rewritten (cuts : CutsLeftmost rule.pattern word before after) :
    (encoded rule.pattern).length ≤ (encoded word).length ∧
      (encoded (before ++ rule.replacement ++ after)).length =
        (encoded word).length - (encoded rule.pattern).length +
          (encoded rule.replacement).length := by
  rw [cuts.occurs]
  simp only [Text.encoded_append, List.length_append]
  omega

/-- Where the pattern occurs, bytes are rewritten as the word is. -/
theorem rewriteBytes_of_cuts (cuts : CutsLeftmost rule.pattern word before after) :
    rule.rewriteBytes (encoded word) =
      .ok (some ⟨(encoded (before ++ rule.replacement ++ after)).length,
        encoded (before ++ rule.replacement ++ after)⟩) := by
  by_cases empty : rule.pattern = []
  · rw [empty] at cuts
    obtain rfl := cuts.before_eq_nil
    have wordEq : word = after := cuts.occurs
    simp [rewriteBytes, empty, wordEq]
  · have found : Text.firstOffset? (encoded rule.pattern) (encoded word) =
        some (encoded before).length := by
      rw [Text.firstOffset?_encoded, leftmostSplit_eq_some_iff.mpr cuts]
      rfl
    obtain ⟨fits, lengthEq⟩ := length_encoded_rewritten cuts
    have room : Text.roomFor (encoded word) (encoded rule.pattern) (encoded rule.replacement) =
        .ok (encoded (before ++ rule.replacement ++ after)).length := by
      rw [Text.roomFor, if_pos fits, lengthEq]
    have front : Text.bytesBefore (encoded word) (encoded before).length = .ok (encoded before) :=
      Text.bytesBefore_encoded (by rw [cuts.occurs, List.append_assoc])
    have back : Text.bytesFrom (encoded word)
        ((encoded before).length + (encoded rule.pattern).length) = .ok (encoded after) := by
      rw [← List.length_append, ← Text.encoded_append]
      exact Text.bytesFrom_encoded cuts.occurs
    have someByte : (encoded rule.pattern).isEmpty = false := by simp [empty]
    simp only [rewriteBytes, someByte, found, room, front, back, Text.encoded_append]
    rfl

/-- Rewriting the bytes of a word never fails, and gives the bytes of the rewritten
word. -/
theorem rewriteBytes_encoded (rule : Rule) (word : Word) :
    rule.rewriteBytes (encoded word) =
      .ok ((rule.fire? word).map fun rewritten =>
        ⟨(encoded rewritten).length, encoded rewritten⟩) := by
  cases fired : rule.fire? word with
  | some rewritten =>
      obtain ⟨before, after, cuts, rfl⟩ := fire?_eq_some_iff.mp fired
      exact rewriteBytes_of_cuts cuts
  | none =>
      have absent : ¬rule.pattern <:+: word := fire?_eq_none_iff.mp fired
      have nonempty : rule.pattern ≠ [] := by
        intro empty
        exact absent (by simp [empty])
      have notFound : Text.firstOffset? (encoded rule.pattern) (encoded word) = none := by
        rw [Text.firstOffset?_encoded, leftmostSplit_eq_none_iff.mpr absent]
        rfl
      have someByte : (encoded rule.pattern).isEmpty = false := by simp [nonempty]
      simp only [rewriteBytes, someByte, notFound]
      rfl

/-- The bytes of a pattern are found in those of a word exactly if the pattern occurs
in the word.  Where they are found first, they begin and end between characters and
within the word, and they are the leftmost occurrence of the pattern.  Rewriting the
bytes therefore never fails; it gives the bytes of the word with that occurrence
replaced, and these fill the room that was made for them. -/
theorem rewriteBytes_agrees_fire (rule : Rule) (word : Word) :
    (∀ offset, Text.firstOffset? (encoded rule.pattern) (encoded word) = some offset ↔
      IsLeast {other | encoded rule.pattern <+: (encoded word).drop other} offset) ∧
    ((∃ offset, Text.firstOffset? (encoded rule.pattern) (encoded word) = some offset) ↔
      rule.pattern <:+: word) ∧
    (∀ offset, Text.firstOffset? (encoded rule.pattern) (encoded word) = some offset →
      offset + (encoded rule.pattern).length ≤ (encoded word).length ∧
      BetweenCharacters word offset ∧
      BetweenCharacters word (offset + (encoded rule.pattern).length) ∧
      ∃ before after, CutsLeftmost rule.pattern word before after ∧
        offset = (encoded before).length ∧
        (encoded (before ++ rule.replacement ++ after)).length =
          (encoded word).length - (encoded rule.pattern).length +
            (encoded rule.replacement).length ∧
        rule.rewriteBytes (encoded word) =
          .ok (some ⟨(encoded (before ++ rule.replacement ++ after)).length,
            encoded (before ++ rule.replacement ++ after)⟩)) ∧
    rule.rewriteBytes (encoded word) =
      .ok ((rule.fire? word).map fun rewritten =>
        ⟨(encoded rewritten).length, encoded rewritten⟩) := by
  refine ⟨fun _ => Text.firstOffset?_eq_some_iff, ?_, ?_, rewriteBytes_encoded rule word⟩
  · rw [← Option.isSome_iff_exists, Text.firstOffset?_encoded, Option.isSome_map,
      isSome_leftmostSplit_iff]
  · intro offset found
    rw [Text.firstOffset?_encoded, Option.map_eq_some_iff] at found
    obtain ⟨⟨before, after⟩, found, rfl⟩ := found
    have cuts := leftmostSplit_eq_some_iff.mp found
    refine ⟨?_, ?_, ?_, before, after, cuts, rfl, (length_encoded_rewritten cuts).2,
      rewriteBytes_of_cuts cuts⟩
    · rw [cuts.occurs]
      simp
    · exact ⟨before, rule.pattern ++ after, by rw [cuts.occurs, List.append_assoc], rfl⟩
    · exact ⟨before ++ rule.pattern, after, cuts.occurs, by simp⟩

/-- The last byte of the pattern also ends the character in front of it. -/
theorem rewriteBytes_agrees_fire_sign :
    Text.firstOffset? (encoded ['¬']) (encoded ['€', '¬', '¬']) = some 3 ∧
    BetweenCharacters ['€', '¬', '¬'] 3 ∧
    rewriteBytes ⟨['¬'], ['𝒫'], false⟩ (encoded ['€', '¬', '¬']) =
      .ok (some ⟨9, encoded ['€', '𝒫', '¬']⟩) := by
  have found : Text.firstOffset? (encoded ['¬']) (encoded ['€', '¬', '¬']) = some 3 := by
    decide
  obtain ⟨_, _, atOffset, agrees⟩ :=
    rewriteBytes_agrees_fire ⟨['¬'], ['𝒫'], false⟩ ['€', '¬', '¬']
  refine ⟨found, (atOffset 3 found).2.1, ?_⟩
  rw [agrees]
  decide

end Rule

end MarkovAlgorithm
