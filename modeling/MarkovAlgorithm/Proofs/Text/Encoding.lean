import MarkovAlgorithm.Proofs.Word

/-!
# Words as bytes

Words are kept as bytes, one to four for each character.  The first byte of a
character tells itself apart from the others, which continue it; so a byte is
enough to tell whether an offset stands between two characters.

It follows that the bytes of a nonempty pattern occur only where the pattern
itself does: they cannot begin or end inside a character of the word.  The
leftmost occurrence of the bytes is therefore that of the characters.
-/

namespace MarkovAlgorithm.Text

/-- The bytes of a word. -/
def encoded (word : Word) : List UInt8 :=
  word.flatMap String.utf8EncodeChar

/-- The byte continues a character. -/
def continues (byte : UInt8) : Bool :=
  0x80 ≤ byte.toNat && byte.toNat < 0xC0

/-- The offset is that of the end, or of a byte that does not continue a
character. -/
def isBoundary (bytes : List UInt8) (offset : Nat) : Bool :=
  match bytes[offset]? with
  | some byte => !continues byte
  | none => offset == bytes.length

/-- The offset stands between two characters of the word, or at one of its
ends. -/
def BetweenCharacters (word : Word) (offset : Nat) : Prop :=
  ∃ front back, word = front ++ back ∧ offset = (encoded front).length

/-! ## Bytes of words -/

/-- The bytes of a word are those of its string. -/
theorem toByteArray_encoded (word : Word) :
    (encoded word).toByteArray = (String.ofList word).toByteArray := by
  rw [String.toByteArray_ofList]
  rfl

@[simp]
theorem encoded_nil : encoded [] = [] :=
  rfl

@[simp]
theorem encoded_cons (character : Char) (rest : Word) :
    encoded (character :: rest) = String.utf8EncodeChar character ++ encoded rest :=
  List.flatMap_cons

@[simp]
theorem encoded_append (first second : Word) :
    encoded (first ++ second) = encoded first ++ encoded second :=
  List.flatMap_append

@[simp]
theorem encoded_eq_nil_iff {word : Word} : encoded word = [] ↔ word = [] := by
  cases word <;> simp

theorem length_encoded_le {first second : Word} (inFront : first <+: second) :
    (encoded first).length ≤ (encoded second).length := by
  obtain ⟨rest, rfl⟩ := inFront
  simp

/-- Where the bytes of a word come first, the word comes first. -/
theorem prefix_of_encoded_prefix {first second : Word}
    (inFront : encoded first <+: encoded second) : first <+: second := by
  obtain ⟨rest, bytesEq⟩ := inFront
  apply List.isPrefix_of_utf8Encode_append_eq_utf8Encode rest.toByteArray
  rw [← String.toByteArray_ofList, ← String.toByteArray_ofList, ← toByteArray_encoded,
    ← toByteArray_encoded, ← List.toByteArray_append, bytesEq]

/-! ## Characters in bytes -/

/-- A character has one byte that does not continue a character, and that byte
comes first. -/
theorem exists_utf8EncodeChar_eq_cons (character : Char) :
    ∃ first rest, String.utf8EncodeChar character = first :: rest ∧
      continues first = false ∧ ∀ byte ∈ rest, continues byte = true := by
  -- a single byte is below 80, the first of several is at least C0, the others stand between
  fun_cases String.utf8EncodeChar character <;> refine ⟨_, _, rfl, ?_, ?_⟩ <;>
    simp [continues] <;> omega

/-! ## Boundaries -/

theorem isBoundary_append (first second : List UInt8) (offset : Nat) :
    isBoundary (first ++ second) (first.length + offset) = isBoundary second offset := by
  unfold isBoundary
  rw [List.getElem?_append_right (Nat.le_add_right ..), Nat.add_sub_cancel_left]
  cases second[offset]? with
  | some byte => rfl
  | none =>
      rw [Bool.eq_iff_iff, beq_iff_eq, beq_iff_eq, List.length_append, Nat.add_left_cancel_iff]

/-- Of the offsets inside the first character, only that of its first byte is a
boundary. -/
theorem isBoundary_encoded_cons {character : Char} (rest : Word) {offset : Nat}
    (inside : offset < (String.utf8EncodeChar character).length) :
    isBoundary (encoded (character :: rest)) offset = true ↔ offset = 0 := by
  obtain ⟨first, others, bytesEq, begins, othersContinue⟩ := exists_utf8EncodeChar_eq_cons character
  rw [bytesEq] at inside
  rw [encoded_cons, bytesEq, isBoundary, List.getElem?_append_left inside]
  cases offset with
  | zero => simp [begins]
  | succ offset =>
      have isInside : offset < others.length := Nat.lt_of_succ_lt_succ inside
      simp [List.getElem?_eq_getElem isInside, othersContinue _ (List.getElem_mem isInside)]

/-- The bytes of a word begin at a boundary, whatever comes behind them. -/
theorem isBoundary_encoded_append {word : Word} (nonempty : word ≠ []) (bytes : List UInt8) :
    isBoundary (encoded word ++ bytes) 0 = true := by
  cases word with
  | nil => contradiction
  | cons character rest =>
      obtain ⟨first, others, bytesEq, begins, _⟩ := exists_utf8EncodeChar_eq_cons character
      simp [isBoundary, bytesEq, begins]

theorem betweenCharacters_cons_iff {character : Char} {rest : Word} {offset : Nat} :
    BetweenCharacters (character :: rest) offset ↔
      offset = 0 ∨ ∃ further, offset = (String.utf8EncodeChar character).length + further ∧
        BetweenCharacters rest further := by
  constructor
  · rintro ⟨front, back, wordEq, rfl⟩
    cases front with
    | nil => exact .inl rfl
    | cons first front =>
        obtain ⟨rfl, rfl⟩ := List.cons.inj wordEq
        exact .inr ⟨_, by simp, front, back, rfl, rfl⟩
  · rintro (rfl | ⟨_, rfl, front, back, rfl, rfl⟩)
    · exact ⟨[], character :: rest, rfl, rfl⟩
    · exact ⟨character :: front, back, rfl, by simp⟩

/-- The bytes of a word tell where its characters begin and end. -/
theorem isBoundary_encoded_iff {word : Word} {offset : Nat} :
    isBoundary (encoded word) offset = true ↔ BetweenCharacters word offset := by
  induction word generalizing offset with
  | nil => simp [isBoundary, BetweenCharacters]
  | cons character rest inductionHypothesis =>
      rw [betweenCharacters_cons_iff]
      by_cases inside : offset < (String.utf8EncodeChar character).length
      · rw [isBoundary_encoded_cons rest inside, iff_self_or]
        rintro ⟨further, rfl, _⟩
        omega
      · obtain ⟨further, rfl⟩ := Nat.exists_eq_add_of_le (Nat.le_of_not_lt inside)
        have someByte : 0 < (String.utf8EncodeChar character).length :=
          List.length_pos_of_ne_nil String.utf8EncodeChar_ne_nil
        rw [encoded_cons, isBoundary_append, inductionHypothesis]
        constructor
        · intro between
          exact .inr ⟨further, rfl, between⟩
        · rintro (atFront | ⟨other, sameOffset, between⟩)
          · omega
          · rwa [Nat.add_left_cancel sameOffset]

/-! ## Occurrences -/

/-- The bytes of a nonempty pattern occur only where the pattern does. -/
theorem exists_split_of_encoded_eq {pattern word : Word} (nonempty : pattern ≠ [])
    {left right : List UInt8} (bytesEq : encoded word = left ++ encoded pattern ++ right) :
    ∃ before after, word = before ++ pattern ++ after ∧ left = encoded before ∧
      right = encoded after := by
  -- the first byte of the pattern does not continue a character of the word
  have atBoundary : isBoundary (encoded word) left.length = true := by
    rw [bytesEq, List.append_assoc, ← Nat.add_zero left.length, isBoundary_append]
    exact isBoundary_encoded_append nonempty right
  obtain ⟨before, back, rfl, sameLength⟩ := isBoundary_encoded_iff.mp atBoundary
  rw [encoded_append, List.append_assoc] at bytesEq
  obtain ⟨rfl, backEq⟩ := List.append_inj bytesEq sameLength.symm
  obtain ⟨after, rfl⟩ := prefix_of_encoded_prefix ⟨right, backEq.symm⟩
  rw [encoded_append] at backEq
  exact ⟨before, after, (List.append_assoc ..).symm, rfl,
    (List.append_cancel_left backEq).symm⟩

/-- The leftmost occurrence of the bytes is that of the characters. -/
theorem leftmostSplit_encoded (pattern word : Word) :
    leftmostSplit (encoded pattern) (encoded word) =
      (leftmostSplit pattern word).map fun (before, after) => (encoded before, encoded after) := by
  by_cases empty : pattern = []
  · rw [empty]
    simp
  cases found : leftmostSplit pattern word with
  | none =>
      rw [leftmostSplit_eq_none_iff] at found
      rw [Option.map_none, leftmostSplit_eq_none_iff]
      rintro ⟨left, right, bytesEq⟩
      obtain ⟨before, after, wordEq, _⟩ := exists_split_of_encoded_eq empty bytesEq.symm
      exact found ⟨before, after, wordEq.symm⟩
  | some cut =>
      obtain ⟨before, after⟩ := cut
      have cuts := leftmostSplit_eq_some_iff.mp found
      rw [Option.map_some, leftmostSplit_eq_some_iff]
      refine ⟨by simp [cuts.occurs], ?_⟩
      intro left right bytesEq
      obtain ⟨other, otherAfter, wordEq, rfl, _⟩ := exists_split_of_encoded_eq empty bytesEq
      have beforeFirst : before <+: word := ⟨pattern ++ after, by simp [cuts.occurs]⟩
      have otherFirst : other <+: word := ⟨pattern ++ otherAfter, by simp [wordEq]⟩
      exact length_encoded_le
        (List.prefix_of_prefix_length_le beforeFirst otherFirst (cuts.leftmost _ _ wordEq))

end MarkovAlgorithm.Text
