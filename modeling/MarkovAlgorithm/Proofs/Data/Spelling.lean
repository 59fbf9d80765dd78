import Mathlib.Data.List.Nodup
import Mathlib.Logic.Relation
import MarkovAlgorithm.Data

/-!
# Spellings of data

The same thing can be spelled by several data values.  A `Respelling` lists the
single changes that lead from one spelling to another, at any depth: the fields
of a record may be put in another order or joined by unknown ones, a record of
parts may be replaced by the list of them, a part that is null may be left out,
and a variant without data may be a text or a record.

A record stands for a map, so its fields are put in another order only where
their names are distinct.

A reader is insensitive to a respelling if no change makes a difference to what
it has read.  It may well be sensitive in what it refuses: a list of parts is
accepted only at its full length, whatever a record may lack.
-/

namespace MarkovAlgorithm.Data

/-- The changes of spelling that some values admit. -/
abbrev Respelling := Value → Value → Prop

/-- A part of a structure: its name, whether null may be left out, and the
changes that its value admits. -/
structure Part where
  name : String
  optional : Bool
  respelling : Respelling

/-- A part that must be given. -/
def Part.needed (name : String) (respelling : Respelling) : Part :=
  ⟨name, false, respelling⟩

namespace Respelling

/-- Values with one spelling. -/
def unique : Respelling :=
  fun _ _ => False

/-- Lists whose items may be respelled. -/
inductive items (item : Respelling) : Respelling where
  | item {before after : List Value} {value other : Value} (change : item value other) :
      items item (.list (before ++ value :: after)) (.list (before ++ other :: after))

/-- Structures with given parts. -/
inductive parts (list : List Part) : Respelling where
  /-- Put the fields in another order. -/
  | permute {fields others : List (String × Value)} (distinct : (fields.map Prod.fst).Nodup)
      (permuted : fields.Perm others) :
      parts list (.record fields) (.record others)
  /-- Add an unknown field. -/
  | extend {before after : List (String × Value)} {name : String} {value : Value}
      (unknown : ∀ part ∈ list, part.name ≠ name) :
      parts list (.record (before ++ after)) (.record (before ++ (name, value) :: after))
  /-- List the parts.  One that was left out is null. -/
  | enumerate {fields : List (String × Value)} {values : List Value}
      (complete : List.Forall₂ (fun part value => fields.lookup part.name = some value ∨
        fields.lookup part.name = none ∧ part.optional = true ∧ value = .null) list values) :
      parts list (.record fields) (.list values)
  /-- Leave out a null. -/
  | leaveOut {before after : List (String × Value)} {name : String}
      (optional : ∀ part ∈ list, part.name = name → part.optional = true)
      (distinct : ∀ field ∈ before ++ after, field.1 ≠ name) :
      parts list (.record (before ++ (name, .null) :: after)) (.record (before ++ after))
  /-- Respell a field as its part admits.  Under an unknown name anything may
  stand. -/
  | field {before after : List (String × Value)} {name : String} {value other : Value}
      (change : ∀ part ∈ list, part.name = name → part.respelling value other) :
      parts list (.record (before ++ (name, value) :: after))
        (.record (before ++ (name, other) :: after))
  /-- Respell one of the listed parts. -/
  | position {before after : List Value} {part : Part} {value other : Value}
      (listed : list[before.length]? = some part) (change : part.respelling value other) :
      parts list (.list (before ++ value :: after)) (.list (before ++ other :: after))

/-- Choices between variants, those without data by name, and those with data by
the changes that their data admit. -/
inductive variants (plain : List String) (tagged : List (String × Respelling)) : Respelling where
  /-- Write a variant without data as a record. -/
  | toRecord {name : String} (known : name ∈ plain) :
      variants plain tagged (.text name) (.record [(name, .null)])
  /-- Write a variant without data as a text. -/
  | toText {name : String} (known : name ∈ plain) :
      variants plain tagged (.record [(name, .null)]) (.text name)
  /-- Respell the data. -/
  | data {name : String} {respelling : Respelling} {value other : Value}
      (known : (name, respelling) ∈ tagged) (change : respelling value other) :
      variants plain tagged (.record [(name, value)]) (.record [(name, other)])

end Respelling

/-- A change makes no difference to what was read. -/
def Insensitive {α β : Type} (read : β → Option α) (change : β → β → Prop) : Prop :=
  ∀ ⦃before after : β⦄ ⦃result : α⦄, change before after → read before = some result →
    read after = some result

theorem insensitive_unique {α : Type} (read : Value → Option α) :
    Insensitive read Respelling.unique :=
  fun _ _ _ change _ => change.elim

/-- A sequence of changes makes no difference where a single one makes none. -/
theorem Insensitive.sequence {α β : Type} {read : β → Option α} {change : β → β → Prop}
    (insensitive : Insensitive read change) :
    Insensitive read (Relation.ReflTransGen change) := by
  intro before after result changes readBefore
  induction changes with
  | refl => exact readBefore
  | tail _ last inductionHypothesis => exact insensitive last inductionHypothesis

theorem Insensitive.map {α β γ : Type} {read : β → Option α} {change : β → β → Prop}
    (insensitive : Insensitive read change) (wrap : α → γ) :
    Insensitive (fun value => (read value).map wrap) change := by
  intro before after result changes readBefore
  rcases Option.map_eq_some_iff.mp readBefore with ⟨inner, readInner, rfl⟩
  exact Option.map_eq_some_iff.mpr ⟨inner, insensitive changes readInner, rfl⟩

/-! ## Lists -/

theorem mapM_eq_some_iff {α β : Type} {read : β → Option α} {items : List β}
    {results : List α} :
    items.mapM read = some results ↔ items.map read = results.map some := by
  induction items generalizing results with
  | nil => cases results <;> simp
  | cons item rest inductionHypothesis =>
      rw [List.mapM_cons]
      cases results with
      | nil => simp [Option.bind_eq_some_iff]
      | cons result others => simp [Option.bind_eq_some_iff, ← inductionHypothesis]

/-- Reading a list does not depend on the spelling of its items. -/
theorem insensitive_items {α : Type} {read : Value → Option α} {item : Respelling}
    (insensitive : Insensitive read item) :
    Insensitive (Value.each? read) (Respelling.items item) := by
  rintro _ _ results ⟨change⟩ readBefore
  rename_i before after value other
  change (before ++ value :: after).mapM read = some results at readBefore
  change (before ++ other :: after).mapM read = some results
  rw [mapM_eq_some_iff, List.map_append, List.map_cons] at readBefore ⊢
  have inResults : read value ∈ results.map some := by
    rw [← readBefore]
    simp
  rcases List.mem_map.mp inResults with ⟨result, _, readValue⟩
  rw [insensitive change readValue.symm, readValue, readBefore]

/-! ## Structures -/

/-- The field of a record whose names are distinct is the one that is found. -/
theorem lookup_eq_some_of_mem {fields : List (String × Value)} {name : String} {value : Value}
    (distinct : (fields.map Prod.fst).Nodup) (inFields : (name, value) ∈ fields) :
    fields.lookup name = some value := by
  rcases List.mem_iff_append.mp inFields with ⟨before, after, rfl⟩
  rw [List.lookup_eq_some_iff]
  refine ⟨before, after, rfl, ?_⟩
  intro field inBefore
  rw [bne_iff_ne]
  rintro rfl
  rw [List.map_append, List.map_cons] at distinct
  exact (List.nodup_append.mp distinct).2.2 field.1 (List.mem_map_of_mem inBefore) field.1
    List.mem_cons_self rfl

/-- The order of fields with distinct names does not matter. -/
theorem lookup_eq_of_perm {fields others : List (String × Value)}
    (distinct : (fields.map Prod.fst).Nodup) (permuted : fields.Perm others) (name : String) :
    fields.lookup name = others.lookup name := by
  have othersDistinct : (others.map Prod.fst).Nodup :=
    (permuted.map Prod.fst).nodup_iff.mp distinct
  cases found : fields.lookup name with
  | some value =>
      rcases List.lookup_eq_some_iff.mp found with ⟨before, after, rfl, _⟩
      have inOthers : (name, value) ∈ others := permuted.mem_iff.mp (by simp)
      exact (lookup_eq_some_of_mem othersDistinct inOthers).symm
  | none =>
      rw [List.lookup_eq_none_iff] at found
      symm
      rw [List.lookup_eq_none_iff]
      intro field inOthers
      exact found field (permuted.mem_iff.mpr inOthers)

/-- What a change of spelling may do to a part, present or not. -/
inductive Part.Changes (part : Part) : Option Value → Option Value → Prop where
  | same (value : Option Value) : part.Changes value value
  | respelled {value other : Value} (change : part.respelling value other) :
      part.Changes (some value) (some other)
  | leftOut (optional : part.optional = true) : part.Changes (some .null) none
  | filledIn (optional : part.optional = true) : part.Changes none (some .null)

/-- Changes of the parts one by one. -/
inductive PartsChange : List Part → List (Option Value) → List (Option Value) → Prop where
  | nil : PartsChange [] [] []
  | cons {part : Part} {parts : List Part} {value other : Option Value}
      {values others : List (Option Value)} (first : part.Changes value other)
      (rest : PartsChange parts values others) :
      PartsChange (part :: parts) (value :: values) (other :: others)

theorem partsChange_map {parts : List Part} {before after : Part → Option Value}
    (changes : ∀ part ∈ parts, part.Changes (before part) (after part)) :
    PartsChange parts (parts.map before) (parts.map after) := by
  induction parts with
  | nil => exact .nil
  | cons part rest inductionHypothesis =>
      rcases List.forall_mem_cons.mp changes with ⟨first, others⟩
      exact .cons first (inductionHypothesis others)

theorem partsChange_refl {parts : List Part} {values : List (Option Value)}
    (complete : values.length = parts.length) : PartsChange parts values values := by
  induction parts generalizing values with
  | nil =>
      rcases List.eq_nil_of_length_eq_zero complete with rfl
      exact .nil
  | cons part rest inductionHypothesis =>
      cases values with
      | nil => contradiction
      | cons value others =>
          exact .cons (.same value) (inductionHypothesis (Nat.succ.inj complete))

theorem partsChange_position {parts : List Part} {before after : List Value} {part : Part}
    {value other : Value} (complete : (before ++ value :: after).length = parts.length)
    (listed : parts[before.length]? = some part) (change : part.respelling value other) :
    PartsChange parts ((before ++ value :: after).map some)
      ((before ++ other :: after).map some) := by
  induction before generalizing parts with
  | nil =>
      cases parts with
      | nil => contradiction
      | cons first rest =>
          cases listed
          refine .cons (.respelled change) (partsChange_refl ?_)
          simpa using complete
  | cons value earlier inductionHypothesis =>
      cases parts with
      | nil => contradiction
      | cons first rest =>
          refine .cons (.same _) (inductionHypothesis ?_ listed)
          simpa using complete

/-- The parts that are listed are those of the record. -/
theorem partsChange_enumerate {parts : List Part} {fields : List (String × Value)}
    {values : List Value}
    (complete : List.Forall₂ (fun part value => fields.lookup part.name = some value ∨
      fields.lookup part.name = none ∧ part.optional = true ∧ value = .null) parts values) :
    PartsChange parts (parts.map fun part => fields.lookup part.name) (values.map some) := by
  induction complete with
  | nil => exact .nil
  | @cons part value rest others found _ inductionHypothesis =>
      apply PartsChange.cons _ inductionHypothesis
      change part.Changes (fields.lookup part.name) (some value)
      rcases found with found | ⟨missing, optional, rfl⟩
      · rw [found]
        exact .same _
      · rw [missing]
        exact .filledIn optional

section Lookup

variable {before after : List (String × Value)} {name : String} {value other : Value}

theorem lookup_append_cons_of_ne {key : String} (different : key ≠ name) :
    (before ++ (name, value) :: after).lookup key = (before ++ after).lookup key := by
  have unequal : (key == name) = false := by simpa using different
  rw [List.lookup_append, List.lookup_append, List.lookup_cons, unequal]

/-- A respelled field changes the part of its name at most. -/
theorem changes_lookup_field {part : Part}
    (change : part.name = name → part.respelling value other) :
    part.Changes ((before ++ (name, value) :: after).lookup part.name)
      ((before ++ (name, other) :: after).lookup part.name) := by
  by_cases named : part.name = name
  · rw [List.lookup_append, List.lookup_append]
    cases before.lookup part.name with
    | some earlier => exact .same _
    | none => simpa [List.lookup_cons, named] using .respelled (change named)
  · rw [lookup_append_cons_of_ne named, lookup_append_cons_of_ne named]
    exact .same _

/-- A null that is left out changes the part of its name at most. -/
theorem changes_lookup_leaveOut {part : Part} (optional : part.name = name → part.optional = true)
    (distinct : ∀ field ∈ before ++ after, field.1 ≠ name) :
    part.Changes ((before ++ (name, .null) :: after).lookup part.name)
      ((before ++ after).lookup part.name) := by
  by_cases named : part.name = name
  · have missing : (before ++ after).lookup part.name = none := by
      rw [List.lookup_eq_none_iff]
      intro field inFields
      rw [bne_iff_ne, named]
      exact (distinct field inFields).symm
    have found : (before ++ (name, .null) :: after).lookup part.name = some .null := by
      rw [List.lookup_eq_some_iff]
      refine ⟨before, after, by rw [named], ?_⟩
      intro field inBefore
      rw [bne_iff_ne, named]
      exact (distinct field (List.mem_append_left _ inBefore)).symm
    rw [missing, found]
    exact .leftOut (optional named)
  · rw [lookup_append_cons_of_ne named]
    exact .same _

end Lookup

theorem parts?_record (parts : List Part) (fields : List (String × Value)) :
    (Value.record fields).parts? (parts.map Part.name) =
      some (parts.map fun part => fields.lookup part.name) := by
  simp [Value.parts?]

theorem parts?_list_eq_some_iff {parts : List Part} {items : List Value}
    {values : List (Option Value)} :
    (Value.list items).parts? (parts.map Part.name) = some values ↔
      items.length = parts.length ∧ items.map some = values := by
  simp [Value.parts?]

/-- A change of spelling changes the parts of a structure one by one. -/
theorem parts?_change {parts : List Part} {value other : Value} {values : List (Option Value)}
    (change : Respelling.parts parts value other)
    (found : value.parts? (parts.map Part.name) = some values) :
    ∃ others, other.parts? (parts.map Part.name) = some others ∧
      PartsChange parts values others := by
  -- changes from record to record differ only in what becomes of each part
  have recorded {fields others : List (String × Value)} (isRecord : value = .record fields)
      (changes : ∀ part ∈ parts,
        part.Changes (fields.lookup part.name) (others.lookup part.name)) :
      ∃ rest, (Value.record others).parts? (parts.map Part.name) = some rest ∧
        PartsChange parts values rest := by
    rw [isRecord, parts?_record] at found
    cases found
    exact ⟨_, parts?_record parts others, partsChange_map changes⟩
  cases change with
  | permute distinct permuted =>
      apply recorded rfl
      intro part _
      rw [lookup_eq_of_perm distinct permuted]
      exact .same _
  | extend unknown =>
      apply recorded rfl
      intro part inParts
      rw [lookup_append_cons_of_ne (unknown part inParts)]
      exact .same _
  | enumerate complete =>
      rw [parts?_record] at found
      cases found
      exact ⟨_, parts?_list_eq_some_iff.mpr ⟨complete.length_eq.symm, rfl⟩,
        partsChange_enumerate complete⟩
  | leaveOut optional distinct =>
      apply recorded rfl
      intro part inParts
      exact changes_lookup_leaveOut (optional part inParts) distinct
  | field change =>
      apply recorded rfl
      intro part inParts
      exact changes_lookup_field (change part inParts)
  | position listed change =>
      rcases parts?_list_eq_some_iff.mp found with ⟨complete, rfl⟩
      refine ⟨_, parts?_list_eq_some_iff.mpr ⟨?_, rfl⟩,
        partsChange_position complete listed change⟩
      simpa using complete

/-! ## Reading parts -/

section PartsReader

variable {α β : Type}

theorem structure?_eq_some_iff {names : List String} {reader : PartsReader α} {value : Value}
    {result : α} :
    value.structure? names reader = some result ↔
      ∃ values, value.parts? names = some values ∧ reader.run' values = some result :=
  Option.bind_eq_some_iff

/-- The next part is read before the parts behind it. -/
theorem part_bind_eq_some_iff {read : Option Value → Option β} {next : β → PartsReader α}
    {values : List (Option Value)} {result : α} :
    (PartsReader.part read >>= next).run' values = some result ↔
      ∃ value rest found, values = value :: rest ∧ read value = some found ∧
        (next found).run' rest = some result := by
  cases values with
  | nil => simp [PartsReader.part, StateT.run', bind, StateT.bind]
  | cons value rest =>
      cases isRead : read value <;>
        simp [PartsReader.part, StateT.run', bind, StateT.bind, isRead]

theorem part_bind_eq_some {read : Option Value → Option β} {next : β → PartsReader α}
    {value : Option Value} {rest : List (Option Value)} {found : β} {result : α}
    (readFirst : read value = some found) (readRest : (next found).run' rest = some result) :
    (PartsReader.part read >>= next).run' (value :: rest) = some result :=
  part_bind_eq_some_iff.mpr ⟨value, rest, found, rfl, readFirst, readRest⟩

theorem insensitive_pure {parts : List Part} (result : α) :
    Insensitive (pure result : PartsReader α).run' (PartsChange parts) :=
  fun _ _ _ _ readBefore => readBefore

/-- Parts are read insensitively one after the other. -/
theorem insensitive_part_bind {part : Part} {parts : List Part}
    {read : Option Value → Option β} {next : β → PartsReader α}
    (first : Insensitive read part.Changes)
    (rest : ∀ found, Insensitive (next found).run' (PartsChange parts)) :
    Insensitive (PartsReader.part read >>= next).run' (PartsChange (part :: parts)) := by
  intro before after result changes readBefore
  rcases part_bind_eq_some_iff.mp readBefore with ⟨value, values, found, rfl, readFirst, readRest⟩
  cases changes with
  | cons changesFirst changesRest =>
      exact part_bind_eq_some (first changesFirst readFirst) (rest found changesRest readRest)

theorem insensitive_needed_bind {name : String} {respelling : Respelling} {parts : List Part}
    {read : Value → Option β} {next : β → PartsReader α}
    (first : Insensitive read respelling)
    (rest : ∀ found, Insensitive (next found).run' (PartsChange parts)) :
    Insensitive (PartsReader.needed read >>= next).run'
      (PartsChange (.needed name respelling :: parts)) := by
  apply insensitive_part_bind _ rest
  intro before after found changes readBefore
  cases changes with
  | same _ => exact readBefore
  | respelled change => exact first change readBefore
  | leftOut optional => contradiction
  | filledIn optional => contradiction

theorem insensitive_unique_bind {name : String} {parts : List Part} {read : Value → Option β}
    {next : β → PartsReader α}
    (rest : ∀ found, Insensitive (next found).run' (PartsChange parts)) :
    Insensitive (PartsReader.needed read >>= next).run'
      (PartsChange (.needed name .unique :: parts)) :=
  insensitive_needed_bind (insensitive_unique read) rest

/-- A structure whose parts are read insensitively is itself read insensitively. -/
theorem insensitive_structure? {names : List String} {parts : List Part}
    {reader : PartsReader α} (named : parts.map Part.name = names)
    (insensitive : Insensitive reader.run' (PartsChange parts)) :
    Insensitive (Value.structure? names reader) (Respelling.parts parts) := by
  intro before after result change readBefore
  rcases structure?_eq_some_iff.mp readBefore with ⟨values, found, readValues⟩
  rw [← named] at found
  rcases parts?_change change found with ⟨others, foundOthers, changes⟩
  rw [named] at foundOthers
  exact structure?_eq_some_iff.mpr ⟨others, foundOthers, insensitive changes readValues⟩

end PartsReader

/-! ## Variants -/

/-- Reading a choice does not depend on its spelling if the text and the record
of a variant without data are read alike, and the data of the other variants are
read insensitively. -/
theorem insensitive_variants {α : Type} {read : Value → Option α} {plain : List String}
    {tagged : List (String × Respelling)}
    (alike : ∀ name ∈ plain, read (.record [(name, .null)]) = read (.text name))
    (insensitive : ∀ variant ∈ tagged,
      Insensitive (fun data => read (.ofVariant variant.1 data)) variant.2) :
    Insensitive read (Respelling.variants plain tagged) := by
  intro value other result change readValue
  cases change with
  | toRecord known => rw [alike _ known, readValue]
  | toText known => rw [← alike _ known, readValue]
  | data known change => exact insensitive _ known change readValue

theorem mem_of_plainVariant?_eq_some {α : Type} {table : List (String × α)} {value : Value}
    {result : α} (isRead : value.plainVariant? table = some result) :
    result ∈ table.map Prod.snd := by
  have inTable {name : String} (found : table.lookup name = some result) :
      result ∈ table.map Prod.snd := by
    rcases List.lookup_eq_some_iff.mp found with ⟨before, after, rfl, _⟩
    simp
  unfold Value.plainVariant? at isRead
  split at isRead
  · exact inTable isRead
  · exact inTable isRead
  · contradiction

end MarkovAlgorithm.Data
