import MarkovAlgorithm.Run

/-!
# Data values

The values in which rules, machines and reports are exchanged: null, truth
values, numbers, texts, lists, and records of named fields.  A number written
with a fraction or an exponent is kept apart from the integers, whatever its
value, because nothing here is described by one.

Two shapes are read from such values.  A structure with named parts is either
a record of them, with other fields ignored, or the list of exactly these
parts in order.  A choice between variants is a text with the variant's name,
or a record of one field that has this name and holds the variant's data.

The data form of each type is written by `toData` and read by `ofData?`.
Writing makes one form of a value; reading accepts every spelling of it.

Step counts are numbers of 64 bits and speeds numbers of 32 bits; reading
refuses larger ones and checks nothing else, so a speed outside the supported
range is read as it stands.
-/

namespace MarkovAlgorithm

namespace Data

/-- A data value. -/
inductive Value where
  | null
  | truth (value : Bool)
  | integer (value : Int)
  | decimal (literal : String)
  | text (value : String)
  | list (items : List Value)
  | record (fields : List (String × Value))
  deriving Inhabited

/-- A reader of the parts of a structure, one after the other.  What it leaves are the
parts that were not read yet. -/
abbrev PartsReader (α : Type) := StateT (List (Option Value)) Option α

namespace PartsReader

/-- Read the next part, given or not. -/
def part {α : Type} (read : Option Value → Option α) : PartsReader α
  | [] => none
  | value :: rest => (read value).map fun result => (result, rest)

/-- Read the next part, which must be given. -/
abbrev needed {α : Type} (read : Value → Option α) : PartsReader α :=
  part fun value => value.bind read

end PartsReader

namespace Value

/-- The text that spells a word. -/
def ofWord (word : Word) : Value :=
  .text (String.ofList word)

/-- A natural number as an integer. -/
def ofNat (number : Nat) : Value :=
  .integer number

/-- Read a truth value. -/
def truth? : Value → Option Bool
  | .truth value => some value
  | _ => none

/-- Read a word. -/
def word? : Value → Option Word
  | .text value => some value.toList
  | _ => none

/-- Read a natural number below a bound. -/
def natural? (bound : Nat) : Value → Option Nat
  | .integer (.ofNat value) => if value < bound then some value else none
  | _ => none

/-- Read a list. -/
def items? : Value → Option (List Value)
  | .list items => some items
  | _ => none

/-- Read each item of a list. -/
def each? {α : Type} (read : Value → Option α) (value : Value) : Option (List α) :=
  value.items?.bind fun items => items.mapM read

/-- The named parts of a structure.  A record may lack some of them. -/
def parts? (names : List String) : Value → Option (List (Option Value))
  | .record fields => some (names.map fun name => fields.lookup name)
  | .list items => if items.length = names.length then some (items.map some) else none
  | _ => none

/-- Read a structure with named parts from its parts in order. -/
def structure? {α : Type} (names : List String) (reader : PartsReader α) (value : Value) :
    Option α :=
  (value.parts? names).bind reader.run'

/-- Read a variant without data from a table of their names. -/
def plainVariant? {α : Type} (table : List (String × α)) : Value → Option α
  | .text name => table.lookup name
  | .record [(name, .null)] => table.lookup name
  | _ => none

/-- The data of the variant with a given name. -/
def variantData? (name : String) : Value → Option Value
  | .record [(given, data)] => if given = name then some data else none
  | _ => none

/-- A variant with data. -/
def ofVariant (name : String) (data : Value) : Value :=
  .record [(name, data)]

end Value

end Data

/-! ## Data forms -/

open Data
open Data.PartsReader (part needed)

/-- Step counts are smaller than this. -/
def countBound : Nat := Nat.pow 2 64

/-- Speeds in data forms are smaller than this. -/
def speedBound : Nat := Nat.pow 2 32

namespace Rule

/-- The data form of a rule. -/
def toData (rule : Rule) : Value :=
  .record
    [("is_terminating", .truth rule.terminal),
      ("left", .ofWord rule.pattern),
      ("right", .ofWord rule.replacement)]

/-- Read a rule from a data form. -/
def ofData? (value : Value) : Option Rule :=
  value.structure? ["is_terminating", "left", "right"] do
    let terminal ← needed Value.truth?
    let pattern ← needed Value.word?
    let replacement ← needed Value.word?
    return ⟨pattern, replacement, terminal⟩

end Rule

namespace Machine

/-- The data form of a machine. -/
def toData (machine : Machine) : Value :=
  .record
    [("rules", .list (machine.rules.map Rule.toData)),
      ("initial_state", .ofWord machine.start),
      ("state", .ofWord machine.word),
      ("terminated", .truth machine.halted)]

/-- Read a machine from a data form. -/
def ofData? (value : Value) : Option Machine :=
  value.structure? ["rules", "initial_state", "state", "terminated"] do
    let rules ← needed (Value.each? Rule.ofData?)
    let start ← needed Value.word?
    let word ← needed Value.word?
    let halted ← needed Value.truth?
    return ⟨rules, start, word, halted⟩

end Machine

namespace Settings

/-- Read a step limit.  No limit is written as null or left out. -/
def limitOfData? : Option Value → Option (Option Nat)
  | none => some none
  | some .null => some none
  | some value => (value.natural? countBound).map some

/-- The data form of a step limit. -/
def limitToData : Option Nat → Value
  | none => .null
  | some limit => .ofNat limit

/-- The data form of settings. -/
def toData (settings : Settings) : Value :=
  .record
    [("max_steps", limitToData settings.stepLimit),
      ("detect_cycles", .truth settings.detectCycles),
      ("speed", .ofNat settings.speed)]

/-- Read settings from a data form. -/
def ofData? (value : Value) : Option Settings :=
  value.structure? ["max_steps", "detect_cycles", "speed"] do
    let stepLimit ← part limitOfData?
    let detectCycles ← needed Value.truth?
    let speed ← needed (Value.natural? speedBound)
    return ⟨stepLimit, detectCycles, speed⟩

end Settings

namespace Cycle

/-- The data form of a repetition. -/
def toData (cycle : Cycle) : Value :=
  .record
    [("state", .ofWord cycle.word),
      ("step", .ofNat cycle.step),
      ("previous_step", .ofNat cycle.previousStep)]

/-- Read a repetition from a data form. -/
def ofData? (value : Value) : Option Cycle :=
  value.structure? ["state", "step", "previous_step"] do
    let word ← needed Value.word?
    let step ← needed (Value.natural? countBound)
    let previousStep ← needed (Value.natural? countBound)
    return ⟨word, step, previousStep⟩

end Cycle

namespace Event

/-- The data form of an event. -/
def toData : Event → Value
  | .moved => .text "Moved"
  | .terminated => .text "Terminated"
  | .halted => .text "Halted"
  | .idle => .text "Idle"
  | .cycle repeated => .ofVariant "Cycle" repeated.toData

/-- The events without data, by name. -/
def plain : List (String × Event) :=
  [("Moved", .moved), ("Terminated", .terminated), ("Halted", .halted), ("Idle", .idle)]

/-- Read an event from a data form. -/
def ofData? (value : Value) : Option Event :=
  match value.variantData? "Cycle" with
  | some data => (Cycle.ofData? data).map .cycle
  | none => value.plainVariant? plain

end Event

namespace Outcome

/-- The data form of an outcome. -/
def toData : Outcome → Value
  | .terminated => .text "Terminated"
  | .halted => .text "Halted"
  | .alreadyTerminated => .text "AlreadyTerminated"
  | .cycle repeated => .ofVariant "Cycle" repeated.toData
  | .stepLimit steps => .ofVariant "StepLimit" (.ofNat steps)

/-- The outcomes without data, by name. -/
def plain : List (String × Outcome) :=
  [("Terminated", .terminated), ("Halted", .halted), ("AlreadyTerminated", .alreadyTerminated)]

/-- Read an outcome from a data form. -/
def ofData? (value : Value) : Option Outcome :=
  match value.variantData? "Cycle" with
  | some data => (Cycle.ofData? data).map .cycle
  | none =>
      match value.variantData? "StepLimit" with
      | some data => (data.natural? countBound).map .stepLimit
      | none => value.plainVariant? plain

end Outcome

end MarkovAlgorithm
