import MarkovAlgorithm.Data
import MarkovAlgorithm.Text.Quoted

/-!
# Objects on a workbench

Rules and machines are values: calling one of their methods makes a new object
and leaves the old one.  A session changes when it is used.
-/

namespace MarkovAlgorithm

/-- The short name of an event. -/
def Event.name : Event → String
  | .moved => "moved"
  | .terminated => "terminated"
  | .halted => "halted"
  | .idle => "idle"
  | .cycle _ => "cycle"

/-- The short name of an outcome. -/
def Outcome.name : Outcome → String
  | .terminated => "terminated"
  | .halted => "halted"
  | .alreadyTerminated => "already_terminated"
  | .cycle _ => "cycle"
  | .stepLimit _ => "step_limit"

/-- A rule described by its written form. -/
def Rule.description (rule : Rule) : Word :=
  "Rule(".toList ++ Text.quoted rule.text ++ ")".toList

/-- A machine described by the number of its rules, its word and its flag. -/
def Machine.description (machine : Machine) : Word :=
  "Markov(rules=".toList ++ Text.decimal machine.rules.length ++
    ", state=".toList ++ Text.quoted machine.word ++
    ", terminated=".toList ++ (if machine.halted then "true" else "false").toList ++
    ")".toList

namespace Workbench

/-- The kinds of objects. -/
inductive Kind where
  | rule
  | machine
  | session
  deriving DecidableEq

/-- The name of a kind. -/
def Kind.name : Kind → String
  | .rule => "Rule"
  | .machine => "Markov"
  | .session => "Session"

/-- The kind of a given name. -/
def Kind.ofName? (name : String) : Option Kind :=
  [Kind.rule, .machine, .session].find? (·.name == name)

/-- An object. -/
inductive Object where
  | rule (rule : Rule)
  | machine (machine : Machine)
  | session (session : Session)

/-- The kind of an object. -/
def Object.kind : Object → Kind
  | .rule _ => .rule
  | .machine _ => .machine
  | .session _ => .session

/-- The description of an object that is a value. -/
def Object.description? : Object → Option Word
  | .rule value => some value.description
  | .machine value => some value.description
  | .session _ => none

/-- The text of an object that is a value: a rule's written form, and a
machine's description. -/
def Object.text? : Object → Option Word
  | .rule value => some value.text
  | .machine value => some value.description
  | .session _ => none

/-- The result of a call. -/
inductive Answer where
  | nothing
  | truth (value : Bool)
  | number (value : Nat)
  | word (value : Word)
  | several (items : List Answer)
  | object (made : Object)

namespace Answer

/-- A word given by a string. -/
def name (text : String) : Answer :=
  .word text.toList

/-- Several words. -/
def words (list : List Word) : Answer :=
  .several (list.map .word)

/-- Something or nothing. -/
def ofOption {α : Type} (answer : α → Answer) : Option α → Answer
  | some value => answer value
  | none => .nothing

mutual

/-- The objects in an answer, from left to right. -/
def objects : Answer → List Object
  | .object made => [made]
  | .several items => objectsIn items
  | _ => []

/-- The objects in several answers, from left to right. -/
def objectsIn : List Answer → List Object
  | [] => []
  | answer :: rest => objects answer ++ objectsIn rest

end

end Answer

/-!
## Arguments of calls

A call gives its arguments by position, by name, or both.  They are bound to
the parameters of the callee before any of them is read, and read in the order
of the parameters before the callee does anything.  So a call with a missing
or unknown argument fails in the same way whatever the other arguments are,
and a faulty argument wins over a faulty program.
-/

open Data

/-- Why a call fails. -/
inductive CallError where
  /-- There is no object or member of that name. -/
  | unknownName
  /-- An argument is missing, superfluous, given twice or of the wrong kind. -/
  | badArgument
  /-- A number is negative or too large. -/
  | outOfRange
  /-- A program or a rule cannot be read. -/
  | badProgram (error : LineError)
  /-- An unlimited run did not end. -/
  | endless
  deriving DecidableEq

/-- The arguments of a call. -/
structure Arguments where
  positional : List Value
  named : List (String × Value)

/-- A parameter of a callee, which may be left out if it is optional. -/
structure Parameter where
  name : String
  optional : Bool

/-- A parameter that must be given. -/
def needed (name : String) : Parameter := ⟨name, false⟩

/-- A parameter that may be left out. -/
def optional (name : String) : Parameter := ⟨name, true⟩

/-- The argument for each parameter, if one is given. -/
def Arguments.bind (arguments : Arguments) (parameters : List Parameter) :
    Except CallError (List (Option Value)) :=
  let later := parameters.drop arguments.positional.length
  if parameters.length < arguments.positional.length then
    .error .badArgument
  else if arguments.named.any fun (name, _) => !later.any (·.name == name) then
    .error .badArgument
  else if later.any fun parameter =>
      !parameter.optional && (arguments.named.lookup parameter.name).isNone then
    .error .badArgument
  else
    .ok (arguments.positional.map some ++
      later.map fun parameter => arguments.named.lookup parameter.name)

/-- Read a text. -/
def readWord (value : Value) : Except CallError Word :=
  match value.word? with
  | some word => .ok word
  | none => .error .badArgument

/-- Read a list of texts. -/
def readWords (value : Value) : Except CallError (List Word) :=
  match value.items? with
  | some items => items.mapM readWord
  | none => .error .badArgument

/-- Read a truth value. -/
def readTruth (value : Value) : Except CallError Bool :=
  match value.truth? with
  | some truth => .ok truth
  | none => .error .badArgument

/-- Read a step limit.  Null stands for none, and truth values count as one
and zero. -/
def readLimit : Value → Except CallError (Option Nat)
  | .null => .ok none
  | .truth value => .ok (some value.toNat)
  | .integer value =>
      match (Value.integer value).natural? countBound with
      | some limit => .ok (some limit)
      | none => .error .outOfRange
  | _ => .error .badArgument

/-- Read an argument that may be left out. -/
def readOr {α : Type} (default : α) (read : Value → Except CallError α) :
    Option Value → Except CallError α
  | some value => read value
  | none => .ok default

/-- The arguments of a callee without parameters. -/
def Arguments.bindNone (arguments : Arguments) : Except CallError Unit :=
  (arguments.bind []).map fun _ => ()

/-- The argument of a callee with one parameter. -/
def Arguments.bindOne {α : Type} (arguments : Arguments) (name : String)
    (read : Value → Except CallError α) : Except CallError α :=
  match arguments.bind [needed name] with
  | .ok [some value] => read value
  | .ok _ => .error .badArgument
  | .error error => .error error

end Workbench

end MarkovAlgorithm
