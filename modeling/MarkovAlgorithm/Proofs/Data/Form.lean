import Mathlib.Tactic.FinCases
import MarkovAlgorithm.Data
import MarkovAlgorithm.Proofs.Data.Spelling

/-!
# Reading what was written

Each type with a data form is written in one way and read in many.  What was
written is read back, and no respelling makes a difference to what is read.

Only numbers that are too large cannot be read back.  Nothing that was read
holds such a number, so writing what was read and reading it again changes
nothing, however it was spelled at first.
-/

namespace MarkovAlgorithm

namespace Data

/-- How the values of a type are written and read, which of them can be written,
and which changes of spelling their written forms admit. -/
structure Form (α : Type) where
  write : α → Value
  read : Value → Option α
  Writable : α → Prop
  respelling : Respelling

/-- Reading undoes writing and does not depend on the spelling. -/
structure Form.Faithful {α : Type} (form : Form α) : Prop where
  read_write : ∀ value, form.Writable value → form.read (form.write value) = some value
  write_injective : ∀ first second, form.Writable first → form.Writable second →
    form.write first = form.write second → first = second
  /-- No sequence of respellings makes a difference. -/
  respelled : ∀ data other value, Relation.ReflTransGen form.respelling data other →
    form.read data = some value → form.read other = some value
  /-- What was read is read again when it is written. -/
  rewritten : ∀ data value, form.read data = some value →
    form.Writable value ∧ form.read (form.write value) = some value

/-- Writing and reading agree if what is written is read back, each change by
itself makes no difference, and only writable values are read. -/
theorem Form.faithful_of {α : Type} {form : Form α}
    (readWrite : ∀ value, form.Writable value → form.read (form.write value) = some value)
    (insensitive : Insensitive form.read form.respelling)
    (writable : ∀ {data value}, form.read data = some value → form.Writable value) :
    form.Faithful where
  read_write := readWrite
  write_injective := by
    intro first second firstWritable secondWritable sameData
    have firstRead := readWrite first firstWritable
    rw [sameData, readWrite second secondWritable] at firstRead
    exact (Option.some.inj firstRead).symm
  respelled := insensitive.sequence
  rewritten _ _ isRead := ⟨writable isRead, readWrite _ (writable isRead)⟩

/-! ## Simple values -/

namespace Value

@[simp]
theorem word?_ofWord (word : Word) : (ofWord word).word? = some word := by
  simp [ofWord, word?]

theorem natural?_ofNat_of_lt {bound number : Nat} (small : number < bound) :
    (ofNat number).natural? bound = some number := by
  simp [ofNat, natural?, small]

theorem lt_of_natural?_eq_some {bound number : Nat} {value : Value}
    (isRead : value.natural? bound = some number) : number < bound := by
  unfold natural? at isRead
  split at isRead
  · split at isRead
    · rename_i small
      cases isRead
      exact small
    · contradiction
  · contradiction

end Value

end Data

open Data

/-! ## Rules -/

namespace Rule

/-- The form of rules. -/
def form : Form Rule where
  write := toData
  read := ofData?
  Writable _ := True
  respelling := .parts
    [.needed "is_terminating" .unique, .needed "left" .unique, .needed "right" .unique]

theorem ofData?_toData (rule : Rule) : ofData? rule.toData = some rule := by
  apply structure?_eq_some_iff.mpr
  exact ⟨_, rfl, part_bind_eq_some rfl <| part_bind_eq_some (Value.word?_ofWord rule.pattern) <|
    part_bind_eq_some (Value.word?_ofWord rule.replacement) rfl⟩

theorem insensitive_ofData? : Insensitive ofData? form.respelling := by
  apply insensitive_structure? rfl
  exact insensitive_unique_bind fun _ => insensitive_unique_bind fun _ =>
    insensitive_unique_bind fun _ => insensitive_pure _

theorem faithful_form : form.Faithful :=
  Form.faithful_of (fun rule _ => ofData?_toData rule) insensitive_ofData? fun _ => trivial

end Rule

/-! ## Machines -/

namespace Machine

/-- The form of machines. -/
def form : Form Machine where
  write := toData
  read := ofData?
  Writable _ := True
  respelling := .parts
    [.needed "rules" (.items Rule.form.respelling), .needed "initial_state" .unique,
      .needed "state" .unique, .needed "terminated" .unique]

theorem ofData?_toData (machine : Machine) : ofData? machine.toData = some machine := by
  have rules : Value.each? Rule.ofData? (.list (machine.rules.map Rule.toData)) =
      some machine.rules := by
    change (machine.rules.map Rule.toData).mapM Rule.ofData? = some machine.rules
    rw [mapM_eq_some_iff, List.map_map]
    exact List.map_congr_left fun rule _ => Rule.ofData?_toData rule
  apply structure?_eq_some_iff.mpr
  exact ⟨_, rfl, part_bind_eq_some rules <| part_bind_eq_some (Value.word?_ofWord machine.start) <|
    part_bind_eq_some (Value.word?_ofWord machine.word) <| part_bind_eq_some rfl rfl⟩

theorem insensitive_ofData? : Insensitive ofData? form.respelling := by
  apply insensitive_structure? rfl
  exact insensitive_needed_bind (insensitive_items Rule.insensitive_ofData?) fun _ =>
    insensitive_unique_bind fun _ => insensitive_unique_bind fun _ =>
      insensitive_unique_bind fun _ => insensitive_pure _

theorem faithful_form : form.Faithful :=
  Form.faithful_of (fun machine _ => ofData?_toData machine) insensitive_ofData? fun _ => trivial

end Machine

/-! ## Settings -/

namespace Settings

/-- The step limit and the speed are in range. -/
def Writable (settings : Settings) : Prop :=
  (∀ limit ∈ settings.stepLimit, limit < countBound) ∧ settings.speed < speedBound

/-- The form of settings. -/
def form : Form Settings where
  write := toData
  read := ofData?
  Writable := Writable
  respelling := .parts
    [⟨"max_steps", true, .unique⟩, .needed "detect_cycles" .unique, .needed "speed" .unique]

theorem limitOfData?_limitToData {limit : Option Nat}
    (small : ∀ count ∈ limit, count < countBound) :
    limitOfData? (some (limitToData limit)) = some limit := by
  cases limit with
  | none => rfl
  | some count =>
      have readCount := Value.natural?_ofNat_of_lt (small count rfl)
      change ((Value.ofNat count).natural? countBound).map some = some (some count)
      rw [readCount]
      rfl

theorem lt_of_limitOfData?_eq_some {part : Option Value} {limit : Option Nat}
    (isRead : limitOfData? part = some limit) : ∀ count ∈ limit, count < countBound := by
  unfold limitOfData? at isRead
  split at isRead
  · cases isRead
    simp
  · cases isRead
    simp
  · rcases Option.map_eq_some_iff.mp isRead with ⟨count, readCount, rfl⟩
    rintro _ ⟨⟩
    exact Value.lt_of_natural?_eq_some readCount

/-- No limit is null or left out. -/
theorem insensitive_limitOfData? :
    Insensitive limitOfData? (Part.Changes ⟨"max_steps", true, .unique⟩) := by
  intro before after limit changes readBefore
  cases changes with
  | same _ => exact readBefore
  | respelled change => exact change.elim
  | leftOut _ => exact readBefore
  | filledIn _ => exact readBefore

theorem ofData?_toData {settings : Settings} (writable : settings.Writable) :
    ofData? settings.toData = some settings := by
  apply structure?_eq_some_iff.mpr
  exact ⟨_, rfl, part_bind_eq_some (limitOfData?_limitToData writable.1) <|
    part_bind_eq_some rfl <| part_bind_eq_some (Value.natural?_ofNat_of_lt writable.2) rfl⟩

theorem insensitive_ofData? : Insensitive ofData? form.respelling := by
  apply insensitive_structure? rfl
  exact insensitive_part_bind insensitive_limitOfData? fun _ =>
    insensitive_unique_bind fun _ => insensitive_unique_bind fun _ => insensitive_pure _

theorem writable_of_ofData? {value : Value} {settings : Settings}
    (isRead : ofData? value = some settings) : settings.Writable := by
  rcases structure?_eq_some_iff.mp isRead with ⟨_, _, readLimit⟩
  rcases part_bind_eq_some_iff.mp readLimit with ⟨_, _, limit, _, limitRead, readDetect⟩
  rcases part_bind_eq_some_iff.mp readDetect with ⟨_, _, detects, _, _, readSpeed⟩
  rcases part_bind_eq_some_iff.mp readSpeed with ⟨_, _, speed, _, hasSpeed, built⟩
  rcases Option.bind_eq_some_iff.mp hasSpeed with ⟨_, _, speedRead⟩
  cases built
  exact ⟨lt_of_limitOfData?_eq_some limitRead, Value.lt_of_natural?_eq_some speedRead⟩

theorem faithful_form : form.Faithful :=
  Form.faithful_of (fun _ => ofData?_toData) insensitive_ofData? writable_of_ofData?

end Settings

/-! ## Repetitions -/

namespace Cycle

/-- Both step counts are in range. -/
def Writable (cycle : Cycle) : Prop :=
  cycle.step < countBound ∧ cycle.previousStep < countBound

/-- The form of repetitions. -/
def form : Form Cycle where
  write := toData
  read := ofData?
  Writable := Writable
  respelling := .parts
    [.needed "state" .unique, .needed "step" .unique, .needed "previous_step" .unique]

theorem ofData?_toData {cycle : Cycle} (writable : cycle.Writable) :
    ofData? cycle.toData = some cycle := by
  apply structure?_eq_some_iff.mpr
  exact ⟨_, rfl, part_bind_eq_some (Value.word?_ofWord cycle.word) <|
    part_bind_eq_some (Value.natural?_ofNat_of_lt writable.1) <|
      part_bind_eq_some (Value.natural?_ofNat_of_lt writable.2) rfl⟩

theorem insensitive_ofData? : Insensitive ofData? form.respelling := by
  apply insensitive_structure? rfl
  exact insensitive_unique_bind fun _ => insensitive_unique_bind fun _ =>
    insensitive_unique_bind fun _ => insensitive_pure _

theorem writable_of_ofData? {value : Value} {cycle : Cycle}
    (isRead : ofData? value = some cycle) : cycle.Writable := by
  rcases structure?_eq_some_iff.mp isRead with ⟨_, _, readWord⟩
  rcases part_bind_eq_some_iff.mp readWord with ⟨_, _, word, _, _, readStep⟩
  rcases part_bind_eq_some_iff.mp readStep with ⟨_, _, step, _, hasStep, readPrevious⟩
  rcases part_bind_eq_some_iff.mp readPrevious with ⟨_, _, previous, _, hasPrevious, built⟩
  rcases Option.bind_eq_some_iff.mp hasStep with ⟨_, _, stepRead⟩
  rcases Option.bind_eq_some_iff.mp hasPrevious with ⟨_, _, previousRead⟩
  cases built
  exact ⟨Value.lt_of_natural?_eq_some stepRead, Value.lt_of_natural?_eq_some previousRead⟩

theorem faithful_form : form.Faithful :=
  Form.faithful_of (fun _ => ofData?_toData) insensitive_ofData? writable_of_ofData?

end Cycle

/-! ## Events -/

namespace Event

/-- A reported repetition is writable. -/
def Writable : Event → Prop
  | .cycle repeated => repeated.Writable
  | _ => True

/-- The form of events. -/
def form : Form Event where
  write := toData
  read := ofData?
  Writable := Writable
  respelling := .variants (plain.map Prod.fst) [("Cycle", Cycle.form.respelling)]

theorem ofData?_cycle (data : Value) :
    ofData? (.ofVariant "Cycle" data) = (Cycle.ofData? data).map cycle :=
  rfl

theorem ofData?_toData {event : Event} (writable : event.Writable) :
    ofData? event.toData = some event := by
  cases event with
  | moved => rfl
  | terminated => rfl
  | halted => rfl
  | idle => rfl
  | cycle repeated =>
      rw [toData, ofData?_cycle, Cycle.ofData?_toData writable]
      rfl

theorem insensitive_ofData? : Insensitive ofData? form.respelling := by
  apply insensitive_variants
  · intro name known
    fin_cases known <;> rfl
  · intro variant known
    rcases List.mem_singleton.mp known with rfl
    exact Cycle.insensitive_ofData?.map cycle

theorem writable_of_ofData? {value : Value} {event : Event}
    (isRead : ofData? value = some event) : event.Writable := by
  unfold ofData? at isRead
  split at isRead
  · rcases Option.map_eq_some_iff.mp isRead with ⟨repeated, readCycle, rfl⟩
    exact Cycle.writable_of_ofData? readCycle
  · have known := mem_of_plainVariant?_eq_some isRead
    fin_cases known <;> trivial

theorem faithful_form : form.Faithful :=
  Form.faithful_of (fun _ => ofData?_toData) insensitive_ofData? writable_of_ofData?

end Event

/-! ## Outcomes -/

namespace Outcome

/-- A reported repetition is writable, and the limit that was reached is in
range. -/
def Writable : Outcome → Prop
  | .cycle repeated => repeated.Writable
  | .stepLimit steps => steps < countBound
  | _ => True

/-- The form of outcomes. -/
def form : Form Outcome where
  write := toData
  read := ofData?
  Writable := Writable
  respelling := .variants (plain.map Prod.fst)
    [("Cycle", Cycle.form.respelling), ("StepLimit", .unique)]

theorem ofData?_cycle (data : Value) :
    ofData? (.ofVariant "Cycle" data) = (Cycle.ofData? data).map cycle :=
  rfl

theorem ofData?_stepLimit (data : Value) :
    ofData? (.ofVariant "StepLimit" data) = (data.natural? countBound).map stepLimit :=
  rfl

theorem ofData?_toData {outcome : Outcome} (writable : outcome.Writable) :
    ofData? outcome.toData = some outcome := by
  cases outcome with
  | terminated => rfl
  | halted => rfl
  | alreadyTerminated => rfl
  | cycle repeated =>
      rw [toData, ofData?_cycle, Cycle.ofData?_toData writable]
      rfl
  | stepLimit steps =>
      rw [toData, ofData?_stepLimit, Value.natural?_ofNat_of_lt writable]
      rfl

theorem insensitive_ofData? : Insensitive ofData? form.respelling := by
  apply insensitive_variants
  · intro name known
    fin_cases known <;> rfl
  · intro variant known
    rcases List.mem_pair.mp known with rfl | rfl
    · exact Cycle.insensitive_ofData?.map cycle
    · exact insensitive_unique _

theorem writable_of_ofData? {value : Value} {outcome : Outcome}
    (isRead : ofData? value = some outcome) : outcome.Writable := by
  unfold ofData? at isRead
  split at isRead
  · rcases Option.map_eq_some_iff.mp isRead with ⟨repeated, readCycle, rfl⟩
    exact Cycle.writable_of_ofData? readCycle
  · split at isRead
    · rcases Option.map_eq_some_iff.mp isRead with ⟨steps, readSteps, rfl⟩
      exact Value.lt_of_natural?_eq_some readSteps
    · have known := mem_of_plainVariant?_eq_some isRead
      fin_cases known <;> trivial

theorem faithful_form : form.Faithful :=
  Form.faithful_of (fun _ => ofData?_toData) insensitive_ofData? writable_of_ofData?

end Outcome

/-- Writing and reading are faithful for every type with a data form. -/
theorem forms_faithful :
    Rule.form.Faithful ∧ Machine.form.Faithful ∧ Settings.form.Faithful ∧
      Cycle.form.Faithful ∧ Event.form.Faithful ∧ Outcome.form.Faithful :=
  ⟨Rule.faithful_form, Machine.faithful_form, Settings.faithful_form, Cycle.faithful_form,
    Event.faithful_form, Outcome.faithful_form⟩

/-- A rule with its fields in another order and a note among them. -/
def Rule.annotated : Value :=
  .record
    [("right", .ofWord ['b']), ("note", .text "first"), ("left", .ofWord ['a']),
      ("is_terminating", .truth false)]

/-- A machine given by the list of its parts, with one rule. -/
def Machine.listed (rule : Value) : Value :=
  .list [.list [rule], .ofWord ['a'], .ofWord ['b'], .truth false]

/-- Settings that leave out their null. -/
def Settings.curtailed : Value :=
  .record [("detect_cycles", .truth true), ("speed", .ofNat 5)]

/-- A machine is read from the list of its parts with an annotated rule among them, and
settings are read without their null. -/
theorem forms_faithful_respelled :
    Relation.ReflTransGen Machine.form.respelling
        (Machine.toData ⟨[⟨['a'], ['b'], false⟩], ['a'], ['b'], false⟩)
        (Machine.listed Rule.annotated) ∧
      Machine.ofData? (Machine.listed Rule.annotated) =
        some ⟨[⟨['a'], ['b'], false⟩], ['a'], ['b'], false⟩ ∧
      Settings.form.respelling (Settings.toData { stepLimit := none }) Settings.curtailed ∧
      Settings.ofData? Settings.curtailed = some { stepLimit := none } := by
  obtain ⟨-, machines, settings, -⟩ := forms_faithful
  have reordered : Rule.form.respelling (Rule.toData ⟨['a'], ['b'], false⟩) (.record _) :=
    .permute (by decide) (List.reverse_perm _).symm
  have extended : Rule.form.respelling (.record _) Rule.annotated :=
    @Respelling.parts.extend _ [("right", .ofWord ['b'])] _ "note" (.text "first") (by decide)
  have enumerated : Machine.form.respelling
      (Machine.toData ⟨[⟨['a'], ['b'], false⟩], ['a'], ['b'], false⟩)
      (Machine.listed (Rule.toData ⟨['a'], ['b'], false⟩)) :=
    .enumerate (.cons (.inl rfl) (.cons (.inl rfl) (.cons (.inl rfl) (.cons (.inl rfl) .nil))))
  have inside {rule other : Value} (change : Rule.form.respelling rule other) :
      Machine.form.respelling (Machine.listed rule) (Machine.listed other) :=
    @Respelling.parts.position _ [] _ _ _ _ rfl (@Respelling.items.item _ [] [] _ _ change)
  have respelled := ((Relation.ReflTransGen.single enumerated).tail (inside reordered)).tail
    (inside extended)
  have curtailed : Settings.form.respelling (Settings.toData { stepLimit := none })
      Settings.curtailed :=
    @Respelling.parts.leaveOut _ [] _ "max_steps" (by decide) (by decide)
  exact ⟨respelled, machines.respelled _ _ _ respelled (machines.read_write _ trivial),
    curtailed, settings.respelled _ _ _ (.single curtailed)
      (settings.read_write { stepLimit := none } ⟨by simp, by decide⟩)⟩

end MarkovAlgorithm
