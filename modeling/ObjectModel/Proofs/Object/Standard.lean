import ObjectModel.Object.Define

/-!
# The standard's definition of a property

ES5.1 8.12.9 describes what a definition does as an algorithm in thirteen steps. It works on *records*:
sets of named fields, some of which are there. A definition is one record, and the property that is
stored is another, with every field of its kind. `Standard.define` is that algorithm, step by step.

`Descriptor.decide` is arranged differently: it tests first whether anything changes at all, then looks
for a conflict, and overwrites the fields at the end. For a definition that does not name fields of both
kinds, the two come to the same (`Descriptor.record_decide`). Properties are compared as records, where a
function that is missing is there as `undefined`.
-/

namespace ObjectModel

namespace Standard

/-! ## Records -/

/-- The names of fields. -/
inductive Field where
  | value
  | writable
  | get
  | set
  | enumerable
  | configurable
deriving DecidableEq

/-- All names of fields. -/
def Field.all : List Field := [value, writable, get, set, enumerable, configurable]

/-- Some fields with their values. -/
abbrev Record := Field → Option Value

namespace Record

/-- A record with a getter or a setter. -/
def isAccessor (r : Record) : Bool := (r .get).isSome || (r .set).isSome

/-- A record with a value or its writability. -/
def isData (r : Record) : Bool := (r .value).isSome || (r .writable).isSome

/-- A record of neither kind. -/
def isGeneric (r : Record) : Bool := !r.isAccessor && !r.isData

/-- The field is missing, or it is also in the other record and has the same value there. -/
def agrees (r other : Record) (f : Field) : Bool :=
  (r f).all fun v => (other f).any (v.same ·)

/-- The fields of a record where it has them, and those of another one elsewhere. -/
def onto (r other : Record) : Record := fun f => (r f).or (other f)

/-- A data property with default values. -/
def data : Record
  | .value => some .undefined
  | .writable | .enumerable | .configurable => some (.boolean false)
  | .get | .set => none

/-- An accessor property with default values. -/
def accessor : Record
  | .get | .set => some .undefined
  | .enumerable | .configurable => some (.boolean false)
  | .value | .writable => none

/-- A record turned into one of the other kind, given by its default values. The fields that both kinds
have are kept. -/
def convert (r other : Record) : Record
  | .enumerable => r .enumerable
  | .configurable => r .configurable
  | f => other f

end Record

/-- The definition of a property that it would change: nothing if it is rejected, and otherwise the
property that is there afterwards. -/
def redefine (c d : Record) : Option Record :=
  let fixed := c .configurable == some (.boolean false)
  -- step 7
  if fixed && d .configurable == some (.boolean true) then none
  else if fixed && !d.agrees c .enumerable then none
  -- step 8
  else if d.isGeneric then some (d.onto c)
  -- step 9
  else if c.isData != d.isData then
    if fixed then none
    else if c.isData then some (d.onto (c.convert .accessor))
    else some (d.onto (c.convert .data))
  -- step 10
  else if c.isData && d.isData then
    let readOnly := c .writable == some (.boolean false)
    if fixed && readOnly && d .writable == some (.boolean true) then none
    else if fixed && readOnly && !d.agrees c .value then none
    else some (d.onto c)
  -- step 11
  else if fixed && !d.agrees c .set then none
  else if fixed && !d.agrees c .get then none
  else some (d.onto c)

/-- The definition of a property where `current` is stored, if anything is: nothing if it is rejected,
and otherwise the property that is there afterwards. -/
def define (current : Option Record) (extensible : Bool) (d : Record) : Option Record :=
  match current with
  | none =>
    -- steps 3 and 4
    if !extensible then none
    else if d.isGeneric || d.isData then some (d.onto .data)
    else some (d.onto .accessor)
  | some c =>
    -- steps 5 and 6
    if Field.all.all fun f => (d f).isNone then some c
    else if Field.all.all (d.agrees c) then some c
    else redefine c d

/-- The property that an accepted definition overwrites: the one that is there, turned into one of the
other kind if the definition is of that, or one with default values if none is there. -/
def base (current : Option Record) (d : Record) : Record :=
  match current with
  | none => if d.isAccessor then .accessor else .data
  | some c =>
    if c.isData && d.isAccessor then c.convert .accessor
    else if c.isAccessor && d.isData then c.convert .data
    else c

/-! ## What the standard prescribes -/

/-- Fields that are missing overwrite nothing. -/
theorem Record.onto_of_none {r other : Record} (missing : ∀ f, r f = none) : r.onto other = other :=
  funext fun f => by rw [onto, missing f, Option.none_or]

/-- Fields that agree overwrite nothing. -/
theorem Record.onto_of_agrees {r other : Record} (agree : ∀ f, r.agrees other f = true) :
    r.onto other = other := by
  funext f
  have hf := agree f
  rw [agrees] at hf
  rw [onto]
  cases hr : r f with
  | none => rw [Option.none_or]
  | some v =>
    rw [hr, Option.all_some, Option.any_eq_true] at hf
    obtain ⟨v', hother, hsame⟩ := hf
    rw [hother, Value.same_iff.1 hsame, Option.some_or]

/-- A field that agrees is there if it is in the other record. -/
theorem Record.isSome_of_agrees {r other : Record} {f : Field} (agree : r.agrees other f = true)
    (there : (r f).isSome = true) : (other f).isSome = true := by
  obtain ⟨v, hv⟩ := Option.isSome_iff_exists.1 there
  rw [agrees, hv, Option.all_some] at agree
  exact Option.isSome_of_any agree

/-- Every field is in the list of all of them. -/
theorem Field.mem_all (f : Field) : f ∈ Field.all := by
  cases f <;> decide

variable {c d : Record}

/-- A definition that agrees with a property on every field asks for no other kind. -/
theorem base_of_agrees (agree : ∀ f, d.agrees c f = true) (kind : c.isData = !c.isAccessor) :
    base (some c) d = c := by
  have haccessor : d.isAccessor = true → c.isAccessor = true := by
    simp only [Record.isAccessor, Bool.or_eq_true]
    exact Or.imp (Record.isSome_of_agrees (agree .get)) (Record.isSome_of_agrees (agree .set))
  have hdata : d.isData = true → c.isData = true := by
    simp only [Record.isData, Bool.or_eq_true]
    exact Or.imp (Record.isSome_of_agrees (agree .value)) (Record.isSome_of_agrees (agree .writable))
  rw [base]
  grind

/-- The steps from the seventh on overwrite the fields that the definition names. -/
theorem redefine_eq_onto (kind : c.isData = !c.isAccessor)
    (unmixed : d.isData = true → d.isAccessor = false) {r : Record}
    (accepted : redefine c d = some r) : r = d.onto (base (some c) d) := by
  simp only [redefine, Record.isGeneric] at accepted
  rw [base]
  grind

/-- Whichever step accepts a definition, the property afterwards has the fields that the definition names,
and the others are those of `base`. -/
theorem define_eq_onto {current : Option Record} {extensible : Bool}
    (kind : ∀ c ∈ current, c.isData = !c.isAccessor)
    (unmixed : d.isData = true → d.isAccessor = false) {r : Record}
    (accepted : define current extensible d = some r) : r = d.onto (base current d) := by
  cases current with
  | none =>
    simp only [define, Record.isGeneric] at accepted
    rw [base]
    grind
  | some c =>
    rw [define] at accepted
    split at accepted
    · next hmissing =>
      have hnone : ∀ f, d f = none := fun f =>
        Option.isNone_iff_eq_none.1 (List.all_eq_true.1 hmissing f f.mem_all)
      cases accepted
      have haccessor : d.isAccessor = false := by rw [Record.isAccessor, hnone, hnone]; rfl
      have hdata : d.isData = false := by rw [Record.isData, hnone, hnone]; rfl
      rw [Record.onto_of_none hnone, base, haccessor, hdata]
      simp only [Bool.and_false, Bool.false_eq_true, if_false]
    split at accepted
    · next hagree =>
      have hall : ∀ f, d.agrees c f = true := fun f => List.all_eq_true.1 hagree f f.mem_all
      cases accepted
      rw [base_of_agrees hall (kind _ rfl), Record.onto_of_agrees hall]
    · exact redefine_eq_onto (kind c rfl) unmixed accepted

end Standard

open Standard

/-! ## Properties and definitions as records -/

/-- A stored property as a record. A function that is missing is `undefined`. -/
def Property.record : Property → Record
  | data v a => fun
    | .value => some v
    | .writable => some (.boolean a.writable)
    | .enumerable => some (.boolean a.enumerable)
    | .configurable => some (.boolean a.configurable)
    | .get | .set => none
  | accessor get set a => fun
    | .get => some (get.getD .undefined)
    | .set => some (set.getD .undefined)
    | .enumerable => some (.boolean a.enumerable)
    | .configurable => some (.boolean a.configurable)
    | .value | .writable => none

/-- A property is a value if its record has one. -/
theorem Property.isData_record (p : Property) : p.record.isData = p.isData := by
  cases p <;> rfl

/-- A property is of one kind. -/
theorem Property.kind_record (p : Property) : p.record.isData = !p.record.isAccessor := by
  cases p <;> rfl

/-- What the decision on a definition makes of the stored property, as a record: nothing if the definition
is refused. -/
def Decision.record (current : Option Property) : Decision → Option Record
  | refuse _ => none
  | keep => current.map Property.record
  | store p => some p.record

namespace Descriptor

/-- A definition as a record. -/
def record (d : Descriptor) : Record
  | .value => d.value
  | .writable => d.writable.map .boolean
  | .get => d.get
  | .set => d.set
  | .enumerable => d.enumerable.map .boolean
  | .configurable => d.configurable.map .boolean

/-- The definition names fields of both kinds. -/
def IsMixed (d : Descriptor) : Prop := d.isData = true ∧ d.isAccessor = true

variable {d : Descriptor} {p : Property}

/-! ## Classification -/

/-- A definition names a function if its record does. -/
theorem isAccessor_record (d : Descriptor) : d.record.isAccessor = d.isAccessor := rfl

/-- A definition names a value or its writability if its record does. -/
theorem isData_record (d : Descriptor) : d.record.isData = d.isData := by
  rw [Record.isData, isData, record, record, Option.isSome_map]

/-- A definition is of neither kind if its record is. -/
theorem isGeneric_record (d : Descriptor) : d.record.isGeneric = d.isGeneric := by
  rw [Record.isGeneric, isGeneric, isAccessor_record, isData_record]

/-- A definition has no field if its record has none. -/
theorem isEmpty_record (d : Descriptor) :
    (Field.all.all fun f => (d.record f).isNone) = d.isEmpty := by
  obtain ⟨value, writable, get, set, enumerable, configurable⟩ := d
  cases value <;> cases writable <;> cases get <;> cases set <;> cases enumerable <;>
    cases configurable <;> rfl

/-! ## Comparison -/

/-- A field that the other record lacks agrees if it is missing. -/
theorem agrees_of_none {r other : Record} {f : Field} (h : other f = none) :
    r.agrees other f = !(r f).isSome := by
  rw [Record.agrees, h]
  cases r f <;> rfl

/-- A field agrees if it has the value of the other record, should it have one. -/
theorem agrees_of_some {r other : Record} {f : Field} {v : Value} (h : other f = some v) :
    r.agrees other f = (r f).all (·.same v) := by
  rw [Record.agrees, h]
  rfl

/-- Truth values are the same as values if they are equal. -/
theorem all_same_boolean (asked : Option Bool) (stored : Bool) :
    (asked.map Value.boolean).all (·.same (.boolean stored)) = asked.all (· == stored) := by
  cases asked with
  | none => rfl
  | some b => cases b <;> cases stored <;> rfl

/-- A function that is asked for is the one stored if it is the one in the record. -/
theorem sameFunction_eq (asked : Value) (stored : Option Value) :
    sameFunction asked stored = asked.same (stored.getD .undefined) := by
  cases stored with
  | none => cases asked <;> rfl
  | some f => rfl

/-- A definition agrees with a property on its enumerability. -/
theorem agrees_enumerable (d : Descriptor) (p : Property) :
    d.record.agrees p.record .enumerable = d.enumerable.all (· == p.attributes.enumerable) := by
  rw [agrees_of_some (v := .boolean p.attributes.enumerable) (by cases p <;> rfl)]
  exact all_same_boolean ..

/-- A definition agrees with a property on its configurability. -/
theorem agrees_configurable (d : Descriptor) (p : Property) :
    d.record.agrees p.record .configurable = d.configurable.all (· == p.attributes.configurable) := by
  rw [agrees_of_some (v := .boolean p.attributes.configurable) (by cases p <;> rfl)]
  exact all_same_boolean ..

/-- A definition agrees with a value on the value. -/
theorem agrees_value (d : Descriptor) (v : Value) (a : Attributes) :
    d.record.agrees (Property.data v a).record .value = d.value.all (·.same v) :=
  agrees_of_some rfl

/-- A definition agrees with an accessor on the getter. -/
theorem agrees_get (d : Descriptor) (get set : Option Value) (a : Attributes) :
    d.record.agrees (Property.accessor get set a).record .get = d.get.all (sameFunction · get) := by
  simp only [sameFunction_eq]
  exact agrees_of_some rfl

/-- A definition agrees with an accessor on the setter. -/
theorem agrees_set (d : Descriptor) (get set : Option Value) (a : Attributes) :
    d.record.agrees (Property.accessor get set a).record .set = d.set.all (sameFunction · set) := by
  simp only [sameFunction_eq]
  exact agrees_of_some rfl

/-- A definition is satisfied already if it agrees with the property on every field. -/
theorem isSatisfiedBy_record (d : Descriptor) (p : Property) :
    Field.all.all (d.record.agrees p.record) = d.isSatisfiedBy p := by
  simp only [Field.all, List.all_cons, List.all_nil, agrees_enumerable, agrees_configurable]
  cases p with
  | data v a =>
    have hwritable : d.record.agrees (Property.data v a).record .writable
        = d.writable.all (· == a.writable) := (agrees_of_some rfl).trans (all_same_boolean ..)
    rw [agrees_value, hwritable, agrees_of_none rfl, agrees_of_none rfl, isSatisfiedBy, isAccessor]
    simp only [record, Property.attributes, Bool.not_or, Bool.and_true]
    ac_rfl
  | accessor get set a =>
    have hwritable : (d.record .writable).isSome = d.writable.isSome := Option.isSome_map
    rw [agrees_get, agrees_set, agrees_of_none rfl, agrees_of_none rfl, isSatisfiedBy, isData,
      hwritable]
    simp only [record, Property.attributes, Bool.not_or, Bool.and_true]
    ac_rfl

/-! ## Overwriting -/

/-- A truth value is overwritten by one that is asked for. -/
theorem or_boolean (asked : Option Bool) (stored : Bool) :
    (asked.map Value.boolean).or (some (.boolean stored)) = some (.boolean (asked.getD stored)) := by
  cases asked <;> rfl

/-- A function is overwritten by one that is asked for. It is stored as missing if it is `undefined`. -/
theorem or_function (asked stored : Option Value) :
    asked.or (some (stored.getD .undefined))
      = some ((match asked with
          | some f => if f.isUndefined then none else some f
          | none => stored).getD .undefined) := by
  cases asked with
  | none => rfl
  | some f => cases f <;> rfl

/-- Neither function is named by a definition that is of no accessor. -/
theorem functions_eq_none (h : d.isAccessor = false) : d.get = none ∧ d.set = none := by
  rwa [isAccessor, Bool.or_eq_false_iff, Option.isSome_eq_false_iff, Option.isSome_eq_false_iff,
    Option.isNone_iff_eq_none, Option.isNone_iff_eq_none] at h

/-- Neither a value nor its writability is named by a definition that is of no value. -/
theorem value_eq_none (h : d.isData = false) : d.value = none ∧ d.writable = none := by
  rwa [isData, Bool.or_eq_false_iff, Option.isSome_eq_false_iff, Option.isSome_eq_false_iff,
    Option.isNone_iff_eq_none, Option.isNone_iff_eq_none] at h

/-- A definition that names no function overwrites the fields of a value. -/
theorem onto_record_data (h : d.isAccessor = false) (v : Value) (a : Attributes) :
    d.record.onto (Property.data v a).record = (d.applyTo (.data v a)).record := by
  obtain ⟨hget, hset⟩ := functions_eq_none h
  funext f
  cases f with
  | value => exact Option.or_some
  | writable | enumerable | configurable => exact or_boolean ..
  | get => exact congrArg (Option.or · none) hget
  | set => exact congrArg (Option.or · none) hset

/-- A definition that names no value overwrites the fields of an accessor. -/
theorem onto_record_accessor (h : d.isData = false) (get set : Option Value) (a : Attributes) :
    d.record.onto (Property.accessor get set a).record = (d.applyTo (.accessor get set a)).record := by
  obtain ⟨hvalue, hwritable⟩ := value_eq_none h
  funext f
  cases f with
  | value => exact congrArg (Option.or · none) hvalue
  | writable => exact congrArg (fun w => Option.or (Option.map Value.boolean w) none) hwritable
  | get | set => exact or_function ..
  | enumerable | configurable => exact or_boolean ..

/-- A new property is one with default values, overwritten. -/
theorem toProperty_eq_applyTo (d : Descriptor) :
    d.toProperty
      = d.applyTo (if d.isAccessor then .accessor none none .none else .data .undefined .none) := by
  have hfilter : ∀ asked : Option Value, asked.filter (!·.isUndefined)
      = match asked with
        | some f => if f.isUndefined then none else some f
        | none => none := by
    intro asked
    cases asked with
    | none => rfl
    | some f => cases f <;> rfl
  rw [toProperty]
  split
  · simp only [hfilter]
    rfl
  · rfl

/-- The record of a new property. -/
theorem toProperty_record (unmixed : ¬ d.IsMixed) :
    d.toProperty.record
      = if d.isGeneric || d.isData then d.record.onto .data else d.record.onto .accessor := by
  rw [toProperty_eq_applyTo, isGeneric]
  cases haccessor : d.isAccessor with
  | false =>
    have hdata : Record.data = (Property.data .undefined .none).record := by
      funext f
      cases f <;> rfl
    rw [if_neg Bool.false_ne_true, ← onto_record_data haccessor, ← hdata]
    cases d.isData <;> rfl
  | true =>
    have hdata : d.isData = false := Bool.eq_false_iff.2 fun h => unmixed ⟨h, haccessor⟩
    have hdefaults : Record.accessor = (Property.accessor none none .none).record := by
      funext f
      cases f <;> rfl
    rw [if_pos rfl, ← onto_record_accessor hdata, ← hdefaults, hdata]
    rfl

/-! ## The two algorithms agree -/

/-- Truth values in records are compared as truth values. -/
theorem map_boolean_beq (asked : Option Bool) (b : Bool) :
    (asked.map Value.boolean == some (.boolean b)) = (asked == some b) := by
  cases asked with
  | none => rfl
  | some a => cases a <;> cases b <;> rfl

/-- Something is not as it should be if not all is. -/
theorem any_not {α : Type} (asked : Option α) (p : α → Bool) :
    asked.any (fun a => !p a) = !asked.all p := by
  cases asked <;> rfl

/-- A definition that is not mixed names no function, or names one and no value. -/
theorem kinds (unmixed : ¬ d.IsMixed) :
    d.isAccessor = false ∨ d.isAccessor = true ∧ d.isData = false := by
  cases haccessor : d.isAccessor with
  | false => exact .inl rfl
  | true => exact .inr ⟨rfl, Bool.eq_false_iff.2 fun hdata => unmixed ⟨hdata, haccessor⟩⟩

/-- A definition that names a function turns a value into an accessor. -/
theorem convert_data (h : d.isAccessor = true) (v : Value) (a : Attributes) :
    d.convert (.data v a) = .accessor none none { a with writable := false } := if_pos h

/-- A definition that names no function leaves a value what it is. -/
theorem convert_data_self (h : d.isAccessor = false) (v : Value) (a : Attributes) :
    d.convert (.data v a) = .data v a := if_neg (Bool.eq_false_iff.1 h)

/-- A definition that names a value or its writability turns an accessor into a value. -/
theorem convert_accessor (h : d.isData = true) (get set : Option Value) (a : Attributes) :
    d.convert (.accessor get set a) = .data .undefined { a with writable := false } := if_pos h

/-- A definition that names neither leaves an accessor what it is. -/
theorem convert_accessor_self (h : d.isData = false) (get set : Option Value) (a : Attributes) :
    d.convert (.accessor get set a) = .accessor get set a := if_neg (Bool.eq_false_iff.1 h)

/-- The record of a value turned into an accessor. -/
theorem convert_record_data (h : d.isAccessor = true) (v : Value) (a : Attributes) :
    (Property.data v a).record.convert .accessor = (d.convert (.data v a)).record := by
  rw [convert_data h]
  funext f
  cases f <;> rfl

/-- The record of an accessor turned into a value. -/
theorem convert_record_accessor (h : d.isData = true) (get set : Option Value) (a : Attributes) :
    (Property.accessor get set a).record.convert .data = (d.convert (.accessor get set a)).record := by
  rw [convert_accessor h]
  funext f
  cases f <;> rfl

/-- A definition overwrites the fields of a property that was turned into one of its kind. -/
theorem onto_record_convert (unmixed : ¬ d.IsMixed) (p : Property) :
    d.record.onto (d.convert p).record = (d.applyTo (d.convert p)).record := by
  cases p with
  | data v a =>
    rcases kinds unmixed with haccessor | ⟨haccessor, hdata⟩
    · rw [convert_data_self haccessor, onto_record_data haccessor]
    · rw [convert_data haccessor, onto_record_accessor hdata]
  | accessor get set a =>
    cases hdata : d.isData with
    | true =>
      have haccessor : d.isAccessor = false := Bool.eq_false_iff.2 fun h => unmixed ⟨hdata, h⟩
      rw [convert_accessor hdata, onto_record_data haccessor]
    | false => rw [convert_accessor_self hdata, onto_record_accessor hdata]

/-- The steps from the seventh on reject a definition if there is a conflict, and overwrite the property
otherwise. -/
theorem redefine_record (unmixed : ¬ d.IsMixed) (p : Property) :
    Standard.redefine p.record d.record
      = if (d.conflict p).isSome then none else some (d.applyTo (d.convert p)).record := by
  have hfixed : p.record .configurable = (some p.attributes.configurable).map .boolean := by
    cases p <;> rfl
  have hconfigurable : d.record .configurable = d.configurable.map .boolean := rfl
  have hwritable : d.record .writable = d.writable.map .boolean := rfl
  simp only [Standard.redefine, isGeneric_record, isData_record, Property.isData_record,
    agrees_enumerable, hfixed, hconfigurable, hwritable, map_boolean_beq,
    ← onto_record_convert unmixed]
  -- both sides ask the same questions by now; which of them apply depends on the two kinds
  cases p with
  | data v a =>
    have hreadOnly : (Property.data v a).record .writable = (some a.writable).map .boolean := rfl
    simp only [hreadOnly, agrees_value, map_boolean_beq, Descriptor.conflict, isGeneric, any_not,
      Property.attributes, Property.isData, bne]
    rcases kinds unmixed with haccessor | ⟨haccessor, hdata⟩
    · rw [convert_data_self haccessor]
      grind
    · rw [convert_record_data haccessor]
      grind
  | accessor get set a =>
    simp only [agrees_get, agrees_set, Descriptor.conflict, isGeneric, any_not, Property.attributes,
      Property.isData, bne]
    rcases Bool.eq_false_or_eq_true d.isData with hdata | hdata
    · have haccessor : d.isAccessor = false := Bool.eq_false_iff.2 fun h => unmixed ⟨hdata, h⟩
      rw [convert_record_accessor hdata]
      grind
    · rw [convert_accessor_self hdata]
      grind

/-- A definition is decided on as the standard does. -/
theorem record_decide (unmixed : ¬ d.IsMixed) (current : Option Property) (extensible : Bool) :
    Standard.define (current.map Property.record) extensible d.record
      = (d.decide current extensible).record current := by
  cases current with
  | none =>
    rw [Option.map_none, Standard.define, decide, isGeneric_record, isData_record]
    cases extensible with
    | false => rfl
    | true =>
      rw [Bool.not_true, if_neg Bool.false_ne_true, if_pos rfl, Decision.record,
        toProperty_record unmixed]
      split <;> rfl
  | some p =>
    rw [Option.map_some, Standard.define, decide, isEmpty_record, isSatisfiedBy_record,
      redefine_record unmixed]
    cases d.isEmpty with
    | true => rfl
    | false =>
      cases d.isSatisfiedBy p with
      | true => rfl
      | false => cases hconflict : d.conflict p <;> rfl

end Descriptor

end ObjectModel
