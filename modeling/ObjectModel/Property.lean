import ObjectModel.Value

/-!
# Properties

A `Property` is what an object stores under a key: a value, or a pair of functions that stand in for
one, and three attributes. A `Descriptor` is what a definition asks for. Each of its six fields may be
left out; a definition then keeps what is stored, or takes the default if nothing is.
-/

namespace ObjectModel

/-- The attributes of a property. -/
structure Attributes where
  /-- The value may be assigned. Stored with an accessor, it has no meaning. -/
  writable : Bool := false
  /-- The property takes part in enumeration. -/
  enumerable : Bool := false
  /-- The property may be deleted and redefined. -/
  configurable : Bool := false
deriving DecidableEq, Inhabited

namespace Attributes

/-- Every attribute: that of a property made by assignment. -/
def all : Attributes := ⟨true, true, true⟩

/-- No attribute. -/
def none : Attributes := ⟨false, false, false⟩

/-- The attributes that an array's length starts with. -/
def length : Attributes := ⟨true, false, false⟩

end Attributes

/-- A stored property. -/
inductive Property where
  /-- A value. -/
  | data (value : Value) (attributes : Attributes)
  /-- A pair of functions, either of which may be missing. -/
  | accessor (get set : Option Value) (attributes : Attributes)
deriving DecidableEq

namespace Property

/-- The attributes of a property. -/
def attributes : Property → Attributes
  | data _ a => a
  | accessor _ _ a => a

/-- The property with other attributes. -/
def withAttributes (a : Attributes) : Property → Property
  | data value _ => data value a
  | accessor get set _ => accessor get set a

/-- The value of a data property. -/
def value? : Property → Option Value
  | data value _ => some value
  | accessor .. => none

/-- Whether the property stores a value. -/
def isData : Property → Bool
  | data .. => true
  | accessor .. => false

/-- Whether the property stores functions. -/
def isAccessor (p : Property) : Bool := !p.isData

/-- Whether the property holds a value that may be assigned. -/
def isWritable : Property → Bool
  | data _ a => a.writable
  | accessor .. => false

/-- Whether the property takes part in enumeration. -/
def isEnumerable (p : Property) : Bool := p.attributes.enumerable

/-- Whether the property may be deleted and redefined. -/
def isConfigurable (p : Property) : Bool := p.attributes.configurable

/-- Whether an assignment through this property can succeed: a value must be writable, an accessor must
have a function to call. -/
def acceptsPut : Property → Bool
  | data _ a => a.writable
  | accessor _ set _ => set.any (!·.isUndefined)

/-- Equality of properties with values compared as programs do. -/
def equals : Property → Property → Bool
  | data v a, data w b => v.equals w && a == b
  | accessor g s a, accessor h t b => same g h && same s t && a == b
  | _, _ => false
where
  /-- Equality of functions that may be missing. -/
  same : Option Value → Option Value → Bool
    | some v, some w => v.equals w
    | .none, .none => true
    | _, _ => false

end Property

/-- What a definition asks for. A missing field is left as it is. -/
structure Descriptor where
  value : Option Value := none
  writable : Option Bool := none
  get : Option Value := none
  set : Option Value := none
  enumerable : Option Bool := none
  configurable : Option Bool := none
deriving DecidableEq, Inhabited

namespace Descriptor

/-- A definition of the value alone. -/
def ofValue (v : Value) : Descriptor := { value := v }

/-- A definition of a data property in full. -/
def data (v : Value) (a : Attributes) : Descriptor where
  value := v
  writable := a.writable
  enumerable := a.enumerable
  configurable := a.configurable

/-- A definition that names a getter or a setter. -/
def isAccessor (d : Descriptor) : Bool := d.get.isSome || d.set.isSome

/-- A definition that names a value or its writability. -/
def isData (d : Descriptor) : Bool := d.value.isSome || d.writable.isSome

/-- A definition of neither kind. One that names fields of both kinds is of both kinds. -/
def isGeneric (d : Descriptor) : Bool := !d.isAccessor && !d.isData

/-- A definition without any field. -/
def isEmpty (d : Descriptor) : Bool :=
  d.isGeneric && d.enumerable.isNone && d.configurable.isNone

/-- The property that a definition makes where there was none: missing fields are `undefined` or
`false`, and a function that is `undefined` is no function. -/
def toProperty (d : Descriptor) : Property :=
  let enumerable := d.enumerable.getD false
  let configurable := d.configurable.getD false
  if d.isAccessor then
    .accessor (d.get.filter (!·.isUndefined)) (d.set.filter (!·.isUndefined))
      { writable := false, enumerable, configurable }
  else
    .data (d.value.getD .undefined)
      { writable := d.writable.getD false, enumerable, configurable }

/-- The definition that asks for a property as it is stored. -/
def ofProperty : Property → Descriptor
  | .data v a => data v a
  | .accessor get set a =>
    { get := get.getD .undefined, set := set.getD .undefined,
      enumerable := a.enumerable, configurable := a.configurable }

/-- Equality of definitions with values compared as programs do. -/
def equals (d e : Descriptor) : Bool :=
  Property.equals.same d.value e.value && d.writable == e.writable
    && Property.equals.same d.get e.get && Property.equals.same d.set e.set
    && d.enumerable == e.enumerable && d.configurable == e.configurable

end Descriptor

end ObjectModel
