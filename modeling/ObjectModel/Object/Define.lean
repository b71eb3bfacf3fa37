import ObjectModel.Object.Basic

/-!
# Definitions

What a definition does to a property is decided by the property that is there, if there is one, and by
whether the object takes new ones. `Descriptor.decide` is that decision: the definition is refused, or
nothing needs to be stored, or a property is. An object carries the decision out with `ordinaryDefine`,
whatever its kind.

A definition asks for nothing new if every field it names is stored already. Such a definition is always
accepted, also for a property that allows no change.
-/

namespace ObjectModel

/-- Why a definition is refused. -/
inductive DefinitionFault where
  /-- There is no property and none may be added. -/
  | notExtensible
  /-- The property is not configurable and the change needs it to be. -/
  | fixed
  /-- The property is neither configurable nor writable, and the change is to its value or its
  writability. -/
  | readOnly
deriving DecidableEq

/-- The refusal of a definition of a key. -/
def DefinitionFault.refusal (key : Key) : DefinitionFault → Refusal
  | notExtensible => .notExtensible key
  | fixed => .fixedProperty key
  | readOnly => .readOnlyDefinition key

/-- What becomes of a definition. -/
inductive Decision where
  | refuse (fault : DefinitionFault)
  | keep
  | store (p : Property)
deriving DecidableEq

/-- Whether a function asked for is the one stored; a missing one is asked for as `undefined`. -/
def sameFunction (asked : Value) : Option Value → Bool
  | some stored => asked.same stored
  | none => asked.isUndefined

namespace Descriptor

/-- Whether every field that is named has its value already. -/
def isSatisfiedBy (d : Descriptor) (p : Property) : Bool :=
  d.enumerable.all (· == p.attributes.enumerable)
    && d.configurable.all (· == p.attributes.configurable)
    && match p with
      | .data value a =>
        !d.isAccessor && d.writable.all (· == a.writable) && d.value.all (·.same value)
      | .accessor get set _ =>
        !d.isData && d.get.all (sameFunction · get) && d.set.all (sameFunction · set)

/-- What a property does not allow of a definition that changes it. -/
def conflict (d : Descriptor) (p : Property) : Option DefinitionFault :=
  let a := p.attributes
  if !a.configurable && (d.configurable == some true || d.enumerable.any (· != a.enumerable)) then
    some .fixed
  else if d.isGeneric then
    none
  else match p with
    | .data value a =>
      if d.isAccessor then
        if a.configurable then none else some .fixed
      else if !a.configurable && !a.writable
          && (d.writable == some true || d.value.any (!·.same value)) then
        some .readOnly
      else
        none
    | .accessor get set a =>
      if d.isData then
        if a.configurable then none else some .fixed
      else if !a.configurable
          && (d.set.any (!sameFunction · set) || d.get.any (!sameFunction · get)) then
        some .fixed
      else
        none

/-- The property turned into one of the kind that the definition asks for, with the fields of the new
kind at their defaults. A definition of both kinds turns the property into the other kind. -/
def convert (d : Descriptor) (p : Property) : Property :=
  match p with
  | .data _ a => if d.isAccessor then .accessor none none { a with writable := false } else p
  | .accessor _ _ a => if d.isData then .data .undefined { a with writable := false } else p

/-- The property with the named fields of its kind overwritten. -/
def applyTo (d : Descriptor) : Property → Property
  | .data value a =>
    .data (d.value.getD value)
      { writable := d.writable.getD a.writable
        enumerable := d.enumerable.getD a.enumerable
        configurable := d.configurable.getD a.configurable }
  | .accessor get set a =>
    .accessor
      (match d.get with
        | some g => if g.isUndefined then none else some g
        | none => get)
      (match d.set with
        | some s => if s.isUndefined then none else some s
        | none => set)
      { a with
        enumerable := d.enumerable.getD a.enumerable
        configurable := d.configurable.getD a.configurable }

/-- What becomes of a definition where `current` is stored. -/
def decide (d : Descriptor) (current : Option Property) (extensible : Bool) : Decision :=
  match current with
  | none => if extensible then .store d.toProperty else .refuse .notExtensible
  | some p =>
    if d.isEmpty || d.isSatisfiedBy p then
      .keep
    else match d.conflict p with
      | some fault => .refuse fault
      | none => .store (d.applyTo (d.convert p))

end Descriptor

/-- How the object protocol answers an operation that it may turn down. -/
inductive Verdict where
  | accepted
  | refused (refusal : Refusal)
deriving DecidableEq

namespace Object

/-- The definition of a property by the rules that hold for all objects. -/
def ordinaryDefine (o : Object) (key : Key) (d : Descriptor) : Verdict × Object :=
  match d.decide (o.find? key) o.extensible with
  | .refuse fault => (.refused (fault.refusal key), o)
  | .keep => (.accepted, o)
  | .store p => (.accepted, o.store key p)

/-- The deletion of a property. Deleting one that is not there is accepted. -/
def delete (o : Object) (key : Key) : Verdict × Object :=
  match o.find? key with
  | none => (.accepted, o)
  | some p =>
    if p.isConfigurable then (.accepted, o.erase key) else (.refused (.undeletable key o.toClass), o)

end Object

end ObjectModel
