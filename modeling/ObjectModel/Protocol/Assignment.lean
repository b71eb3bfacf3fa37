import ObjectModel.Protocol.Conversion

/-!
# Definition and assignment

The operations that change properties and may run script code on the way. A definition does so only for
an array's length, whose new value is converted to a number first; everything that the definition goes
by is read after that. An assignment runs the setter that it finds, and otherwise ends in a definition.

`strict` says whether a refusal is an error. Without it a refused definition answers `false`, and a
refused assignment does nothing.
-/

namespace ObjectModel.Protocol

open ObjectModel.Action

variable {σ : Type} (run : Callback σ)

/-- The definition of an array's length with a value. The value must convert to a number that is an
unsigned 32-bit word; if it does not, that is an error for every caller. -/
def defineLength (id : ObjectId) (d : Descriptor) (value : Value) (strict : Bool) :
    Action σ Bool := do
  let x ← toNumber run value
  if (Number.ofNat x.toUint32).equals x then
    attempt strict id (·.defineLength x.toUint32 d)
  else
    throw (.invalidLength x)

/-- The definition of a property. -/
def define (id : ObjectId) (key : Key) (d : Descriptor) (strict : Bool) : Action σ Bool := do
  if (← inspect fun h => (h.get id).isArray) && key.isLength then
    match d.value with
    | some value => defineLength run id d value strict
    | none => attempt strict id (·.define key d)
  else
    attempt strict id (·.define key d)

/-- The definition of a property by the rules that hold for all objects, also on an array. -/
def ordinaryDefine (id : ObjectId) (key : Key) (d : Descriptor) (strict : Bool) : Action σ Bool :=
  attempt strict id (·.ordinaryDefine key d)

/-- The deletion of a property. -/
def delete (id : ObjectId) (key : Key) (strict : Bool) : Action σ Bool :=
  attempt strict id (·.delete key)

/-- Refuses an assignment. -/
def rejectPut (key : Key) (strict : Bool) : Action σ Unit := do
  if strict then throw (.refused (.readOnlyAssignment key))

/-- The end of an allowed assignment to a key under which the object has no value of its own: an
accessor's setter is called, on the object that is assigned to; otherwise the object gets a new
property with every attribute. -/
def putInherited (id : ObjectId) (key : Key) (value : Value) (strict : Bool) : Action σ Unit := do
  match ← inspect (·.property? id key) with
  | some (.accessor _ setter _) =>
    match setter.filter (!·.isUndefined) with
    | some f => discard (call run f (.object id) [value])
    | none => pure ()
  | _ => discard (define run id key (.data value .all) strict)

/-- Overwrites the value that an object has of its own, if it is writable, and tells whether it was. -/
def overwrite (value : Value) (key : Key) (o : Object) : Bool × Object :=
  match o.find? key with
  | some (.data _ a) => if a.writable then (true, o.store key (.data value a)) else (false, o)
  | _ => (false, o)

/-- Assignment to a property of an array. An element or a length that is there is redefined, with the
value as the only field. -/
def putOnArray (id : ObjectId) (key : Key) (value : Value) (strict : Bool) : Action σ Unit := do
  if ← inspect (·.canPut id key) then
    match ← inspect fun h => (h.get id).find? key with
    | some (.data ..) => discard (define run id key (.ofValue value) strict)
    | _ => putInherited run id key value strict
  else
    rejectPut key strict

/-- Assignment to a property. On an object that is no array, a writable value is overwritten where it
is. -/
def put (id : ObjectId) (key : Key) (value : Value) (strict : Bool) : Action σ Unit := do
  if ← inspect fun h => (h.get id).isArray then
    putOnArray run id key value strict
  else if ← alter id (overwrite value key) then
    pure ()
  else if ← inspect (·.canPut id key) then
    putInherited run id key value strict
  else
    rejectPut key strict

/-- Overwrites a writable element of an array, and tells whether there was one. -/
def overwriteElement (value : Value) (i : Nat) (o : Object) : Bool × Object :=
  match o.elements?.bind (·.read i) with
  | some (.data _ a) => if a.writable then (true, o.store (.ofWord i) (.data value a)) else (false, o)
  | _ => (false, o)

/-- Assignment to the property under a 32-bit word. A writable element is overwritten where it is;
everything else is an assignment like any other. -/
def setIndex (id : ObjectId) (i : Nat) (value : Value) (strict : Bool) : Action σ Unit := do
  if ← alter id (overwriteElement value i) then
    pure ()
  else
    put run id (.ofWord i) value strict

end ObjectModel.Protocol
