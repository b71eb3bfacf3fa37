import ObjectModel.Elements
import ObjectModel.Error
import ObjectModel.PropertyTable

/-!
# Objects

An `Object` is its kind, a table of properties, the chain of its prototypes and a flag that says whether
it takes new properties. The kind is fixed when the object is made, and so is the chain: an object lists
all its ancestors, nearest first, so that looking a property up along the chain is a walk along a list.

An array has element storage beside its table. Properties under an index are kept in the storage, all
others, `length` among them, in the table. On every other object the table holds everything.

`find?`, `store` and `erase` are the only ways into the two places. They ask no questions; the protocol
that does is built on them.
-/

namespace ObjectModel

/-- What an object is. -/
inductive Kind where
  | ordinary
  | function
  | array (elements : Elements Property)

instance : Inhabited Kind := ⟨.ordinary⟩

/-- The class that goes with a kind. -/
def Kind.toClass : Kind → Class
  | ordinary => .object
  | function => .function
  | array _ => .array

/-- An object. -/
structure Object where
  kind : Kind := .ordinary
  /-- The properties, but for an array's elements. -/
  table : PropertyTable := .empty
  /-- The prototype, its prototype, and so on. -/
  ancestors : List ObjectId := []
  /-- Whether new properties may be added. -/
  extensible : Bool := true

namespace Object

instance : Inhabited Object := ⟨{}⟩

/-- The class of an object. -/
def toClass (o : Object) : Class := o.kind.toClass

/-- Whether the object is an array. -/
def isArray (o : Object) : Bool := o.toClass == .array

/-- Whether the object can be called. -/
def isCallable (o : Object) : Bool := o.toClass == .function

/-- The element storage of an array. -/
def elements? (o : Object) : Option (Elements Property) :=
  match o.kind with
  | .array elements => some elements
  | _ => none

/-- The object's prototype. -/
def prototype? (o : Object) : Option ObjectId := o.ancestors.head?

/-- The property that the object itself has under a key. -/
def find? (o : Object) (key : Key) : Option Property :=
  match o.kind, key with
  | .array elements, .index i => elements.read i
  | _, key => o.table.find? key

/-- Puts a property under a key. -/
def store : Object → Key → Property → Object
  | ⟨.array elements, table, ancestors, extensible⟩, .index i, p =>
    ⟨.array (elements.write i p), table, ancestors, extensible⟩
  | ⟨kind, table, ancestors, extensible⟩, key, p =>
    ⟨kind, table.insert key p, ancestors, extensible⟩

/-- Takes away the property under a key. An element is taken from the storage alone. There is nothing to take
from the table beside it, since the table of an array has no property under an index
(`Object.Placed.eraseBoth_eq`). -/
def erase : Object → Key → Object
  | ⟨.array elements, table, ancestors, extensible⟩, .index i =>
    ⟨.array (elements.delete i).2, table, ancestors, extensible⟩
  | ⟨kind, table, ancestors, extensible⟩, key =>
    ⟨kind, table.erase key, ancestors, extensible⟩

/-- Ends the adding of properties. -/
def preventExtensions (o : Object) : Object := { o with extensible := false }

/-! ## Length -/

/-- The value of the `length` property as a 32-bit word, and whether it may be assigned. An object whose
`length` is missing or an accessor has a length of zero that may. -/
def lengthState (o : Object) : Nat × Bool :=
  match o.find? .length with
  | some (.data value a) => ((value.number?.map Number.toUint32).getD 0, a.writable)
  | _ => (0, true)

/-- The length of an object. -/
def length (o : Object) : Nat := o.lengthState.1

/-- Overwrites the value of the `length` property, whatever its attributes. -/
def setLength (o : Object) (n : Nat) : Object :=
  let a := match o.find? .length with
    | some (.data _ a) => a
    | _ => .length
  o.store .length (.data (.ofNat n) a)

/-- Whether the object has a property under a key. An element of an array has to be below the length as
well. -/
def has (o : Object) (key : Key) : Bool :=
  match o.kind, key with
  | .array elements, .index i => i < o.length && elements.contains i
  | _, key => (o.find? key).isSome

/-! ## Making objects -/

/-- An object without properties. -/
def ordinary (ancestors : List ObjectId) : Object := { ancestors }

/-- A function object. What it does when called is known to the host alone. -/
def function : Object := { kind := .function }

/-- An array of length zero. -/
def array (ancestors : List ObjectId) (capacity : Nat) (limits : Limits) : Object where
  kind := .array (.withLimits capacity limits)
  table := PropertyTable.empty.insert .length (.data (.ofNat 0) .length)
  ancestors := ancestors

/-- An array of the given values, or of as many of them as an array can have. -/
def arrayOf (values : List Value) : Object :=
  let values := values.take maxLength
  let elements := values.zipIdx.foldl (fun (e : Elements Property) (v, i) => e.write i (.data v .all))
    (.withCapacity values.length)
  { array [] 0 {} with kind := .array elements }.setLength values.length

end Object

end ObjectModel
