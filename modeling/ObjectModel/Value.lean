import ObjectModel.Number.Layout
import ObjectModel.Number.Rounding
import ObjectModel.Text.Quoted

/-!
# Values

Script values: the primitive ones, and references to objects. An object is known by its id alone; what
the id stands for is the heap's business, so the few readings of a value that depend on its object take
the object's class as an argument.

As with numbers, structural equality of values is the *same value* relation and `Value.equals` is the
comparison that programs write.
-/

namespace ObjectModel

/-- The name of an object in the heap. -/
structure ObjectId where
  /-- How many objects were made before it. -/
  index : Nat
deriving DecidableEq, Inhabited

/-- The class of an object. It never changes. -/
inductive Class where
  | object
  | array
  | function
deriving DecidableEq, Inhabited

/-- The name of a class. -/
def Class.text : Class → String
  | object => "Object"
  | array => "Array"
  | function => "Function"

/-- A script value. -/
inductive Value where
  | undefined
  | null
  | boolean (b : Bool)
  | number (n : Number)
  | string (text : String)
  | object (id : ObjectId)
deriving DecidableEq

namespace Value

instance : Inhabited Value := ⟨undefined⟩

/-- The number value of a natural number. -/
def ofNat (n : Nat) : Value := number (.ofNat n)

/-- Whether the value is `undefined`. -/
def isUndefined : Value → Bool
  | undefined => true
  | _ => false

/-- Whether the value is anything but an object. -/
def isPrimitive : Value → Bool
  | object _ => false
  | _ => true

/-- The number of a number value. -/
def number? : Value → Option Number
  | number n => some n
  | _ => none

/-- The same value relation: NaN is the same as itself, `+0` is not the same as `-0`, and objects are
the same if they are one object. -/
def same (a b : Value) : Bool := a == b

/-- The same value relation is equality. -/
theorem same_iff {a b : Value} : a.same b = true ↔ a = b := beq_iff_eq

/-- The comparison that programs write: as `same`, but numbers are compared by `Number.equals`. -/
def equals : Value → Value → Bool
  | number x, number y => x.equals y
  | a, b => a == b

/-- The conversion to a truth value. -/
def toBoolean : Value → Bool
  | undefined | null => false
  | boolean b => b
  | number n => n != .nan && !n.isZero
  | string text => !text.isEmpty
  | object _ => true

/-- Whether the value can be called: whether it is a function object. -/
def isCallable (classOf : ObjectId → Class) : Value → Bool
  | object id => classOf id == .function
  | _ => false

/-- The name of the value's type. -/
def typeName (classOf : ObjectId → Class) : Value → String
  | undefined => "undefined"
  | null => "object"
  | boolean _ => "boolean"
  | number _ => "number"
  | string _ => "string"
  | object id => if classOf id == .function then "function" else "object"

/-- The value as it appears in messages: strings in quotes, objects by their class. -/
def describe (classOf : ObjectId → Class) : Value → String
  | undefined => "undefined"
  | null => "null"
  | boolean b => if b then "true" else "false"
  | number n => n.render .script
  | string text => quoted text
  | object id => "[object " ++ (classOf id).text ++ "]"

end Value

end ObjectModel
