import ObjectModel.Key
import ObjectModel.Value

/-!
# Errors

What can go wrong, by cause. A `Refusal` is the object protocol turning an operation down; the caller
chooses whether a refusal is reported as an error or as a plain `false`. Everything else is always an
error: a length that is no length, a call of something that is no function, and whatever script code
raises.

The wording lives in `Error.message` and nowhere else.
-/

namespace ObjectModel

/-- Why the object protocol turned an operation down. -/
inductive Refusal where
  /-- A definition of a new property on an object that takes none. -/
  | notExtensible (key : Key)
  /-- A definition that a non-configurable property does not allow. -/
  | fixedProperty (key : Key)
  /-- A definition of another value, or of writability, for a read-only property. -/
  | readOnlyDefinition (key : Key)
  /-- An assignment that the property, or its absence, does not allow. -/
  | readOnlyAssignment (key : Key)
  /-- A deletion of a non-configurable property. -/
  | undeletable (key : Key) (owner : Class)
  /-- A change of an array that its length, now `length`, does not allow. -/
  | frozenLength (length : Nat)
deriving DecidableEq

/-- Why an operation failed. -/
inductive Error where
  /-- A value given for an array's length that is not one. -/
  | invalidLength (value : Number)
  /-- A refusal by the object protocol. -/
  | refused (refusal : Refusal)
  /-- A call of a value of the given type, or of an object of the given class. -/
  | notCallable (what : String)
  /-- An object without a primitive value. -/
  | notPrimitive
  /-- An append to an array of the largest length. -/
  | lengthExhausted
  /-- More function calls inside one another than the host allows. -/
  | callDepth
  /-- A type error of the script's own. -/
  | typeError (text : String)
  /-- A range error of the script's own. -/
  | rangeError (text : String)
  /-- A value thrown by script code. -/
  | exception (value : Value)
deriving DecidableEq

/-- The class of an error as script code sees it. -/
inductive ErrorClass where
  | typeError
  | rangeError
  | exception
deriving DecidableEq

namespace Refusal

/-- The wording of a refusal. -/
def message : Refusal → String
  | notExtensible key => "Cannot define property, object is not extensible: " ++ key.text
  | fixedProperty key => "Cannot redefine property: " ++ key.text
  | readOnlyDefinition key => "Cannot assign to read only property: " ++ key.text
  | readOnlyAssignment key => "Cannot assign to read only property '" ++ key.text ++ "'"
  | undeletable key owner =>
    "Cannot delete property '" ++ key.text ++ "' of [object " ++ owner.text ++ "]"
  | frozenLength length => "Cannot modify array length beyond " ++ Index.textOfWord length

end Refusal

namespace Error

/-- The class of an error. -/
def kind : Error → ErrorClass
  | refused _ | notCallable _ | notPrimitive | typeError _ => .typeError
  | invalidLength _ | lengthExhausted | callDepth | rangeError _ => .rangeError
  | exception _ => .exception

/-- The wording of an error, led by its class. -/
def message (classOf : ObjectId → Class) : Error → String
  | invalidLength value => "RangeError: Invalid array length: " ++ value.render .plain
  | refused refusal => "TypeError: " ++ refusal.message
  | notCallable what => "TypeError: " ++ what ++ " is not a function"
  | notPrimitive => "TypeError: Cannot convert object to primitive value"
  | lengthExhausted => "RangeError: Pushing past the maximum array length"
  | callDepth => "RangeError: call depth"
  | typeError text => "TypeError: " ++ text
  | rangeError text => "RangeError: " ++ text
  | exception value => "Uncaught exception: " ++ value.describe classOf

end Error

end ObjectModel
