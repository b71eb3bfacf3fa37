import ObjectModel.Operation
import ObjectModel.Script.Span

/-!
# Scripts

A script is a list of steps over named objects. A step makes an object, does something to one, converts,
compares or calls values, or repeats another step over a span of positions. A function object has a body
that is a script too: each call runs its steps and ends in a way that the body fixes.

Steps are written with *operands*, which get their values when the step runs: an object by its name, the
`this` value and the arguments of the call under way, and the position at which a repeated step stands.
-/

namespace ObjectModel.Script

/-- A value as a step writes it. -/
inductive Operand where
  /-- A value that the step gives itself. -/
  | value (v : Value)
  /-- The object of a name. -/
  | object (name : String)
  /-- The `this` value of the call under way. -/
  | this
  /-- An argument of the call under way. -/
  | argument (i : Nat)
  /-- The position of the repetition under way, as a number. -/
  | position

/-- Something that a step gives itself or takes from the position of the repetition under way. -/
inductive Located (α : Type) where
  | given (a : α)
  | position

/-- A definition as a step writes it. -/
structure DescriptorForm where
  value : Option Operand := none
  writable : Option Bool := none
  get : Option Operand := none
  set : Option Operand := none
  enumerable : Option Bool := none
  configurable : Option Bool := none

/-- The object that a step is about. -/
inductive Subject where
  | named (name : String)
  /-- The `this` value of the call under way. -/
  | this

/-- What a step does to its object. -/
inductive Deed where
  | put (key : Located Key) (value : Operand) (strict : Bool)
  | get (key : Located Key)
  | getOwn (key : Located Key)
  | getProperty (key : Located Key)
  | hasOwn (key : Located Key)
  | has (key : Located Key)
  | canPut (key : Located Key)
  | define (key : Located Key) (form : DescriptorForm) (strict : Bool)
  | ordinaryDefine (key : Located Key) (form : DescriptorForm) (strict : Bool)
  /-- Defines a property as another object has it. -/
  | copy (source : String) (key : Located Key) (strict : Bool)
  | delete (key : Located Key) (strict : Bool)
  | remove (key : Located Key)
  | setIndex (i : Located Nat) (value : Operand) (strict : Bool)
  | tryGet (i : Located Nat)
  | push (value : Operand)
  | pop
  | preventExtensions
  | keys
  | properties
  /-- Begins an enumeration and gives it a name. -/
  | enumerate (cursor : String)
  | call (receiver : Operand) (arguments : List Operand)
  /-- Looks at everything but the properties. -/
  | profile
  /-- Looks at the occupied positions of an array's storage and its thresholds. -/
  | elements
  /-- Looks at one position of an array's storage. -/
  | slot (i : Located Nat)

/-- How a call of a function ends. -/
inductive Ending where
  | fail (thrown : Operand)
  | typeError (text : String)
  | rangeError (text : String)
  | this
  | argument (i : Nat)
  /-- With the number of calls of the function so far. -/
  | callCount
  | value (v : Operand)

/-- What a function does when called. -/
structure Body (step : Type) where
  /-- The steps to run, if it has any. -/
  steps : Option (List step) := none
  /-- Whether the error of a step ends the call. -/
  propagate : Bool := false
  /-- How the call ends otherwise. -/
  ending : Ending

/-- A step of a script. -/
inductive Step where
  | newObject (name : String) (parent : Option String)
  | newArray (name : String) (parent : Option String) (capacity : Nat) (limits : Limits)
  | newArrayOf (name : String) (values : List Operand)
  | newFunction (name : String) (body : Body Step)
  | on (subject : Subject) (deed : Deed)
  | toNumber (v : Operand)
  | toUint32 (v : Operand)
  | toPrimitive (hint : Hint) (v : Operand)
  | facts (v : Operand)
  | compare (a b : Operand)
  | call (callee receiver : Operand) (arguments : List Operand)
  /-- Takes steps of a named enumeration. -/
  | next (cursor : String) (count : Nat)
  /-- Runs a step at every position of a span, until one fails. -/
  | each (span : Span) (step : Step)

end ObjectModel.Script
