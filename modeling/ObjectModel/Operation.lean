import ObjectModel.Protocol.Ends

/-!
# Operations

`Operation` lists what can be asked of the objects: making them, reading and changing their properties,
enumerating them, and converting and calling values. Each operation has a type of answers, and
`Operation.perform` is the action that carries it out.

None of the answers depends on how an array's elements are represented. Looking at the representation is
no operation; a host that wants to do so looks at the heap.
-/

namespace ObjectModel

/-- Something to be asked of the objects. -/
inductive Operation where
  /-- Makes an object without properties. -/
  | newObject (parent : Option ObjectId)
  /-- Makes an empty array. -/
  | newArray (parent : Option ObjectId) (capacity : Nat) (limits : Limits)
  /-- Makes an array of values. -/
  | newArrayOf (values : List Value)
  /-- Makes a function object. -/
  | newFunction
  /-- Defines a property. -/
  | define (id : ObjectId) (key : Key) (d : Descriptor) (strict : Bool)
  /-- Defines a property by the rules that hold for all objects. -/
  | ordinaryDefine (id : ObjectId) (key : Key) (d : Descriptor) (strict : Bool)
  /-- Deletes a property. -/
  | delete (id : ObjectId) (key : Key) (strict : Bool)
  /-- Takes a property away without asking whether it may be deleted. -/
  | remove (id : ObjectId) (key : Key)
  /-- Ends the adding of properties to an object. -/
  | preventExtensions (id : ObjectId)
  /-- Reads a value. -/
  | get (id : ObjectId) (key : Key)
  /-- Reads a value under a 32-bit word, if there is a property at all. -/
  | tryGet (id : ObjectId) (i : Nat)
  /-- Assigns a value. -/
  | put (id : ObjectId) (key : Key) (value : Value) (strict : Bool)
  /-- Assigns a value under a 32-bit word. -/
  | setIndex (id : ObjectId) (i : Nat) (value : Value) (strict : Bool)
  /-- Appends a value. -/
  | push (id : ObjectId) (value : Value)
  /-- Removes the last element. -/
  | pop (id : ObjectId)
  /-- Looks up an own property. -/
  | getOwn (id : ObjectId) (key : Key)
  /-- Looks up a property along the chain. -/
  | getProperty (id : ObjectId) (key : Key)
  /-- Asks for an own property. -/
  | hasOwn (id : ObjectId) (key : Key)
  /-- Asks for a property along the chain. -/
  | has (id : ObjectId) (key : Key)
  /-- Asks whether an assignment is allowed. -/
  | canPut (id : ObjectId) (key : Key)
  /-- Asks for an object's class. -/
  | classOf (id : ObjectId)
  /-- Asks for an object's prototype. -/
  | prototype (id : ObjectId)
  /-- Asks for an object's length. -/
  | length (id : ObjectId)
  /-- Asks whether an object takes new properties. -/
  | isExtensible (id : ObjectId)
  /-- Lists the keys of an object. -/
  | keys (id : ObjectId)
  /-- Lists the properties of an object. -/
  | properties (id : ObjectId)
  /-- Begins an enumeration. -/
  | enumerate (id : ObjectId)
  /-- Takes the next step of an enumeration. -/
  | next (cursor : Cursor)
  /-- Converts a value to a primitive one. -/
  | toPrimitive (hint : Hint) (v : Value)
  /-- Converts a value to a number. -/
  | toNumber (v : Value)
  /-- Converts a value to a 32-bit word. -/
  | toUint32 (v : Value)
  /-- Calls a value. -/
  | call (callee this : Value) (arguments : List Value)

namespace Operation

/-- The type of an operation's answers. -/
def Answer : Operation → Type
  | newObject .. | newArray .. | newArrayOf .. | newFunction => ObjectId
  | define .. | ordinaryDefine .. | delete .. => Bool
  | remove .. | preventExtensions .. | put .. | setIndex .. => Unit
  | get .. | pop .. | toPrimitive .. | call .. => Value
  | tryGet .. => Option Value
  | push .. | length .. | toUint32 .. => Nat
  | getOwn .. | getProperty .. => Option Property
  | hasOwn .. | has .. | canPut .. | isExtensible .. => Bool
  | classOf .. => Class
  | prototype .. => Option ObjectId
  | keys .. => List Key
  | properties .. => List (Key × Property)
  | enumerate .. => Cursor
  | next .. => Option (Key × Property) × Cursor
  | toNumber .. => Number

variable {σ : Type}

open ObjectModel.Action

/-- Carries an operation out. -/
def perform (run : Callback σ) : (op : Operation) → Action σ op.Answer
  | newObject parent => allocate parent Object.ordinary
  | newArray parent capacity limits => allocate parent (Object.array · capacity limits)
  | newArrayOf values => allocate none fun _ => Object.arrayOf values
  | newFunction => allocate none fun _ => Object.function
  | define id key d strict => Protocol.define run id key d strict
  | ordinaryDefine id key d strict => Protocol.ordinaryDefine id key d strict
  | delete id key strict => Protocol.delete id key strict
  | remove id key => alter id fun o => ((), o.erase key)
  | preventExtensions id => alter id fun o => ((), o.preventExtensions)
  | get id key => Protocol.get run id key
  | tryGet id i => Protocol.tryGet run id i
  | put id key value strict => Protocol.put run id key value strict
  | setIndex id i value strict => Protocol.setIndex run id i value strict
  | push id value => Protocol.push run id value
  | pop id => Protocol.pop run id
  | getOwn id key => inspect fun h => (h.get id).find? key
  | getProperty id key => inspect (·.property? id key)
  | hasOwn id key => inspect fun h => (h.get id).has key
  | has id key => inspect fun h => (h.property? id key).isSome
  | canPut id key => inspect (·.canPut id key)
  | classOf id => inspect (·.classOf id)
  | prototype id => inspect fun h => (h.get id).prototype?
  | length id => inspect fun h => (h.get id).length
  | isExtensible id => inspect fun h => (h.get id).extensible
  | keys id => inspect fun h => (h.get id).keys
  | properties id => inspect fun h => (h.get id).properties
  | enumerate id => inspect fun h => ⟨id, (h.get id).keys⟩
  | next cursor => inspect (·.next cursor)
  | toPrimitive hint v => Protocol.toPrimitive run hint v
  | toNumber v => Protocol.toNumber run v
  | toUint32 v => Protocol.toUint32 run v
  | call callee this arguments => Action.call run callee this arguments

end Operation

end ObjectModel
