import ObjectModel.Inspection
import ObjectModel.Script.Step

/-!
# Sessions

The state that a running script keeps beside the heap: what the objects are called, what the functions
do and how often they were called, the enumerations under way, and the record of the calls made since
the last step of the script itself.
-/

namespace ObjectModel.Script

/-- What a step answers. -/
inductive Reply where
  | done
  | absent
  | flag (b : Bool)
  | value (v : Value)
  | number (n : Number)
  | word (n : Nat)
  | property (p : Property)
  | keys (ks : List Key)
  | properties (ps : List (Key × Property))
  /-- Steps of an enumeration, `none` past its end. -/
  | entries (es : List (Option (Key × Property)))
  /-- How often a repeated step ran, and how often its reply was true. -/
  | tally (runs hits : Nat)
  | comparison (same equal : Bool)
  | facts (f : ValueFacts)
  | profile (p : ObjectProfile)
  | elements (indices : List Nat) (limits : Limits)
  | slot (contains : Bool) (p : Option Property)

/-- Whether a reply is a plain yes. -/
def Reply.isTrue : Reply → Bool
  | done => true
  | flag b => b
  | value (.boolean b) => b
  | _ => false

/-- What came of a step, and the object that it was about as the step left it. -/
structure Report where
  result : Except Error Reply
  subject : Option ObjectSummary

/-- A call of a function. -/
structure CallRecord where
  function : ObjectId
  this : Value
  arguments : List Value
  /-- What came of the steps of the function's body, if it has steps. -/
  reports : Option (List Report)

/-- A function of the script. -/
structure FunctionState where
  id : ObjectId
  body : Body Step
  /-- How often it was called, calls refused for their depth included. -/
  calls : Nat := 0

/-- The state of a running script beside the heap. -/
structure Session where
  /-- The names in the order in which the objects were made. -/
  names : List (String × ObjectId) := []
  functions : List FunctionState := []
  cursors : List (String × Cursor) := []
  /-- The calls in the order in which they began. -/
  record : List CallRecord := []

namespace Session

/-- The object that a name was last given to. -/
def lookup? (s : Session) (name : String) : Option ObjectId := s.names.reverse.lookup name

/-- The name that an object was made under. -/
def nameOf (s : Session) (id : ObjectId) : String :=
  ((s.names.find? (·.2 = id)).map Prod.fst).getD ""

/-- Names a new object. -/
def declare (name : String) (id : ObjectId) (s : Session) : Session :=
  { s with names := s.names ++ [(name, id)] }

/-- Gives a function object its body. -/
def addFunction (id : ObjectId) (body : Body Step) (s : Session) : Session :=
  { s with functions := s.functions ++ [{ id, body }] }

/-- The function of an object. -/
def function? (s : Session) (id : ObjectId) : Option FunctionState :=
  s.functions.find? (·.id = id)

/-- Counts a call. -/
def countCall (id : ObjectId) (s : Session) : Session :=
  { s with functions := s.functions.map fun f =>
      if f.id = id then { f with calls := f.calls + 1 } else f }

/-- The enumeration of a name. -/
def cursor? (s : Session) (name : String) : Option Cursor := s.cursors.lookup name

/-- Sets the enumeration of a name. -/
def setCursor (name : String) (c : Cursor) (s : Session) : Session :=
  { s with cursors := (name, c) :: s.cursors.filter (·.1 ≠ name) }

/-- Forgets the calls recorded so far. -/
def clearRecord (s : Session) : Session := { s with record := [] }

/-- Begins the record of a call. -/
def recordCall (call : CallRecord) (s : Session) : Session :=
  { s with record := s.record ++ [call] }

/-- Adds a report to the record of a call, which is given by its place. -/
def recordReport (place : Nat) (report : Report) (s : Session) : Session :=
  { s with record := s.record.modify place fun c =>
      { c with reports := some (c.reports.getD [] ++ [report]) } }

end Session

/-- The call under way, and the position of the repetition under way. -/
structure Scope where
  this : Value := .undefined
  arguments : List Value := []
  position : Nat := 0

/-- The value of an operand. A name that no object has stands for `undefined`, and so does an argument
that was not given. -/
def Operand.eval (s : Session) (scope : Scope) : Operand → Value
  | value v => v
  | object name => ((s.lookup? name).map Value.object).getD .undefined
  | this => scope.this
  | argument i => scope.arguments[i]?.getD .undefined
  | position => .ofNat scope.position

/-- The key that is meant: the given one, or the one of the position. -/
def Located.key (scope : Scope) : Located Key → Key
  | given key => key
  | position => .ofWord scope.position

/-- The 32-bit word that is meant: the given one, or the position. -/
def Located.word (scope : Scope) : Located Nat → Nat
  | given i => i
  | position => scope.position

/-- The definition that a form stands for. -/
def DescriptorForm.eval (s : Session) (scope : Scope) (f : DescriptorForm) : Descriptor where
  value := f.value.map (·.eval s scope)
  writable := f.writable
  get := f.get.map (·.eval s scope)
  set := f.set.map (·.eval s scope)
  enumerable := f.enumerable
  configurable := f.configurable

/-- The object that a step is about. -/
def Subject.resolve? (s : Session) (scope : Scope) : Subject → Option ObjectId
  | named name => s.lookup? name
  | this =>
    match scope.this with
    | .object id => some id
    | _ => none

end ObjectModel.Script
