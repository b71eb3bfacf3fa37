import ObjectModel.Heap

/-!
# Inspection

Records of what can be seen of a value, an element storage or an object at one moment. They include what
no operation answers: how the elements of an array are represented.
-/

namespace ObjectModel

/-- What can be seen of a value. -/
structure ValueFacts where
  typeName : String
  truth : Bool
  isUndefined : Bool
  isPrimitive : Bool
  isCallable : Bool
  isObject : Bool
  number : Option Number
  int32 : Option Int
  text : String

/-- What can be seen of a value. -/
def Value.facts (classOf : ObjectId → Class) (v : Value) : ValueFacts where
  typeName := v.typeName classOf
  truth := v.toBoolean
  isUndefined := v.isUndefined
  isPrimitive := v.isPrimitive
  isCallable := v.isCallable classOf
  isObject := !v.isPrimitive
  number := v.number?
  int32 := v.number?.bind Number.toInt32?
  text := v.describe classOf

/-- The representation of a storage, and how much it holds. -/
structure ElementsSummary where
  dense : Bool
  capacity : Nat
  count : Nat
  smallest : Nat

/-- The representation of a storage, and how much it holds. -/
def Elements.summary {α : Type} (e : Elements α) : ElementsSummary where
  dense := e.isDense
  capacity := e.capacity
  count := e.count
  smallest := e.smallestIndex

/-- An object in brief. -/
structure ObjectSummary where
  length : Nat
  extensible : Bool
  /-- The storage of an array, and whether the array's length may be assigned. -/
  elements : Option (ElementsSummary × Bool)

/-- What can be seen of an object beside its properties. -/
structure ObjectProfile where
  kind : Class
  extensible : Bool
  prototype : Option ObjectId
  length : Nat
  smallest : Nat
  text : String

namespace Object

/-- An object in brief. -/
def summary (o : Object) : ObjectSummary where
  length := o.length
  extensible := o.extensible
  elements := o.elements?.map fun e => (e.summary, (o.find? .length).any Property.isWritable)

/-- The size of an object in words: how many properties the table has, and how many elements an array
has. -/
def describe (o : Object) : String :=
  let elements := match o.elements? with
    | some e => "Some(" ++ Nat.repr e.count ++ ")"
    | none => "None"
  "JsObject \x7b class: \"" ++ o.toClass.text ++ "\", properties: "
    ++ Nat.repr o.table.entries.length ++ ", elements: " ++ elements ++ " \x7d"

/-- What can be seen of an object beside its properties. -/
def profile (o : Object) : ObjectProfile where
  kind := o.toClass
  extensible := o.extensible
  prototype := o.prototype?
  length := o.length
  smallest := (o.elements?.map Elements.smallestIndex).getD 0
  text := o.describe

end Object

end ObjectModel
