import ObjectModel.Number.Literal
import ObjectModel.Protocol.Action

/-!
# Reading properties and converting values

An object is converted to a primitive value by its own methods `valueOf` and `toString`. They are looked
up and called one after the other, and the first primitive answer is taken. Reading a property is needed
for that, and comes first.
-/

namespace ObjectModel

/-- Which primitive value of an object is wanted. -/
inductive Hint where
  | number
  | string
deriving DecidableEq

/-- The methods that convert an object, in the order in which they are tried. -/
def Hint.methods : Hint → List Key
  | number => [.ofText "valueOf", .ofText "toString"]
  | string => [.ofText "toString", .ofText "valueOf"]

/-- The number of a primitive value. An object has none of its own. -/
def Value.primitiveNumber : Value → Number
  | undefined | object _ => .nan
  | null => .zero
  | boolean b => if b then .ofNat 1 else .zero
  | number n => n
  | string text => .ofText text

namespace Protocol

open ObjectModel.Action

variable {σ : Type} (run : Callback σ)

/-- The value of a property, own or inherited. A getter is called on the object that is read, not on the
one that has it. -/
def get (id : ObjectId) (key : Key) : Action σ Value := do
  match ← inspect (·.property? id key) with
  | none => pure .undefined
  | some (.data value _) => pure value
  | some (.accessor getter _ _) =>
    match getter.filter (!·.isUndefined) with
    | some f => call run f (.object id) []
    | none => pure .undefined

/-- The value of a property under an index, if there is one anywhere on the chain. -/
def tryGet (id : ObjectId) (i : Nat) : Action σ (Option Value) := do
  match ← inspect (·.property? id (.ofWord i)) with
  | none => pure none
  | some (.data value _) => pure (some value)
  | some (.accessor getter _ _) =>
    match getter with
    | some f => return some (← call run f (.object id) [])
    | none => pure (some .undefined)

/-- Tries conversion methods in order. A method that is no function, or whose answer is an object, gives
way to the next. -/
def firstPrimitive (id : ObjectId) : List Key → Action σ Value
  | [] => throw .notPrimitive
  | method :: rest => do
    let f ← get run id method
    if ← inspect fun h => f.isCallable h.classOf then
      let v ← call run f (.object id) []
      if v.isPrimitive then pure v else firstPrimitive id rest
    else
      firstPrimitive id rest

/-- The primitive value of a value. -/
def toPrimitive (hint : Hint) (v : Value) : Action σ Value :=
  match v with
  | .object id => firstPrimitive run id hint.methods
  | v => pure v

/-- The number of a value. -/
def toNumber (v : Value) : Action σ Number := do
  return (← toPrimitive run .number v).primitiveNumber

/-- The unsigned 32-bit word of a value. -/
def toUint32 (v : Value) : Action σ Nat := do
  return (← toNumber run v).toUint32

end Protocol

end ObjectModel
