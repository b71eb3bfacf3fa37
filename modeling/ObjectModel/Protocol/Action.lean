import ObjectModel.Heap

/-!
# Actions

The object protocol may run script code at certain points: when it calls a getter or a setter, and when
it converts an object to a primitive value. That code may change any object, also the one being worked
on. So the operations that can get there are *actions*: they start from a world and leave one behind,
whether they answer or fail.

A `World` is the heap beside the state of the host, the program that gives function objects their
behaviour. The protocol never looks at the host's state. All it knows of the host is a `Callback`, which
calls a function object, and it takes that as an argument.
-/

namespace ObjectModel

/-- The heap, and whatever state the host keeps. -/
structure World (σ : Type) where
  heap : Heap
  host : σ

/-- A computation that starts from a world, answers or fails, and leaves a world behind either way. -/
abbrev Action (σ : Type) := EStateM Error (World σ)

/-- What runs a function object: on the function, the `this` value and the arguments. -/
abbrev Callback (σ : Type) := ObjectId → Value → List Value → Action σ Value

namespace Action

variable {σ α : Type}

/-- Reads the heap. -/
def inspect (f : Heap → α) : Action σ α := fun w => .ok (f w.heap) w

/-- Changes one object. -/
def alter (id : ObjectId) (f : Object → α × Object) : Action σ α
  | ⟨heap, host⟩ =>
    let (a, heap) := heap.alter id f
    .ok a ⟨heap, host⟩

/-- Adds an object, made for the chain of its prototypes. -/
def allocate (prototype : Option ObjectId) (make : List ObjectId → Object) : Action σ ObjectId
  | ⟨heap, host⟩ =>
    let ancestors := (prototype.map heap.chain).getD []
    let (id, heap) := heap.allocate (make ancestors)
    .ok id ⟨heap, host⟩

/-- Reports a verdict. A refusal is an error if the caller is strict, and `false` if not. -/
def report (strict : Bool) : Verdict → Action σ Bool
  | .accepted => pure true
  | .refused r => if strict then throw (.refused r) else pure false

/-- Changes one object by an operation that may be refused. -/
def attempt (strict : Bool) (id : ObjectId) (f : Object → Verdict × Object) : Action σ Bool := do
  report strict (← alter id f)

/-- Calls a value. -/
def call (run : Callback σ) (callee this : Value) (arguments : List Value) : Action σ Value := do
  match callee with
  | .object f =>
    match ← inspect (·.classOf f) with
    | .function => run f this arguments
    | c => throw (.notCallable c.text)
  | v => throw (.notCallable (v.typeName fun _ => .object))

end Action

end ObjectModel
