import ObjectModel.Operation

/-!
# Routines and hosts

A `Routine` is a program over the objects. It performs operations one after the other, each chosen in
the light of the answers so far, failed operations included; it may keep a state of its own beside the
heap, and it may look at the heap directly. Every routine ends.

A `Host` gives function objects their behaviour: what a call does is a routine. Operations that a routine
performs may call further functions, and these calls nest. A host allows a certain depth. A call that
goes deeper fails, and the host is told; the depth is what makes every run end.
-/

namespace ObjectModel

/-- A program over the objects that keeps a state of type `σ` and ends with an `α`. -/
inductive Routine (σ α : Type) where
  /-- Ends. -/
  | finish (a : α)
  /-- Performs an operation and goes on with its answer or its error. -/
  | perform (op : Operation) (next : Except Error op.Answer → Routine σ α)
  /-- Reads the program's own state and changes it. -/
  | consult (update : σ → σ) (next : σ → Routine σ α)
  /-- Looks at the heap. -/
  | look (next : Heap → Routine σ α)

namespace Routine

variable {σ α β : Type}

/-- One routine after another. -/
def bind : Routine σ α → (α → Routine σ β) → Routine σ β
  | finish a, f => f a
  | perform op next, f => perform op fun r => (next r).bind f
  | consult update next, f => consult update fun s => (next s).bind f
  | look next, f => look fun h => (next h).bind f

instance : Monad (Routine σ) where
  pure := finish
  bind := bind

/-- Performs an operation and ends with its answer or its error. -/
def ask (op : Operation) : Routine σ (Except Error op.Answer) := perform op finish

/-- Ends with the program's own state. -/
def state : Routine σ σ := consult id finish

/-- Changes the program's own state. -/
def update (f : σ → σ) : Routine σ Unit := consult f fun _ => finish ()

/-- Ends with something read off the heap. -/
def observe (f : Heap → α) : Routine σ α := look fun h => finish (f h)

/-- Runs a routine, with `run` calling function objects. -/
def runWith (run : Callback σ) : Routine σ α → World σ → α × World σ
  | finish a, w => (a, w)
  | perform op next, w =>
    match op.perform run w with
    | .ok answer w => (next (.ok answer)).runWith run w
    | .error e w => (next (.error e)).runWith run w
  | consult update next, ⟨heap, host⟩ => (next host).runWith run ⟨heap, update host⟩
  | look next, w => (next w.heap).runWith run w

/-- A routine after another runs where the first one stopped. -/
theorem runWith_bind (run : Callback σ) (r : Routine σ α) (f : α → Routine σ β) (w : World σ) :
    (r.bind f).runWith run w = (f (r.runWith run w).1).runWith run (r.runWith run w).2 := by
  induction r generalizing w with
  | finish a => rfl
  | perform op next ih =>
    simp only [bind, runWith]
    split <;> exact ih _ _
  | consult update next ih => exact ih _ _
  | look next ih => exact ih _ _

end Routine

/-- What function objects do. -/
structure Host (σ : Type) where
  /-- What a call of a function object does, given `this` and the arguments. -/
  behaviour : ObjectId → Value → List Value → Routine σ (Except Error Value)
  /-- What the host keeps of a call that was not made for its depth. -/
  refused : ObjectId → σ → σ

namespace Host

variable {σ α : Type}

/-- Calls function objects, up to `depth` of them inside one another. -/
def call (host : Host σ) : (depth : Nat) → Callback σ
  | 0, f, _, _ => fun ⟨heap, s⟩ => .error .callDepth ⟨heap, host.refused f s⟩
  | depth + 1, f, this, arguments => fun w =>
    match (host.behaviour f this arguments).runWith (host.call depth) w with
    | (.ok value, w) => .ok value w
    | (.error e, w) => .error e w

/-- Runs a routine with calls up to `depth`. -/
def run (host : Host σ) (depth : Nat) (r : Routine σ α) (w : World σ) : α × World σ :=
  r.runWith (host.call depth) w

end Host

end ObjectModel
