import ObjectModel.Proofs.Protocol.Agreement
import ObjectModel.Routine

/-!
# Traces

A `trace` lists what happened in a run, in order: each call of a function object that the host was
given, and each operation with its answer or its error. Operations of the program and operations of
function objects, however deep, stand in one list, an operation after everything that happened on its
way. With each event stands the heap at that moment. Script code has its turn at these moments only, so
they are all the states of the heap that a run lets anyone see.

The trace comes from the run itself. A host is made into one that keeps a record beside its own state,
and a program into one that notes each answer. Nothing of the program or of the host can depend on the
record; `History` shows that both go on as they would without it.
-/

namespace ObjectModel

variable {σ τ α : Type}

/-! ## Events -/

/-- What happens in a run. -/
inductive Happening where
  /-- A function object was called. -/
  | called (f : ObjectId) (this : Value) (arguments : List Value)
  /-- An operation was performed, with this answer or error. -/
  | performed (op : Operation) (result : Except Error op.Answer)

/-- Something that happened, and the heap at that moment: at the beginning of a call, and at the end of
an operation. -/
structure Event where
  happening : Happening
  heap : Heap

namespace Event

/-- An operation took away the property of an object under a key without asking. -/
def removes (e : Event) (id : ObjectId) (key : Key) : Bool :=
  match e.happening with
  | .performed (.remove id' key') _ => id' == id && key' == key
  | _ => false

/-- An operation defined a property of an object by the rules that hold for all objects. -/
def ordinaryDefines (e : Event) (id : ObjectId) : Bool :=
  match e.happening with
  | .performed (.ordinaryDefine id' _ _ _) _ => id' == id
  | _ => false

/-- An operation took away the length of an array. -/
def removesLength (e : Event) : Bool :=
  match e.happening with
  | .performed (.remove id key) _ => key.isLength && e.heap.classOf id == .array
  | _ => false

/-- An operation defined a property of an array by the rules that hold for all objects. -/
def bypassesArray (e : Event) : Bool :=
  match e.happening with
  | .performed (.ordinaryDefine id _ _ _) _ => e.heap.classOf id == .array
  | _ => false

section

variable {op : Operation} {result : Except Error op.Answer} {h : Heap} {id : ObjectId} {e : Edit}

/-- An operation that took no array's length away did not edit an array so. -/
theorem ne_length_of_removesLength (made : op.unruledEdit? = some (id, e))
    (kept : removesLength ⟨.performed op result, h.edit id e⟩ = false) (key : Key)
    (erases : e = .erase key) (array : h.classOf id = .array) : key ≠ .length := by
  subst erases
  cases op <;> cases made
  rintro rfl
  have hkept : (Key.length.isLength && (h.edit id (.erase .length)).classOf id == .array) = false := kept
  rw [Heap.classOf_edit, array] at hkept
  cases hkept

/-- An operation that did not take the property under a key away did not edit the object so. -/
theorem ne_of_removes {other : ObjectId} {key : Key} (made : op.unruledEdit? = some (id, e))
    (kept : removes ⟨.performed op result, h.edit id e⟩ other key = false) (key' : Key)
    (erases : e = .erase key') (same : id = other) : key' ≠ key := by
  subst erases same
  cases op <;> cases made
  rintro rfl
  simp [removes] at kept

/-- An operation that made no ordinary definition of an object did not edit the object so. -/
theorem ne_ordinaryDefine {other : ObjectId} (made : op.unruledEdit? = some (id, e))
    (byRules : ordinaryDefines ⟨.performed op result, h.edit id e⟩ other = false) (same : id = other)
    (key : Key) (d : Descriptor) : e ≠ .ordinaryDefine key d := by
  rintro rfl
  subst same
  cases op <;> cases made
  simp [ordinaryDefines] at byRules

end

end Event

/-- A host's state, and what has happened so far. -/
structure Recorded (σ : Type) where
  host : σ
  log : List Event := []

namespace Recorded

/-- Adds an event to the record. -/
def note (happening : Happening) (heap : Heap) (r : Recorded σ) : Recorded σ :=
  { r with log := r.log ++ [⟨happening, heap⟩] }

/-- Changes the host's state. -/
def update (f : σ → σ) (r : Recorded σ) : Recorded σ := { r with host := f r.host }

end Recorded

/-! ## Recording -/

namespace Routine

/-- Notes something in the record and goes on. -/
def noting (happening : Happening) (rest : Routine (Recorded σ) α) : Routine (Recorded σ) α :=
  look fun heap => consult (Recorded.note happening heap) fun _ => rest

/-- The program that notes each operation in the record. -/
def recorded : Routine σ α → Routine (Recorded σ) α
  | finish a => finish a
  | perform op next => perform op fun result => noting (.performed op result) (next result).recorded
  | consult update next => consult (Recorded.update update) fun r => (next r.host).recorded
  | look next => look fun heap => (next heap).recorded

end Routine

namespace Host

/-- A host whose function objects do nothing and answer `undefined`. -/
def idle : Host Unit where
  behaviour _ _ _ := .finish (.ok .undefined)
  refused _ s := s

/-- The host that notes each call in the record, and the operations of its function objects. -/
def recorded (host : Host σ) : Host (Recorded σ) where
  behaviour f this arguments :=
    .noting (.called f this arguments) (host.behaviour f this arguments).recorded
  refused f := Recorded.update (host.refused f)

/-- A run with its record. -/
def record (host : Host σ) (depth : Nat) (r : Routine σ α) (w : World σ) : α × World (Recorded σ) :=
  host.recorded.run depth r.recorded ⟨w.heap, { host := w.host }⟩

/-- What happens in a run. -/
def trace (host : Host σ) (depth : Nat) (r : Routine σ α) (w : World σ) : List Event :=
  (host.record depth r w).2.host.log

end Host

/-! ## Agreement of runs -/

variable {R S : World σ → World τ → Prop}

namespace Routine

variable {run : Callback σ} {run' : Callback τ} {w : World σ} {w' : World τ}

/-- A program goes on with the outcome of the operation that it performs. -/
theorem runWith_perform (run : Callback σ) (op : Operation)
    (next : Except Error op.Answer → Routine σ α) (w : World σ) :
    (perform op next).runWith run w
      = (next ((op.perform run).outcome w).1).runWith run ((op.perform run).outcome w).2 := by
  rw [runWith, Action.outcome]
  cases op.perform run w <;> rfl

/-- Two programs, each run from its own world, end with the same answer and leave worlds in a
relation. -/
def Agree (R : World σ → World τ → Prop) (run : Callback σ) (run' : Callback τ) (r : Routine σ α)
    (r' : Routine τ α) (w : World σ) (w' : World τ) : Prop :=
  (r.runWith run w).1 = (r'.runWith run' w').1 ∧ R (r.runWith run w).2 (r'.runWith run' w').2

/-- Programs agree if the operations that they begin with agree and they do from there on. The
operations may leave worlds in a relation of its own. -/
theorem Agree.perform {op : Operation} {next : Except Error op.Answer → Routine σ α}
    {next' : Except Error op.Answer → Routine τ α}
    (first : ObjectModel.Agree S (op.perform run) (op.perform run') w w')
    (rest : ∀ result v v', S v v' → Agree R run run' (next result) (next' result) v v') :
    Agree R run run' (.perform op next) (.perform op next') w w' := by
  obtain ⟨hanswer, hworlds⟩ := first
  rw [Agree, runWith_perform, runWith_perform, ← hanswer]
  exact rest _ _ _ hworlds

end Routine

namespace Host

/-- A call within the depth has the outcome of the function object's behaviour. -/
theorem outcome_call (host : Host σ) (depth : Nat) (f : ObjectId) (this : Value)
    (arguments : List Value) (w : World σ) :
    (host.call (depth + 1) f this arguments).outcome w
      = (host.behaviour f this arguments).runWith (host.call depth) w := by
  rw [Action.outcome, call]
  beta_reduce
  generalize (host.behaviour f this arguments).runWith (host.call depth) w = ended
  obtain ⟨_ | _, v⟩ := ended <;> rfl

/-- Calls agree at every depth if the hosts' function objects agree whenever the calls that they make
do, and the hosts keep the relation when they refuse a call. -/
theorem calls_agree {host : Host σ} {host' : Host τ}
    (refused : ∀ f w w', R w w' →
      R ⟨w.heap, host.refused f w.host⟩ ⟨w'.heap, host'.refused f w'.host⟩)
    (behaviour : ∀ run run', Protocol.CallsAgree R run run' → ∀ f this arguments w w', R w w' →
      Routine.Agree R run run' (host.behaviour f this arguments) (host'.behaviour f this arguments)
        w w')
    (depth : Nat) : Protocol.CallsAgree R (host.call depth) (host'.call depth) := by
  induction depth with
  | zero =>
    intro f this arguments w w' h
    exact ⟨rfl, refused f w w' h⟩
  | succ depth ih =>
    intro f this arguments w w' h
    rw [Agree, outcome_call, outcome_call]
    exact behaviour _ _ ih f this arguments w w' h

end Host

end ObjectModel
