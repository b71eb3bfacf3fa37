import ObjectModel.Proofs.Object.Edit

/-!
# Outcomes

The `outcome` of an action is what it answers and the world that it leaves. Everything that is said of
the protocol is said of outcomes, and this module says how they come about: those of the actions that
the protocol is made of, and from them those of definitions and assignments.

A definition converts a value at most once, and does that first. Then it makes a single edit.
-/

namespace ObjectModel

open ObjectModel.Action

variable {σ α β : Type}

namespace Action

/-- What an action answers, and the world that it leaves. -/
def outcome (act : Action σ α) (w : World σ) : Except Error α × World σ :=
  match act w with
  | .ok a w => (.ok a, w)
  | .error e w => (.error e, w)

/-- Reading the heap changes nothing. -/
theorem outcome_inspect (f : Heap → α) (w : World σ) : outcome (inspect f) w = (.ok (f w.heap), w) :=
  rfl

/-- An action goes on from the answer of another, unless that one fails. -/
theorem outcome_bind (act : Action σ α) (k : α → Action σ β) (w : World σ) :
    outcome (act >>= k) w
      = match outcome act w with
        | (.ok a, v) => outcome (k a) v
        | (.error e, v) => (.error e, v) := by
  show outcome (EStateM.bind act k) w = _
  simp only [outcome, EStateM.bind]
  cases act w <;> rfl

/-- An action goes on from what it reads. -/
theorem outcome_inspect_bind (f : Heap → α) (k : α → Action σ β) (w : World σ) :
    outcome (inspect f >>= k) w = outcome (k (f w.heap)) w := by
  rw [outcome_bind, outcome_inspect]

/-- An answer may be changed after the action. -/
theorem outcome_map (f : α → β) (act : Action σ α) (w : World σ) :
    outcome (f <$> act) w = ((outcome act w).1.map f, (outcome act w).2) := by
  show outcome (EStateM.map f act) w = _
  simp only [outcome, EStateM.map]
  cases act w <;> rfl

/-- An answer may be given up after the action. -/
theorem outcome_discard (act : Action σ α) (w : World σ) :
    outcome (discard act) w = ((outcome act w).1.map fun _ => (), (outcome act w).2) :=
  outcome_map _ act w

end Action

namespace World

/-- The world with one object edited. -/
def edit (w : World σ) (id : ObjectId) (e : Edit) : World σ := ⟨w.heap.edit id e, w.host⟩

/-- The world with a new object. -/
def allocate (w : World σ) (o : Object) : World σ := ⟨(w.heap.allocate o).2, w.host⟩

/-- The world is left as it is by an edit that leaves the object as it is. -/
theorem edit_of_same {w : World σ} {id : ObjectId} {e : Edit}
    (same : e.apply (w.heap.get id) = w.heap.get id) : w.edit id e = w := by
  rw [edit, Heap.edit, Heap.alter_of_same same]

/-- An edit takes no object away. -/
theorem has_edit {w : World σ} {id : ObjectId} (inHeap : w.heap.Has id) (e : Edit) :
    (w.edit id e).heap.Has id := by
  rw [Heap.Has, edit, Heap.size_edit]
  exact inHeap

/-- An edited object reads as edited. -/
theorem get_edit {w : World σ} {id : ObjectId} (inHeap : w.heap.Has id) (e : Edit) :
    (w.edit id e).heap.get id = e.apply (w.heap.get id) :=
  (w.heap.get_edit id e inHeap id).trans (if_pos rfl)

/-- A new object reads as it was made. -/
theorem get_allocate (w : World σ) (o : Object) :
    (w.allocate o).heap.get ⟨w.heap.objects.size⟩ = o :=
  (w.heap.get_allocate o ⟨w.heap.objects.size⟩).trans (if_pos rfl)

end World

/-- A change of one object, as an action. -/
theorem Action.outcome_alter (id : ObjectId) (f : Object → α × Object) (w : World σ) :
    outcome (alter id f) w
      = (.ok (f (w.heap.get id)).1, ⟨(w.heap.alter id f).2, w.host⟩) := by
  rw [← Heap.fst_alter w.heap id f]
  rfl

/-- The making of an object, as an action. -/
theorem Action.outcome_allocate (parent : Option ObjectId) (make : List ObjectId → Object)
    (w : World σ) :
    outcome (Action.allocate parent make) w
      = (.ok (w.heap.allocate (make ((parent.map w.heap.chain).getD []))).1,
          w.allocate (make ((parent.map w.heap.chain).getD []))) := rfl

/-- How a verdict is reported. -/
def Verdict.answer (strict : Bool) : Verdict → Except Error Bool
  | accepted => .ok true
  | refused r => if strict then .error (.refused r) else .ok false

/-- A report changes nothing. -/
theorem Action.outcome_report (strict : Bool) (verdict : Verdict) (w : World σ) :
    (report strict verdict).outcome w = (verdict.answer strict, w) := by
  cases verdict with
  | accepted => rfl
  | refused r => cases strict <;> rfl

/-- An edit that may be refused has the reported verdict for an answer. -/
theorem Action.outcome_attempt (strict : Bool) (id : ObjectId) (f : Object → Verdict × Object)
    (w : World σ) :
    (attempt strict id f).outcome w
      = ((f (w.heap.get id)).1.answer strict, ⟨(w.heap.alter id f).2, w.host⟩) := by
  rw [attempt, outcome_bind, outcome_alter]
  dsimp only
  rw [outcome_report]

/-! ## Calls -/

/-- A function object is called by the host. -/
theorem Action.outcome_call_function (run : Callback σ) {w : World σ} {f : ObjectId}
    (function : w.heap.classOf f = .function) (this : Value) (arguments : List Value) :
    (call run (.object f) this arguments).outcome w = (run f this arguments).outcome w := by
  rw [call, outcome_inspect_bind, function]

/-- The call of a value that is no function is a type error. -/
theorem Action.outcome_call_of_not_callable (run : Callback σ) {w : World σ} {callee : Value}
    (notCallable : callee.isCallable w.heap.classOf = false) (this : Value) (arguments : List Value) :
    ∃ what, (call run callee this arguments).outcome w = (.error (.notCallable what), w) := by
  cases callee with
  | object f =>
    rw [Value.isCallable, beq_eq_false_iff_ne] at notCallable
    rw [call, outcome_inspect_bind]
    split
    · next function => exact absurd function notCallable
    · exact ⟨_, rfl⟩
  | undefined | null | boolean _ | number _ | string _ => exact ⟨_, rfl⟩

/-- A call is one call of the host, or a type error. -/
theorem Action.outcome_call_cases (run : Callback σ) (w : World σ) (callee this : Value)
    (arguments : List Value) :
    (∃ f, callee = .object f ∧ w.heap.classOf f = .function
        ∧ (call run callee this arguments).outcome w = (run f this arguments).outcome w)
      ∨ callee.isCallable w.heap.classOf = false
        ∧ ∃ e : Error, e.kind = .typeError
          ∧ (call run callee this arguments).outcome w = (.error e, w) := by
  cases hcallable : callee.isCallable w.heap.classOf with
  | false =>
    obtain ⟨what, hwhat⟩ := outcome_call_of_not_callable run hcallable this arguments
    exact .inr ⟨rfl, .notCallable what, rfl, hwhat⟩
  | true =>
    cases callee with
    | object f =>
      have function : w.heap.classOf f = .function := beq_iff_eq.1 hcallable
      exact .inl ⟨f, rfl, function, outcome_call_function run function this arguments⟩
    | undefined | null | boolean _ | number _ | string _ => cases hcallable

namespace Protocol

variable {w : World σ} {id : ObjectId} {key : Key} {d : Descriptor}

/-! ## Definitions -/

/-- The value that the definition of a property converts to a number first: the one that is named for
the length of an array. -/
def converts (h : Heap) (id : ObjectId) (key : Key) (d : Descriptor) : Option Value :=
  if (h.get id).isArray && key.isLength then d.value else none

/-- Only the length of an array has its value converted. -/
theorem eq_length_of_converts {h : Heap} {value : Value} (converting : converts h id key d = some value) :
    key = .length := by
  rw [converts, Option.ite_none_right_eq_some, Bool.and_eq_true] at converting
  exact Key.isLength_iff.1 converting.1.2

/-- The definition of an array's length converts the value that it names. -/
theorem converts_length {value : Value} (array : (w.heap.get id).isArray = true)
    (named : d.value = some value) : converts w.heap id .length d = some value := by
  rw [converts, array, if_pos (Bool.and_eq_true_iff.2 ⟨rfl, Key.isLength_iff.2 rfl⟩), named]

/-- The definition of a property under an index converts nothing. -/
theorem converts_index (h : Heap) (id : ObjectId) (i : Index) (d : Descriptor) :
    converts h id (.index i) d = none :=
  if_neg (by simp [Key.isLength, Key.isName])

/-- A definition that converts nothing is one edit. -/
theorem outcome_define (run : Callback σ) (plain : converts w.heap id key d = none) (strict : Bool) :
    (define run id key d strict).outcome w
      = (((w.heap.get id).define key d).1.answer strict, w.edit id (.define key d)) := by
  rw [converts] at plain
  rw [define, outcome_inspect_bind]
  split
  · next hlength =>
    rw [if_pos hlength] at plain
    rw [plain]
    exact outcome_attempt strict id (·.define key d) w
  · exact outcome_attempt strict id (·.define key d) w

/-- The world in which a definition is decided on: after the conversion of a value, if there is one. -/
def converted (run : Callback σ) (id : ObjectId) (key : Key) (d : Descriptor) (w : World σ) : World σ :=
  match converts w.heap id key d with
  | some value => ((toNumber run value).outcome w).2
  | none => w

/-- The outcome of the definition of an array's length with a number, from where that number is known. -/
def afterConversion (id : ObjectId) (d : Descriptor) (strict : Bool) (x : Number) (w : World σ) :
    Except Error Bool × World σ :=
  if (Number.ofNat x.toUint32).equals x then
    (((w.heap.get id).defineLength x.toUint32 d).1.answer strict,
      w.edit id (.defineLength x.toUint32 d))
  else
    (.error (.invalidLength x), w)

/-- The conversion of a primitive value to a number calls nothing. -/
theorem outcome_toNumber (run : Callback σ) {value : Value} (primitive : value.isPrimitive = true)
    (w : World σ) : (toNumber run value).outcome w = (.ok value.primitiveNumber, w) := by
  cases value with
  | object => cases primitive
  | undefined | null | boolean _ | number _ | string _ => rfl

/-- A definition that converts a value goes on from its number, unless the conversion fails. -/
theorem outcome_define_converting (run : Callback σ) {value : Value}
    (converting : converts w.heap id key d = some value) (strict : Bool) :
    (define run id key d strict).outcome w
      = match (toNumber run value).outcome w with
        | (.ok x, v) => afterConversion id d strict x v
        | (.error e, v) => (.error e, v) := by
  rw [converts, Option.ite_none_right_eq_some] at converting
  rw [define, outcome_inspect_bind, if_pos converting.1, converting.2]
  dsimp only
  rw [defineLength, outcome_bind]
  obtain ⟨e | x, v⟩ := (toNumber run value).outcome w
  · rfl
  · dsimp only
    rw [afterConversion]
    split
    · exact outcome_attempt strict id (·.defineLength _ d) v
    · rfl

/-- A definition that converts a primitive value is decided on at once, by the number of the value. -/
theorem outcome_define_primitive (run : Callback σ) {value : Value}
    (converting : converts w.heap id key d = some value) (primitive : value.isPrimitive = true)
    (strict : Bool) :
    (define run id key d strict).outcome w = afterConversion id d strict value.primitiveNumber w := by
  rw [outcome_define_converting run converting, outcome_toNumber run primitive]

/-- A definition leaves the world that the conversion left, or makes one edit of it: the definition of a
length if something was converted, and of the property as it is asked for if not. -/
theorem world_define_cases (run : Callback σ) (w : World σ) (id : ObjectId) (key : Key) (d : Descriptor)
    (strict : Bool) :
    ((define run id key d strict).outcome w).2 = converted run id key d w
      ∨ converts w.heap id key d = none
        ∧ ((define run id key d strict).outcome w).2 = w.edit id (.define key d)
      ∨ ∃ value n, converts w.heap id key d = some value
        ∧ ((define run id key d strict).outcome w).2
          = (converted run id key d w).edit id (.defineLength n d) := by
  rw [converted]
  cases hconverts : converts w.heap id key d with
  | none =>
    rw [outcome_define run hconverts]
    exact .inr (.inl ⟨rfl, rfl⟩)
  | some value =>
    rw [outcome_define_converting run hconverts]
    dsimp only
    generalize (toNumber run value).outcome w = conversion
    obtain ⟨e | x, v⟩ := conversion
    · exact .inl rfl
    dsimp only
    rw [afterConversion]
    split
    · exact .inr (.inr ⟨value, _, rfl, rfl⟩)
    · exact .inl rfl

end Protocol

end ObjectModel
