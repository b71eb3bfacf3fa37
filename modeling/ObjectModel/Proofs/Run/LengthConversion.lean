import ObjectModel.Proofs.Run.ArrayLength
import ObjectModel.Proofs.Run.Strictness

/-!
# The conversion of a length

Who defines the length of an array with an object has the object converted to a number. That runs script
code: the methods `valueOf` and `toString`, and the getters under which they may be found. This code can do
anything, also to the array: write elements, make it shorter, make its length read-only, or prevent that
properties are added.

The definition looks at nothing of this before the conversion is over. So it is the conversion followed by a
definition with the number (`Host.length_conversion`), which starts from the world that script code has left,
and calls nothing. The only thing that has been asked before is whether the object is an array, and no code
changes that (`Host.isArray_run`).

What the conversion calls is said by `Conversion`: the methods are tried in order, and each `Trial` makes one
call of the method at most.
-/

namespace ObjectModel

open ObjectModel.Action

variable {σ α : Type}

/-! ## Trying methods -/

namespace Protocol

/-- How the trial of one conversion method of an object ends: with an error, with a primitive value, or without
one. The list has the method in it if it was called. -/
inductive Trial (run : Callback σ) (v : ObjectId) (method : Key) (w : World σ) :
    List Key → Except Error (Option Value) → World σ → Prop
  /-- The method cannot be read. -/
  | unread {e : Error} {w' : World σ} (read : (get run v method).outcome w = (.error e, w')) :
    Trial run v method w [] (.error e) w'
  /-- What is read is no function. -/
  | skipped {f : Value} {w' : World σ} (read : (get run v method).outcome w = (.ok f, w'))
      (notCallable : f.isCallable w'.heap.classOf = false) : Trial run v method w [] (.ok none) w'
  /-- The function that is read is called on the object, once. Its answer is taken if it is primitive. -/
  | called {f : ObjectId} {answer : Except Error Value} {w' w'' : World σ}
      (read : (get run v method).outcome w = (.ok (.object f), w')) (function : w'.heap.classOf f = .function)
      (call : (run f (.object v) []).outcome w' = (answer, w'')) :
    Trial run v method w [method] (answer.map fun p => if p.isPrimitive then some p else none) w''

/-- How the conversion of an object by methods ends, and which of them it calls. The methods are tried in order,
up to the first that fails or has a primitive answer. -/
inductive Conversion (run : Callback σ) (v : ObjectId) :
    List Key → World σ → List Key → Except Error Value → World σ → Prop
  /-- There is no method left. -/
  | exhausted (w : World σ) : Conversion run v [] w [] (.error .notPrimitive) w
  /-- A method fails. -/
  | failed {method : Key} {rest called : List Key} {e : Error} {w w' : World σ}
      (trial : Trial run v method w called (.error e) w') :
    Conversion run v (method :: rest) w called (.error e) w'
  /-- A method has a primitive answer. -/
  | converted {method : Key} {rest called : List Key} {p : Value} {w w' : World σ}
      (trial : Trial run v method w called (.ok (some p)) w') :
    Conversion run v (method :: rest) w called (.ok p) w'
  /-- A method gives way to the next. -/
  | next {method : Key} {rest called later : List Key} {result : Except Error Value} {w w' w'' : World σ}
      (trial : Trial run v method w called (.ok none) w')
      (after : Conversion run v rest w' later result w'') :
    Conversion run v (method :: rest) w (called ++ later) result w''

variable {run : Callback σ} {v : ObjectId} {method : Key} {methods called : List Key} {w w' : World σ}

/-- A trial calls its method once, or not at all. -/
theorem Trial.sublist {result : Except Error (Option Value)} (trial : Trial run v method w called result w') :
    called.Sublist [method] := by
  cases trial with
  | unread | skipped => exact List.nil_sublist _
  | called => exact List.Sublist.refl _

/-- What a trial finds is primitive. -/
theorem Trial.isPrimitive {p : Value} (trial : Trial run v method w called (.ok (some p)) w') :
    p.isPrimitive = true := by
  generalize hresult : (Except.ok (some p) : Except Error (Option Value)) = result at trial
  cases trial with
  | unread | skipped => cases hresult
  | @called f answer _ _ _ _ _ =>
    cases answer with
    | error e => cases hresult
    | ok a =>
      by_cases primitive : a.isPrimitive = true
      · rw [Except.map, if_pos primitive] at hresult
        cases hresult
        exact primitive
      · rw [Except.map, if_neg primitive] at hresult
        cases hresult

namespace Conversion

variable {result : Except Error Value}

/-- A conversion calls each method at most once, in order. -/
theorem sublist (conversion : Conversion run v methods w called result w') : called.Sublist methods := by
  induction conversion with
  | exhausted => exact List.Sublist.refl _
  | failed trial => exact trial.sublist.trans (List.singleton_sublist.2 List.mem_cons_self)
  | converted trial => exact trial.sublist.trans (List.singleton_sublist.2 List.mem_cons_self)
  | next trial _ ih => exact trial.sublist.append ih

/-- What a conversion comes to is primitive. -/
theorem isPrimitive {p : Value} (conversion : Conversion run v methods w called (.ok p) w') :
    p.isPrimitive = true := by
  generalize hresult : Except.ok p = result at conversion
  induction conversion with
  | exhausted | failed => cases hresult
  | converted trial =>
    cases hresult
    exact trial.isPrimitive
  | next _ _ ih => exact ih hresult

/-- The error of a conversion is that of a trial, or a type error since no method is left. -/
theorem of_error {e : Error} (conversion : Conversion run v methods w called (.error e) w') :
    e = .notPrimitive ∧ e.kind = .typeError
      ∨ ∃ method ∈ methods, ∃ before tried, Trial run v method before tried (.error e) w' := by
  generalize hresult : Except.error e = result at conversion
  induction conversion with
  | exhausted =>
    cases hresult
    exact .inl ⟨rfl, rfl⟩
  | failed trial =>
    cases hresult
    exact .inr ⟨_, List.mem_cons_self, _, _, trial⟩
  | converted => cases hresult
  | next _ _ ih =>
    refine (ih hresult).imp_right ?_
    rintro ⟨method, hmethod, hfailed⟩
    exact ⟨method, List.mem_cons_of_mem _ hmethod, hfailed⟩

end Conversion

/-- Trying methods begins with a trial of the first. The others are tried if there is no result. -/
theorem exists_trial (run : Callback σ) (v : ObjectId) (method : Key) (rest : List Key) (w : World σ) :
    ∃ called result w', Trial run v method w called result w'
      ∧ (firstPrimitive run v (method :: rest)).outcome w
        = match result with
          | .error e => (.error e, w')
          | .ok (some p) => (.ok p, w')
          | .ok none => (firstPrimitive run v rest).outcome w' := by
  rw [firstPrimitive, outcome_bind]
  obtain ⟨read, w', hread⟩ : ∃ read w', (get run v method).outcome w = (read, w') := ⟨_, _, rfl⟩
  rw [hread]
  cases read with
  | error e => exact ⟨_, _, _, .unread hread, rfl⟩
  | ok f =>
    dsimp only
    rw [outcome_inspect_bind]
    cases hcallable : f.isCallable w'.heap.classOf with
    | false => exact ⟨_, _, _, .skipped hread hcallable, rfl⟩
    | true =>
      obtain ⟨f, rfl, function, hcall⟩ : ∃ g, f = .object g ∧ w'.heap.classOf g = .function
          ∧ (call run f (.object v) []).outcome w' = (run g (.object v) []).outcome w' := by
        rcases outcome_call_cases run w' f (.object v) [] with h | ⟨h, -⟩
        · exact h
        · rw [hcallable] at h
          cases h
      obtain ⟨answer, w'', hanswer⟩ : ∃ answer w'', (run f (.object v) []).outcome w' = (answer, w'') :=
        ⟨_, _, rfl⟩
      refine ⟨_, _, _, .called hread function hanswer, ?_⟩
      rw [if_pos rfl, outcome_bind, hcall, hanswer]
      cases answer with
      | error e => rfl
      | ok p =>
        dsimp only [Except.map]
        split <;> rfl

/-- Trying methods is a conversion. -/
theorem exists_conversion (run : Callback σ) (v : ObjectId) (methods : List Key) (w : World σ) :
    ∃ called, Conversion run v methods w called ((firstPrimitive run v methods).outcome w).1
      ((firstPrimitive run v methods).outcome w).2 := by
  induction methods generalizing w with
  | nil => exact ⟨_, .exhausted w⟩
  | cons method rest ih =>
    obtain ⟨called, result, w', trial, houtcome⟩ := exists_trial run v method rest w
    rw [houtcome]
    rcases result with e | none | p
    · exact ⟨_, .failed trial⟩
    · obtain ⟨later, after⟩ := ih w'
      exact ⟨_, .next trial after⟩
    · exact ⟨_, .converted trial⟩

/-- The conversion of an object to a number is a conversion by its two methods. -/
theorem exists_conversion_toNumber (run : Callback σ) (v : ObjectId) (w : World σ) :
    ∃ called result,
      Conversion run v Hint.number.methods w called result ((toNumber run (.object v)).outcome w).2
      ∧ ((toNumber run (.object v)).outcome w).1 = result.map Value.primitiveNumber := by
  have houtcome : (toNumber run (.object v)).outcome w
      = (((firstPrimitive run v Hint.number.methods).outcome w).1.map Value.primitiveNumber,
          ((firstPrimitive run v Hint.number.methods).outcome w).2) :=
    outcome_map Value.primitiveNumber (firstPrimitive run v Hint.number.methods) w
  obtain ⟨called, conversion⟩ := exists_conversion run v Hint.number.methods w
  rw [houtcome]
  exact ⟨called, _, conversion, rfl⟩

end Protocol

/-! ## Arrays stay arrays -/

/-- An array is one after any edit. -/
theorem Heap.isArray_edit {h : Heap} {id : ObjectId} (array : (h.get id).isArray = true) (edited : ObjectId)
    (e : Edit) : ((h.edit edited e).get id).isArray = true := by
  rw [isArray_get] at array ⊢
  exact (h.classOf_edit edited e id).trans array

namespace Host

/-- An array is one after any run. -/
theorem isArray_run (host : Host σ) (depth : Nat) (r : Routine σ α) {w : World σ} {id : ObjectId}
    (array : (w.heap.get id).isArray = true) : ((host.run depth r w).2.heap.get id).isArray = true := by
  refine ((host.history depth r w).invariant (I := fun h => (h.get id).isArray = true) (P := fun _ => True)
    array ?edit ?allocate ?unruled fun _ _ => trivial).1
  case edit =>
    intro h edited e hold _
    exact Heap.isArray_edit hold edited e
  case allocate =>
    intro h o hold _
    rcases h.get_allocate_cases o id with hsame | ⟨outside, -⟩
    · rw [hsame]
      exact hold
    · exact absurd (Heap.has_of_isArray hold) outside
  case unruled =>
    intro h _ edited e _ hold _ _
    exact Heap.isArray_edit hold edited e

/-- An array is one after any operation. -/
theorem isArray_perform (host : Host σ) (depth : Nat) (op : Operation) {w : World σ} {id : ObjectId}
    (array : (w.heap.get id).isArray = true) :
    (((op.perform (host.call depth)).outcome w).2.heap.get id).isArray = true := by
  have h := host.isArray_run depth (.ask op) array
  rw [run, Routine.ask, Routine.runWith_perform] at h
  exact h

/-- What happens on the way of the definition of an array's length is what happens on the way of the conversion
of its value. -/
theorem onTheWay_define_length (host : Host σ) (depth : Nat) {w : World σ} {id : ObjectId} {d : Descriptor}
    {value : Value} (array : (w.heap.get id).isArray = true) (named : d.value = some value) (strict : Bool) :
    host.onTheWay depth (.define id .length d strict) w = host.onTheWay depth (.toNumber value) w := by
  rw [onTheWay_eq, onTheWay_eq]
  let v : World (Recorded σ) := ⟨w.heap, { host := w.host }⟩
  show ((Protocol.define (host.recorded.call depth) id .length d strict).outcome v).2.host.log
    = ((Protocol.toNumber (host.recorded.call depth) value).outcome v).2.host.log
  rw [Protocol.outcome_define_converting _ (Protocol.converts_length (w := v) array named)]
  obtain ⟨e | x, w'⟩ := (Protocol.toNumber (host.recorded.call depth) value).outcome v
  · rfl
  · dsimp only
    rw [Protocol.afterConversion]
    split <;> rfl

/-- The conversion of an object to a number, and the definition of an array's length with the object.

Whoever defines the length has the object converted, once, with all that comes of it, and then defines the length
with the number, in the world that the conversion leaves. If the conversion fails, its error is returned to every
caller, and nothing else is done. So no call is made besides those of the conversion.

The conversion reads the methods `valueOf` and `toString` of the object in this order, and calls each of them at
most once, on the object. It ends with the first primitive answer, or with the first error of a method; if there
is neither, that is a type error. -/
theorem length_conversion (host : Host σ) (depth : Nat) (w : World σ) (v : ObjectId) :
    let run := host.call depth
    let conversion := (Protocol.toNumber run (.object v)).outcome w
    let methods : List Key := [.ofText "valueOf", .ofText "toString"]
    (∀ id d strict, (w.heap.get id).isArray = true → d.value = some (.object v) →
        (Protocol.define run id .length d strict).outcome w
            = (match conversion with
              | (.ok x, w') =>
                (Protocol.define run id .length { d with value := some (.number x) } strict).outcome w'
              | (.error e, w') => (.error e, w'))
          ∧ host.onTheWay depth (.define id .length d strict) w = host.onTheWay depth (.toNumber (.object v)) w)
      ∧ ∃ called result, Protocol.Conversion run v methods w called result conversion.2
          ∧ conversion.1 = result.map Value.primitiveNumber
          ∧ called.Sublist methods
          ∧ (∀ p, result = .ok p → p.isPrimitive = true)
          ∧ ∀ e, result = .error e → e = .notPrimitive ∧ e.kind = .typeError
            ∨ ∃ method ∈ methods, ∃ before tried,
              Protocol.Trial run v method before tried (.error e) conversion.2 := by
  intro run conversion methods
  constructor
  · intro id d strict array named
    refine ⟨?_, host.onTheWay_define_length depth array named strict⟩
    have array' : (conversion.2.heap.get id).isArray = true :=
      host.isArray_perform depth (.toNumber (.object v)) array
    rw [Protocol.outcome_define_converting run (Protocol.converts_length array named)]
    show (match conversion with
      | (.ok x, w') => Protocol.afterConversion id d strict x w'
      | (.error e, w') => (.error e, w')) = _
    obtain ⟨e | x, w'⟩ := conversion
    · rfl
    · have hnumber := Protocol.converts_length (d := { d with value := some (.number x) }) array' rfl
      exact (Protocol.outcome_define_primitive run hnumber rfl strict).symm
  · obtain ⟨called, result, hconversion, hanswer⟩ := Protocol.exists_conversion_toNumber run v w
    refine ⟨called, result, hconversion, hanswer, hconversion.sublist, ?_, ?_⟩
    · rintro p rfl
      exact hconversion.isPrimitive
    · rintro e rfl
      exact hconversion.of_error

/-- A host whose function objects leave one element in the array of three, make its length read-only, and answer
two. -/
def shrinking : Host Unit where
  behaviour _ _ _ :=
    .perform (.define ⟨2⟩ .length { value := some (.ofNat 1), writable := some false } true) fun _ =>
      .finish (.ok (.ofNat 2))
  refused _ s := s

/-- A function object, an object that has it for its method `valueOf`, and an array of three values. -/
def convertibleWorld : World Unit where
  heap := ⟨#[Object.function, (Object.ordinary []).store (.ofText "valueOf") (.data (.object ⟨0⟩) .all),
    Object.arrayOf [.null, .null, .null]]⟩
  host := ()

/-- A length of two is defined for an array of three. The conversion leaves an array of one whose length is
read-only, and a length of two is not allowed for that. -/
theorem length_conversion_shrinking :
    let d : Descriptor := .ofValue (.object ⟨1⟩)
    let defined := (Protocol.define (shrinking.call 1) ⟨2⟩ .length d false).outcome convertibleWorld
    (convertibleWorld.heap.get ⟨2⟩).isArray = true
      ∧ d.value = some (.object ⟨1⟩)
      ∧ (convertibleWorld.heap.get ⟨2⟩).length = 3
      ∧ (defined.1, (defined.2.heap.get ⟨2⟩).length) = (.ok false, 1) := by
  intro d defined
  have array : (convertibleWorld.heap.get ⟨2⟩).isArray = true := by decide +kernel
  have named : d.value = some (.object ⟨1⟩) := rfl
  obtain ⟨hdefine, -⟩ := shrinking.length_conversion 1 convertibleWorld ⟨1⟩
  have hrefused : defined = _ := (hdefine ⟨2⟩ d false array named).1
  refine ⟨array, named, by decide +kernel, ?_⟩
  rw [hrefused]
  decide +kernel

end Host

end ObjectModel
