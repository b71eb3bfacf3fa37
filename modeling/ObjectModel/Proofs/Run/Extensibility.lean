import ObjectModel.Proofs.Run.Atomicity
import ObjectModel.Proofs.Run.Integrity
import ObjectModel.Proofs.Run.Listing

/-!
# Objects that take no new properties

Once an object takes no new properties it never does again, and from then on its own keys become fewer,
if anything (`Host.own_keys_fall`). Whatever would make a property under a key that is absent is refused
and leaves everything as it is, the length of an array included. That is so for every object and every
program with any host, whatever the function objects do and whatever the object inherits.

An array is held to this by its length. If that has been taken away without asking, an element that is
redefined raises the missing length and so brings it back, also on an array that takes no new properties
(`Host.own_keys_rise_reviving`). So the length of the array itself must never have been taken away. What
is done to other arrays does not matter.
-/

namespace ObjectModel

open ObjectModel.Action

variable {σ α : Type}

/-! ## Closed objects -/

namespace Object

/-- An object takes no new properties, and the keys of those that it has are among the given ones. -/
structure ClosedWithin (o : Object) (keys : List Key) : Prop where
  closed : o.extensible = false
  within : ∀ key, (o.find? key).isSome = true → key ∈ keys

variable {o o' : Object} {keys : List Key} {key : Key}

/-- A property stored in the place of another leaves a closed object within its keys. -/
theorem ClosedWithin.store (h : o.ClosedWithin keys) (present : (o.find? key).isSome = true)
    (p : Property) : (o.store key p).ClosedWithin keys := by
  refine ⟨(extensible_store ..).trans h.closed, fun other found => ?_⟩
  rw [find?_store] at found
  split at found
  · next hkey => exact hkey ▸ h.within key present
  · exact h.within other found

/-- A property taken away leaves a closed object within its keys. -/
theorem ClosedWithin.erase (h : o.ClosedWithin keys) (key : Key) : (o.erase key).ClosedWithin keys := by
  refine ⟨(extensible_erase ..).trans h.closed, fun other found => h.within other ?_⟩
  rw [find?_erase] at found
  split at found
  · cases found
  · exact found

/-- A step leaves a closed object within its keys. -/
theorem Step.closedWithin (step : Step o o') (h : o.ClosedWithin keys) : o'.ClosedWithin keys := by
  cases step with
  | @define key d p decided =>
    refine h.store ?_ p
    -- without a property under the key, the definition would have been refused
    by_contra absent
    rw [Option.not_isSome_iff_eq_none.1 absent, h.closed] at decided
    cases decided
  | overwrite value found => exact h.store (Option.isSome_of_mem found) _
  | delete => exact h.erase _
  | preventExtensions =>
    refine ⟨rfl, fun key found => h.within key ?_⟩
    obtain ⟨kind, table, ancestors, extensible⟩ := o
    exact found
  | alike same =>
    refine ⟨same.extensible ▸ h.closed, fun key found => h.within key ?_⟩
    rw [same.find? key]
    exact found

/-- Steps leave a closed object within its keys. -/
theorem Steps.closedWithin (steps : Steps o o') (h : o.ClosedWithin keys) : o'.ClosedWithin keys := by
  induction steps with
  | refl => exact h
  | tail _ step ih => exact step.closedWithin ih

/-- The ordinary definition of a property that is absent from a closed object is refused. -/
theorem ordinaryDefine_of_closed (closed : o.extensible = false) (absent : o.find? key = none)
    (d : Descriptor) : o.ordinaryDefine key d = (.refused (.notExtensible key), o) := by
  rw [ordinaryDefine, absent, closed]
  rfl

/-- The definition of a property that is absent from a closed object is refused. -/
theorem define_of_closed (closed : o.extensible = false) (absent : o.find? key = none)
    (d : Descriptor) : ∃ r, o.define key d = (.refused r, o) := by
  have hordinary := ordinaryDefine_of_closed closed absent d
  obtain ⟨kind, table, ancestors, extensible⟩ := o
  cases kind with
  | ordinary | function => exact ⟨_, hordinary⟩
  | array elements =>
    cases key with
    | name => exact ⟨_, hordinary⟩
    | index i =>
      show ∃ r, defineIndex _ i d = _
      simp only [defineIndex]
      split
      · exact ⟨_, rfl⟩
      · rw [hordinary]
        exact ⟨_, rfl⟩

/-- There is nothing to overwrite under a word under which there is no property. -/
theorem overwriteElement_of_absent (regular : o.Regular) {i : Nat}
    (absent : o.find? (.ofWord i) = none) (v : Value) :
    Protocol.overwriteElement v i o = (false, o) := by
  have hnone : o.element? i = none := by
    by_contra hsome
    have hi : i < maxLength := regular.indices i (Option.isSome_iff_ne_none.2 hsome)
    obtain ⟨kind, table, ancestors, extensible⟩ := o
    cases kind with
    | ordinary | function => exact hsome rfl
    | array elements =>
      rw [Key.ofWord_of_lt hi] at absent
      exact hsome absent
  rw [Protocol.overwriteElement]
  rw [element?] at hnone
  rw [hnone]

end Object

namespace Heap

variable {h : Heap} {id : ObjectId} {keys : List Key}

/-- An object has its properties where they belong, takes no new ones, and the keys of those that it has
are among the given ones. -/
structure ClosedWithin (h : Heap) (id : ObjectId) (keys : List Key) : Prop where
  filed : (h.get id).Filed
  object : (h.get id).ClosedWithin keys

namespace ClosedWithin

/-- An edit leaves a closed object within its keys, unless it takes the length of an array away. -/
theorem edit (closed : h.ClosedWithin id keys) (edited : ObjectId) {e : Edit}
    (kept : ∀ key, e = .erase key → edited = id → h.classOf id = .array → key ≠ .length) :
    (h.edit edited e).ClosedWithin id keys := by
  refine ⟨filed_edit closed.filed edited kept, ?_⟩
  rcases get_edit_steps closed.filed.toRegular edited e with steps | ⟨key, -, -, herased⟩
  · exact steps.closedWithin closed.object
  · rw [herased]
    exact closed.object.erase key

/-- A new object is another one. -/
theorem allocate (closed : h.ClosedWithin id keys) (o : Object) :
    (h.allocate o).2.ClosedWithin id keys := by
  rcases h.get_allocate_cases o id with hsame | ⟨outside, -⟩
  · exact ⟨hsame ▸ closed.filed, hsame ▸ closed.object⟩
  · have hopen := closed.object.closed
    rw [get_of_not_has outside] at hopen
    cases hopen

end ClosedWithin

end Heap

/-! ## Refused creations -/

/-- The operations that would make a property of an object under a key that is absent. An assignment is
one of them unless it calls a setter. -/
inductive Heap.Creation (h : Heap) (id : ObjectId) : Operation → Prop
  | define {key : Key} (absent : (h.get id).find? key = none) (d : Descriptor) (strict : Bool) :
    h.Creation id (.define id key d strict)
  | ordinaryDefine {key : Key} (absent : (h.get id).find? key = none) (d : Descriptor)
      (strict : Bool) : h.Creation id (.ordinaryDefine id key d strict)
  | put {key : Key} (absent : (h.get id).find? key = none) (noSetter : h.NoSetter id key)
      (value : Value) (strict : Bool) : h.Creation id (.put id key value strict)
  | setIndex {i : Nat} (absent : (h.get id).find? (.ofWord i) = none)
      (noSetter : h.NoSetter id (.ofWord i)) (value : Value) (strict : Bool) :
    h.Creation id (.setIndex id i value strict)
  | push {i : Index} (length : (h.get id).length = i) (absent : (h.get id).find? (.index i) = none)
      (noSetter : h.NoSetter id (.index i)) (value : Value) : h.Creation id (.push id value)

namespace Protocol

variable {w : World σ} {id : ObjectId} {key : Key}

/-- The definition of a property that is absent from a closed object is refused and changes nothing. -/
theorem define_absent (run : Callback σ) (regular : (w.heap.get id).Regular)
    (closed : (w.heap.get id).extensible = false) (absent : (w.heap.get id).find? key = none)
    (d : Descriptor) (strict : Bool) :
    ∃ r, (define run id key d strict).outcome w = (Verdict.answer strict (.refused r), w) := by
  -- an array has a length, so its definition is not this one and nothing is converted
  have hconverts : converts w.heap id key d = none := by
    rw [converts, if_neg]
    rw [Bool.and_eq_true]
    rintro ⟨array, hlength⟩
    obtain ⟨v, a, found, -⟩ := regular.length array
    rw [Key.isLength_iff.1 hlength, found] at absent
    cases absent
  obtain ⟨r, hrefused⟩ := Object.define_of_closed closed absent d
  have hkept : (Edit.define key d).apply (w.heap.get id) = w.heap.get id := congrArg Prod.snd hrefused
  rw [outcome_define run hconverts, hrefused, World.edit_of_same hkept]
  exact ⟨r, rfl⟩

/-- A strict assignment that would make a property of a closed object is an error and changes nothing. -/
theorem put_absent (run : Callback σ) (regular : (w.heap.get id).Regular)
    (closed : (w.heap.get id).extensible = false) (absent : (w.heap.get id).find? key = none)
    (noSetter : w.heap.NoSetter id key) (v : Value) :
    ∃ e, (put run id key v true).outcome w = (.error e, w) := by
  rcases outcome_put_cases run noSetter v with ⟨e, -, hput⟩ | ⟨d, -, hput⟩
  · exact ⟨e, hput⟩
  · obtain ⟨r, hdefine⟩ := define_absent run regular closed absent d true
    rw [hput, outcome_discard, hdefine]
    exact ⟨_, rfl⟩

/-- An assignment that would make a property of a closed object changes nothing. -/
theorem world_put_absent (run : Callback σ) (regular : (w.heap.get id).Regular)
    (closed : (w.heap.get id).extensible = false) (absent : (w.heap.get id).find? key = none)
    (noSetter : w.heap.NoSetter id key) (v : Value) (strict : Bool) :
    ((put run id key v strict).outcome w).2 = w := by
  obtain ⟨e, hput⟩ := put_absent run regular closed absent noSetter v
  cases strict with
  | true => rw [hput]
  | false => rw [← (put_dual run w id key v).1, hput]

/-- The ordinary definition of a property that is absent from a closed object changes nothing. -/
theorem ordinaryDefine_absent (closed : (w.heap.get id).extensible = false)
    (absent : (w.heap.get id).find? key = none) (d : Descriptor) (strict : Bool) :
    ((ordinaryDefine id key d strict).outcome w).2 = w := by
  have hrefused := Object.ordinaryDefine_of_closed closed absent d
  rw [ordinaryDefine, outcome_attempt]
  dsimp only
  rw [Heap.alter_of_same (by rw [hrefused])]

/-- An assignment under a word that would make a property of a closed object changes nothing. -/
theorem setIndex_absent (run : Callback σ) (regular : (w.heap.get id).Regular)
    (closed : (w.heap.get id).extensible = false) {i : Nat}
    (absent : (w.heap.get id).find? (.ofWord i) = none)
    (noSetter : w.heap.NoSetter id (.ofWord i)) (v : Value) (strict : Bool) :
    ((setIndex run id i v strict).outcome w).2 = w := by
  rw [outcome_setIndex, Object.overwriteElement_of_absent regular absent v, if_neg Bool.false_ne_true]
  exact world_put_absent run regular closed absent noSetter v strict

/-- A value that would be appended to a closed object changes nothing. -/
theorem push_absent (run : Callback σ) (regular : (w.heap.get id).Regular)
    (closed : (w.heap.get id).extensible = false) {i : Index} (length : (w.heap.get id).length = i)
    (absent : (w.heap.get id).find? (.index i) = none) (noSetter : w.heap.NoSetter id (.index i))
    (v : Value) : ((push run id v).outcome w).2 = w := by
  obtain ⟨e, hput⟩ := put_absent run regular closed absent noSetter v
  -- the assignment of the element is an error, so the length is not assigned
  rw [push, outcome_inspect_bind]
  simp only [length]
  rw [dif_pos i.isLt, outcome_bind, hput]

end Protocol

/-- Whatever would make a property of a closed object leaves the world as it is. -/
theorem Heap.Creation.world {h : Heap} {id : ObjectId} {op : Operation} (creation : h.Creation id op)
    (regular : (h.get id).Regular) (closed : (h.get id).extensible = false) (run : Callback σ)
    (s : σ) : ((op.perform run).outcome ⟨h, s⟩).2 = ⟨h, s⟩ := by
  let w : World σ := ⟨h, s⟩
  cases creation with
  | define absent d strict =>
    obtain ⟨r, hdefine⟩ := Protocol.define_absent (w := w) run regular closed absent d strict
    exact congrArg Prod.snd hdefine
  | ordinaryDefine absent d strict =>
    exact Protocol.ordinaryDefine_absent (w := w) closed absent d strict
  | put absent noSetter v strict =>
    exact Protocol.world_put_absent (w := w) run regular closed absent noSetter v strict
  | setIndex absent noSetter v strict =>
    exact Protocol.setIndex_absent (w := w) run regular closed absent noSetter v strict
  | push length absent noSetter v =>
    exact Protocol.push_absent (w := w) run regular closed length absent noSetter v

/-! ## During a run -/

/-- The operation did not take the length of the object away, if the object is an array. -/
def Event.KeepsLength (e : Event) (id : ObjectId) : Prop :=
  e.heap.classOf id = .array → e.removes id .length = false

instance (e : Event) (id : ObjectId) : Decidable (e.KeepsLength id) :=
  inferInstanceAs (Decidable (_ → _))

/-- An operation that did not take the length of an array away did not edit the array so. -/
theorem Event.KeepsLength.ne_length {op : Operation} {result : Except Error op.Answer} {h : Heap}
    {edited id : ObjectId} {e : Edit} (made : op.unruledEdit? = some (edited, e))
    (kept : KeepsLength ⟨.performed op result, h.edit edited e⟩ id) (key : Key)
    (erases : e = .erase key) (same : edited = id) (array : h.classOf id = .array) :
    key ≠ .length :=
  Event.ne_of_removes made (kept ((h.classOf_edit ..).trans array)) key erases same

namespace History

variable {start heap : Heap} {log : List Event} {id : ObjectId}

/-- The properties of an object stay where they belong, as long as no operation takes its length away. -/
theorem filed (history : History start log heap) (base : (start.get id).Filed)
    (kept : ∀ e ∈ log, e.KeepsLength id) :
    (heap.get id).Filed ∧ ∀ e ∈ log, (e.heap.get id).Filed :=
  history.invariant (I := fun h => (h.get id).Filed) (P := (Event.KeepsLength · id)) base
    (fun _ edited _ filed ruled => Heap.filed_edit filed edited
      fun key erases => absurd erases (ruled.asks key))
    (fun _ _ filed => Heap.filed_allocate filed)
    (fun _ _ edited _ _ filed made kept => Heap.filed_edit filed edited (kept.ne_length made))
    kept

/-- A closed object stays within its keys, as long as no operation takes its length away. -/
theorem closedWithin (history : History start log heap) {keys : List Key}
    (base : start.ClosedWithin id keys) (kept : ∀ e ∈ log, e.KeepsLength id) :
    heap.ClosedWithin id keys ∧ ∀ e ∈ log, e.heap.ClosedWithin id keys :=
  history.invariant (I := (Heap.ClosedWithin · id keys)) (P := (Event.KeepsLength · id)) base
    (fun _ edited _ closed ruled => closed.edit edited
      fun key erases => absurd erases (ruled.asks key))
    (fun _ o closed _ => closed.allocate o)
    (fun _ _ edited _ _ closed made kept => closed.edit edited (kept.ne_length made))
    kept

end History

namespace Host

/-- What has become, at any later moment `h` of a run, of an object that took no new properties at the
moment of an event `e`, if no operation of the run takes its length away from it as an array.

It still takes no new properties. Its own keys are among those that it had, so a key that was absent is
absent. And whatever would make a property under an absent key leaves the world as it is. -/
theorem own_keys_fall (host : Host σ) (depth : Nat) (r : Routine σ α) (s : σ)
    {before later : List Event} {e : Event}
    (split : host.trace depth r ⟨{}, s⟩ = before ++ e :: later) (id : ObjectId)
    (kept : ∀ e' ∈ host.trace depth r ⟨{}, s⟩, e'.KeepsLength id)
    (closed : (e.heap.get id).extensible = false) {h : Heap}
    (visited : h = (host.run depth r ⟨{}, s⟩).2.heap ∨ ∃ e' ∈ later, h = e'.heap) :
    (h.get id).extensible = false
      ∧ (h.get id).keys ⊆ (e.heap.get id).keys
      ∧ (∀ key, (e.heap.get id).find? key = none → (h.get id).find? key = none)
      ∧ ∀ op, h.Creation id op → ∀ (run : Callback σ) (s' : σ),
          ((op.perform run).outcome ⟨h, s'⟩).2 = ⟨h, s'⟩ := by
  have history := host.history depth r ⟨{}, s⟩
  have hfiled := (history.filed (.of_fresh (.ordinary [])) kept).2 e (by rw [split]; simp)
  rw [split] at history kept
  have base : e.heap.ClosedWithin id (e.heap.get id).keys :=
    ⟨hfiled, closed, fun key => (hfiled.toPlaced.mem_keys key).2⟩
  have hlater := history.after.closedWithin base fun e' he' => kept e' (by simp [he'])
  have hclosed : h.ClosedWithin id (e.heap.get id).keys :=
    History.visit (I := (Heap.ClosedWithin · id (e.heap.get id).keys)) hlater visited
  have hwithin := hclosed.object.within
  refine ⟨hclosed.object.closed, fun key mem => ?_, fun key absent => ?_, fun op creation run s' => ?_⟩
  · exact hwithin key ((hclosed.filed.toPlaced.mem_keys key).1 mem)
  · by_contra hpresent
    have hkey := (hfiled.toPlaced.mem_keys key).1 (hwithin key (Option.isSome_iff_ne_none.2 hpresent))
    rw [absent] at hkey
    cases hkey
  · exact creation.world hclosed.filed.toRegular hclosed.object.closed run s'

/-- Makes an array of one element, ends the adding of properties to it, tries to add some, and deletes the
element. -/
def closing : Routine Unit (Except Error Bool) :=
  .perform (.newArrayOf [.null]) fun
    | .ok id =>
      .perform (.preventExtensions id) fun _ =>
        .perform (.setIndex id 1 .null false) fun _ =>
          .perform (.define id (.ofText "a") (.data .null .all) true) fun _ =>
            .perform (.delete id (.ofWord 0) true) .finish
    | .error e => .finish (.error e)

/-- In the end there is only the length left, and nothing can be appended. -/
theorem own_keys_fall_closing :
    ∃ before e later, idle.trace 1 closing ⟨{}, ()⟩ = before ++ e :: later
      ∧ (∀ e' ∈ idle.trace 1 closing ⟨{}, ()⟩, e'.KeepsLength ⟨0⟩)
      ∧ (e.heap.get ⟨0⟩).extensible = false
      ∧ (e.heap.get ⟨0⟩).keys = [.ofWord 0, .length]
      ∧ ((idle.run 1 closing ⟨{}, ()⟩).2.heap.get ⟨0⟩).keys = [.length]
      ∧ ((idle.run 1 closing ⟨{}, ()⟩).2.heap.get ⟨0⟩).keys ⊆ (e.heap.get ⟨0⟩).keys
      ∧ (((Operation.push ⟨0⟩ .null).perform (idle.call 1)).outcome
            (idle.run 1 closing ⟨{}, ()⟩).2).2 = (idle.run 1 closing ⟨{}, ()⟩).2 := by
  let events := idle.trace 1 closing ⟨{}, ()⟩
  let left := (idle.run 1 closing ⟨{}, ()⟩).2.heap
  let closed := events.get ⟨1, by decide +kernel⟩
  have split : events = events.take 1 ++ closed :: events.drop 2 :=
    (List.take_append_drop 1 events).symm.trans (congrArg _ (List.getElem_cons_drop _).symm)
  have kept : ∀ e ∈ events, e.KeepsLength ⟨0⟩ := by decide +kernel
  have hclosed : (closed.heap.get ⟨0⟩).extensible = false := by decide +kernel
  have nearest : left.property? ⟨0⟩ (.index ⟨1, by decide⟩) = none := by decide +kernel
  have appending : left.Creation ⟨0⟩ (.push ⟨0⟩ .null) := by
    refine .push (i := ⟨1, by decide⟩) (by decide +kernel) (by decide +kernel) (fun g f a h => ?_) .null
    rw [nearest] at h
    cases h
  have first : (closed.heap.get ⟨0⟩).keys = [.ofWord 0, .length] := by decide +kernel
  have last : (left.get ⟨0⟩).keys = [.length] := by decide +kernel
  obtain ⟨-, hkeys, -, hcreations⟩ :=
    own_keys_fall idle 1 closing () split ⟨0⟩ kept hclosed (.inl rfl)
  have hkept := hcreations _ appending (idle.call 1) ()
  exact ⟨events.take 1, closed, events.drop 2, split, kept, hclosed, first, last, hkeys, hkept⟩

/-- Makes an array of one element, takes its length away, ends the adding of properties to it, and redefines
the element. -/
def reviving : Routine Unit (Except Error Bool) :=
  .perform (.newArrayOf [.null]) fun
    | .ok id =>
      .perform (.remove id .length) fun _ =>
        .perform (.preventExtensions id) fun _ =>
          .perform (.define id (.ofWord 0) { value := some (.boolean true) } true) .finish
    | .error e => .finish (.error e)

/-- An array whose length was taken away before it was closed gets a length again. -/
theorem own_keys_rise_reviving :
    ∃ before e later, idle.trace 1 reviving ⟨{}, ()⟩ = before ++ e :: later
      ∧ (∃ result, e.happening = .performed (.preventExtensions ⟨0⟩) result)
      ∧ (e.heap.get ⟨0⟩).extensible = false
      ∧ (∀ e' ∈ later, e'.removesLength = false)
      ∧ Key.length ∉ (e.heap.get ⟨0⟩).keys
      ∧ Key.length ∈ ((idle.run 1 reviving ⟨{}, ()⟩).2.heap.get ⟨0⟩).keys := by
  let events := idle.trace 1 reviving ⟨{}, ()⟩
  let closed := events.get ⟨2, by decide +kernel⟩
  have split : events = events.take 2 ++ closed :: events.drop 3 :=
    (List.take_append_drop 2 events).symm.trans (congrArg _ (List.getElem_cons_drop _).symm)
  have happening : closed.happening = .performed (.preventExtensions ⟨0⟩) (.ok ()) := rfl
  have hclosed : (closed.heap.get ⟨0⟩).extensible = false := by decide +kernel
  have kept : ∀ e ∈ events.drop 3, e.removesLength = false := by decide +kernel
  have absent : Key.length ∉ (closed.heap.get ⟨0⟩).keys := by decide +kernel
  have present : Key.length ∈ ((idle.run 1 reviving ⟨{}, ()⟩).2.heap.get ⟨0⟩).keys := by
    decide +kernel
  exact ⟨events.take 2, closed, events.drop 3, split, ⟨_, happening⟩, hclosed, kept, absent, present⟩

end Host

end ObjectModel
