import ObjectModel.Proofs.Object.ArrayLength
import ObjectModel.Proofs.Object.Standard
import ObjectModel.Proofs.Protocol.Outcome

/-!
# The ordinary definition

What an ordinary definition does to a world is what the standard says. `Redefined` describes the world
after a definition that was accepted: the property is there, in the element storage if it is an array's
element, and everything else is as it was.
-/

namespace ObjectModel

open ObjectModel.Action

variable {σ : Type}

namespace Descriptor

variable {d : Descriptor}

/-- Nothing needs to be stored only if there is something already. -/
theorem exists_of_keep {current : Option Property} {extensible : Bool}
    (keep : d.decide current extensible = .keep) : ∃ p, current = some p := by
  cases current with
  | some p => exact ⟨p, rfl⟩
  | none => cases extensible <;> cases keep

/-- A definition that is not mixed names no function if it names a value. -/
theorem isAccessor_record_of_unmixed (unmixed : ¬ d.IsMixed) (data : d.record.isData = true) :
    d.record.isAccessor = false := by
  rw [isData_record] at data
  exact Bool.eq_false_iff.2 fun haccessor => unmixed ⟨data, haccessor⟩

end Descriptor

namespace Object

variable {o : Object} {key : Key} {d : Descriptor}

/-- The property that the object itself has under a key, as a record. -/
def record? (o : Object) (key : Key) : Option Standard.Record := (o.find? key).map Property.record

/-- After a property was stored under an index, an array has it as an element, and its table is the one
it had. -/
theorem store_index (array : o.isArray = true) (i : Index) (p : Property) :
    (o.store (.index i) p).element? i = some p ∧ (o.store (.index i) p).table = o.table := by
  obtain ⟨elements, table, ancestors, extensible, rfl⟩ := exists_of_isArray array
  refine ⟨?_, rfl⟩
  rw [← find?_index (by rw [isArray, toClass_store]; exact array), find?_store, if_pos rfl]

/-- What the standard prescribes for an object overwrites the property that is there, or default
values. -/
theorem define_record?_eq_onto (unmixed : ¬ d.IsMixed) {r : Standard.Record}
    (accepted : Standard.define (o.record? key) o.extensible d.record = some r) :
    r = d.record.onto (Standard.base (o.record? key) d.record) := by
  refine Standard.define_eq_onto ?_ (Descriptor.isAccessor_record_of_unmixed unmixed) accepted
  intro c hc
  obtain ⟨p, -, rfl⟩ := Option.map_eq_some_iff.1 hc
  exact p.kind_record

/-- A definition that the standard rejects is refused. Any other is accepted, and either the object has
the prescribed property already, or that property is stored. -/
theorem ordinaryDefine_standard_cases (o : Object) (key : Key) (unmixed : ¬ d.IsMixed) :
    (Standard.define (o.record? key) o.extensible d.record = none
        ∧ ∃ r, o.ordinaryDefine key d = (.refused r, o))
      ∨ ∃ p, Standard.define (o.record? key) o.extensible d.record = some p.record
        ∧ (o.find? key = some p ∧ o.ordinaryDefine key d = (.accepted, o)
          ∨ o.ordinaryDefine key d = (.accepted, o.store key p)) := by
  rw [record?, Descriptor.record_decide unmixed, ordinaryDefine]
  cases hdecision : d.decide (o.find? key) o.extensible with
  | refuse fault => exact .inl ⟨rfl, _, rfl⟩
  | keep =>
    obtain ⟨p, hp⟩ := Descriptor.exists_of_keep hdecision
    refine .inr ⟨p, ?_, .inl ⟨hp, rfl⟩⟩
    rw [hp]
    rfl
  | store p => exact .inr ⟨p, rfl, .inr rfl⟩

end Object

/-- In the second world, an object has the property with the record `r` under a key. Everything else is as
it is in the first. -/
structure Redefined (w w' : World σ) (id : ObjectId) (key : Key) (r : Standard.Record) : Prop where
  stored : (w'.heap.get id).record? key = some r
  element : ∀ i, key = .index i → (w.heap.get id).isArray = true →
    ((w'.heap.get id).element? i).map Property.record = some r
      ∧ (w'.heap.get id).table = (w.heap.get id).table
  others : ∀ other, other ≠ key → (w'.heap.get id).find? other = (w.heap.get id).find? other
  toClass : (w'.heap.get id).toClass = (w.heap.get id).toClass
  ancestors : (w'.heap.get id).ancestors = (w.heap.get id).ancestors
  extensible : (w'.heap.get id).extensible = (w.heap.get id).extensible
  objects : ∀ other, other ≠ id → w'.heap.get other = w.heap.get other
  size : w'.heap.objects.size = w.heap.objects.size
  host : w'.host = w.host

namespace Redefined

variable {w : World σ} {id : ObjectId} {key : Key} {r : Standard.Record} {p : Property}

/-- A world that is left as it is has the properties that it has. -/
theorem refl (found : (w.heap.get id).find? key = some p) : Redefined w w id key p.record where
  stored := congrArg (Option.map _) found
  element := by
    rintro i rfl array
    rw [← Object.find?_index array, found]
    exact ⟨rfl, rfl⟩
  others _ _ := rfl
  toClass := rfl
  ancestors := rfl
  extensible := rfl
  objects _ _ := rfl
  size := rfl
  host := rfl

/-- A property that is stored is there, and nothing else is touched. -/
theorem of_store (inHeap : w.heap.Has id) (e : Edit)
    (stores : e.apply (w.heap.get id) = (w.heap.get id).store key p) :
    Redefined w (w.edit id e) id key p.record := by
  have hget : (w.edit id e).heap.get id = (w.heap.get id).store key p := by
    rw [← stores]
    exact World.get_edit inHeap e
  constructor
  case objects =>
    intro other hother
    exact (w.heap.get_edit id e inHeap other).trans (if_neg hother.symm)
  case size => exact w.heap.size_edit id e
  case host => rfl
  -- the rest is about the object, and storing a property is well understood
  all_goals rw [hget]
  case stored => rw [Object.record?, Object.find?_store, if_pos rfl, Option.map_some]
  case element =>
    rintro i rfl array
    obtain ⟨helement, htable⟩ := Object.store_index array i p
    rw [helement, htable]
    exact ⟨rfl, rfl⟩
  case others =>
    intro other hother
    rw [Object.find?_store, if_neg hother.symm]
  case toClass => rw [Object.toClass_store]
  case ancestors => rw [Object.ancestors_store]
  case extensible => rw [Object.extensible_store]

end Redefined

namespace Protocol

/-- An ordinary definition of a property, by a definition that does not name fields of both kinds, is
rejected exactly when the standard rejects it. A rejection is a type error or `false`, and nothing
changes. Otherwise the answer is `true` and the property is the one that the standard prescribes: the
named fields overwrite those of the property that was there, if necessary turned into one of the other
kind, or default values. -/
theorem ordinaryDefine_standard (w : World σ) (id : ObjectId) (inHeap : w.heap.Has id) (key : Key)
    (d : Descriptor) (unmixed : ¬ d.IsMixed) (strict : Bool) :
    match Standard.define ((w.heap.get id).record? key) (w.heap.get id).extensible d.record with
    | none => ∃ e : Error, e.kind = .typeError
        ∧ (ordinaryDefine id key d strict).outcome w = (if strict then .error e else .ok false, w)
    | some r => r = d.record.onto (Standard.base ((w.heap.get id).record? key) d.record)
        ∧ ((ordinaryDefine id key d strict).outcome w).1 = .ok true
        ∧ Redefined w ((ordinaryDefine id key d strict).outcome w).2 id key r := by
  have houtcome : (ordinaryDefine id key d strict).outcome w
      = (((w.heap.get id).ordinaryDefine key d).1.answer strict, w.edit id (.ordinaryDefine key d)) :=
    outcome_attempt strict id (·.ordinaryDefine key d) w
  have hsame : ((w.heap.get id).ordinaryDefine key d).2 = w.heap.get id →
      w.edit id (.ordinaryDefine key d) = w := fun same => World.edit_of_same same
  rw [houtcome]
  rcases (w.heap.get id).ordinaryDefine_standard_cases key unmixed with
    ⟨hrejected, refusal, hrefused⟩ | ⟨p, haccepted, hdefined⟩
  · rw [hrejected, hsame (by rw [hrefused]), hrefused]
    exact ⟨.refused refusal, rfl, rfl⟩
  have hbase := Object.define_record?_eq_onto unmixed haccepted
  rw [haccepted]
  rcases hdefined with ⟨hfound, hkept⟩ | hstored
  · rw [hsame (by rw [hkept]), hkept]
    exact ⟨hbase, rfl, .refl hfound⟩
  · refine ⟨hbase, ?_, .of_store inHeap _ ?_⟩
    · rw [hstored]
      rfl
    · rw [Edit.apply, Edit.act, hstored]

/-- A world with an array of one element. -/
def elementWorld : World Unit := ⟨⟨#[.arrayOf [.null]]⟩, ()⟩

/-- The definition of a getter that may not be redefined. -/
def finalGetter : Descriptor := { get := some (.object ⟨0⟩), configurable := some false }

/-- An element of an array is turned into an accessor. It stays enumerable, has no setter, and may not be
redefined. -/
theorem ordinaryDefine_standard_element :
    elementWorld.heap.Has ⟨0⟩ ∧ ¬ finalGetter.IsMixed
      ∧ ((ordinaryDefine ⟨0⟩ (.index ⟨0, by decide⟩) finalGetter true).outcome elementWorld).1 = .ok true
      ∧ Redefined elementWorld
          ((ordinaryDefine ⟨0⟩ (.index ⟨0, by decide⟩) finalGetter true).outcome elementWorld).2 ⟨0⟩
          (.index ⟨0, by decide⟩)
          (Property.accessor (some (.object ⟨0⟩)) none ⟨false, true, false⟩).record := by
  have inHeap : elementWorld.heap.Has ⟨0⟩ := Nat.zero_lt_one
  have unmixed : ¬ finalGetter.IsMixed := fun h => Bool.false_ne_true h.1
  have hdecide : finalGetter.decide ((elementWorld.heap.get ⟨0⟩).find? (.index ⟨0, by decide⟩))
      (elementWorld.heap.get ⟨0⟩).extensible
        = .store (.accessor (some (.object ⟨0⟩)) none ⟨false, true, false⟩) := by decide
  have hstandard := ordinaryDefine_standard elementWorld ⟨0⟩ inHeap (.index ⟨0, by decide⟩) finalGetter
    unmixed true
  rw [Object.record?, Descriptor.record_decide unmixed, hdecide] at hstandard
  obtain ⟨-, hanswer, hredefined⟩ := hstandard
  exact ⟨inHeap, unmixed, hanswer, hredefined⟩

end Protocol

end ObjectModel
