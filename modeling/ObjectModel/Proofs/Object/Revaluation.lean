import ObjectModel.Proofs.Object.ArrayLength

/-!
# A value in the place of another

The definition of a value alone, where a value is stored, does one of three things. It leaves the object as
it is if the values are the same; otherwise it exchanges the value or, if the value is read-only and not
configurable, is refused (`Object.ordinaryDefine_ofValue`). The attributes and the order of the properties
stay in each case.

An array's length goes the same way. It may be stored more than once while it shrinks, but it is a value in
the place of another each time (`Object.Revalued.defineLength`).
-/

namespace ObjectModel

variable {α : Type}

/-- What becomes of the definition of a value alone, where a value is stored. -/
theorem Descriptor.decide_ofValue (v v₀ : Value) (a : Attributes) (extensible : Bool) :
    (ofValue v).decide (some (.data v₀ a)) extensible
      = if v.same v₀ then .keep
        else if a.configurable || a.writable then .store (.data v a)
        else .refuse .readOnly := by
  have hempty : (ofValue v).isEmpty = false := rfl
  have hsatisfied : (ofValue v).isSatisfiedBy (.data v₀ a) = v.same v₀ := rfl
  have hconflict : (ofValue v).conflict (.data v₀ a)
      = if !a.configurable && !a.writable && !v.same v₀ then some .readOnly else none := by
    simp [conflict, ofValue, isGeneric, isAccessor, isData]
  have hstored : (ofValue v).applyTo ((ofValue v).convert (.data v₀ a)) = .data v a := rfl
  rw [decide, hempty, hsatisfied, hconflict, hstored, Bool.false_or]
  cases v.same v₀ <;> cases a.configurable <;> cases a.writable <;> rfl

/-- A write to a position that is occupied leaves the occupied positions as they are. -/
theorem Elements.indices_write {e : Elements α} {i : Nat} (occupied : (e.read i).isSome = true) (a : α) :
    (e.write i a).indices = e.indices := by
  refine (indices_ascending _).eq_of_mem_iff (indices_ascending _) ?_
  intro j
  rw [mem_indices, mem_indices, read_write]
  split
  · next hij => rw [← hij, occupied, Option.isSome_some]
  · rfl

namespace Object

variable {o : Object} {key : Key} {v₀ : Value} {a : Attributes}

/-- What is stored where a property is leaves the order of the properties as it is. -/
theorem keys_store (present : (o.find? key).isSome = true) (p : Property) :
    (o.store key p).table.keys = o.table.keys ∧ (o.store key p).keys = o.keys := by
  obtain ⟨kind, table, ancestors, extensible⟩ := o
  have htable : (table.find? key).isSome = true → (table.insert key p).keys = table.keys := by
    intro hkey
    rw [PropertyTable.keys_insert, if_pos ((PropertyTable.isSome_find? table key).1 hkey)]
  cases kind with
  | ordinary | function => exact ⟨htable present, htable present⟩
  | array elements =>
    cases key with
    | index i =>
      have hindices := Elements.indices_write (e := elements) present p
      exact ⟨rfl, congrArg (·.map Key.ofWord ++ table.keys) hindices⟩
    | name text notIndex => exact ⟨htable present, congrArg (_ ++ ·) (htable present)⟩

/-- On an object that is no array, storing what is there already changes nothing. -/
theorem store_self (plain : o.isArray = false) {p : Property} (found : o.find? key = some p) :
    o.store key p = o := by
  obtain ⟨kind, table, ancestors, extensible⟩ := o
  cases kind with
  | array => cases plain
  | ordinary | function => exact congrArg (Object.mk _ · _ _) (PropertyTable.insert_self found)

/-- The definition of a value alone, where a value is stored, is refused or leaves the object as it is, or
exchanges the value. -/
theorem ordinaryDefine_ofValue (found : o.find? key = some (.data v₀ a)) (v : Value) :
    o.ordinaryDefine key (.ofValue v)
      = if v.same v₀ then (.accepted, o)
        else if a.configurable || a.writable then (.accepted, o.store key (.data v a))
        else (.refused (.readOnlyDefinition key), o) := by
  rw [ordinaryDefine, found, Descriptor.decide_ofValue]
  cases v.same v₀ <;> cases a.configurable || a.writable <;> rfl

/-- The definition of a value alone, where a value is stored, leaves the object as it is or exchanges the
value. -/
theorem snd_ordinaryDefine_ofValue (found : o.find? key = some (.data v₀ a)) (v : Value) :
    (o.ordinaryDefine key (.ofValue v)).2 = o
      ∨ (o.ordinaryDefine key (.ofValue v)).2 = o.store key (.data v a) := by
  rw [ordinaryDefine_ofValue found]
  split
  · exact .inl rfl
  split
  · exact .inr rfl
  · exact .inl rfl

/-- The second object has a value under the key, with the given attributes. The properties that are no
elements are in the order in which they are in the first. -/
structure Revalued (o o' : Object) (key : Key) (a : Attributes) : Prop where
  own : ∃ v, o'.find? key = some (.data v a)
  order : o'.table.keys = o.table.keys

/-- The definition of a value alone exchanges the value, if anything. -/
theorem Revalued.ordinaryDefine {o' : Object} (h : o.Revalued o' key a) (v : Value) :
    o.Revalued (o'.ordinaryDefine key (.ofValue v)).2 key a := by
  obtain ⟨v₁, found⟩ := h.own
  rcases snd_ordinaryDefine_ofValue found v with hkept | hstored
  · rw [hkept]
    exact h
  · rw [hstored]
    refine ⟨⟨v, ?_⟩, ?_⟩
    · rw [find?_store, if_pos rfl]
    · rw [(keys_store (Option.isSome_of_mem found) _).1, h.order]

/-- The definition of a value alone leaves the order of the properties as it is. -/
theorem keys_ordinaryDefine_ofValue (found : o.find? key = some (.data v₀ a)) (v : Value) :
    (o.ordinaryDefine key (.ofValue v)).2.keys = o.keys := by
  rcases snd_ordinaryDefine_ofValue found v with hkept | hstored
  · rw [hkept]
  · rw [hstored, (keys_store (Option.isSome_of_mem found) _).2]

/-- The removal of elements does not touch what is stored under a name. -/
theorem Revalued.truncate {o' : Object} (h : o.Revalued o' .length a) (first bound : Nat) :
    o.Revalued (o'.truncate first bound).2 .length a := by
  obtain ⟨kind, table, ancestors, extensible⟩ := o'
  cases kind <;> exact ⟨h.own, h.order⟩

/-- The definition of a length by its value alone exchanges the value, however often it is stored. -/
theorem Revalued.defineLength (found : o.find? .length = some (.data v₀ a)) (n : Nat) (v : Value) :
    o.Revalued (o.defineLength n (.ofValue v)).2 .length a := by
  have start : o.Revalued o .length a := ⟨⟨v₀, found⟩, rfl⟩
  have hfreeze : ((Descriptor.ofValue v).writable == some false) = false := rfl
  simp only [Object.defineLength, hfreeze, Bool.false_eq_true, if_false]
  split
  · exact start.ordinaryDefine (.ofNat n)
  split
  · exact start
  have hlowered := start.ordinaryDefine (.ofNat n)
  rw [Descriptor.ofValue] at hlowered ⊢
  generalize o.ordinaryDefine .length _ = lowered at hlowered ⊢
  obtain ⟨_ | r, p⟩ := lowered
  · have htruncated := hlowered.truncate n o.lengthState.1
    dsimp only
    generalize p.truncate n o.lengthState.1 = truncated at htruncated ⊢
    obtain ⟨_ | blocked, q⟩ := truncated
    · exact htruncated
    · exact htruncated.ordinaryDefine (.ofNat (blocked + 1))
  · exact hlowered

end Object

end ObjectModel
