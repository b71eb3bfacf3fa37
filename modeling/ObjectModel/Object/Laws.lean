import ObjectModel.Elements.Laws
import ObjectModel.Object.Basic

/-!
# Own properties are a finite map

`store` and `erase` seen through `find?`: wherever a property is kept, storing and taking away concern its
key alone. Neither changes what kind of object it is, where it inherits from, or whether it takes new
properties.
-/

namespace ObjectModel.Object

/-- A stored property is found under its key, and nothing else changes. -/
theorem find?_store (o : Object) (key other : Key) (p : Property) :
    (o.store key p).find? other = if key = other then some p else o.find? other := by
  obtain ⟨kind, table, ancestors, extensible⟩ := o
  cases kind with
  | ordinary | function => exact PropertyTable.find?_insert table key other p
  | array elements =>
    cases key with
    | index i =>
      cases other with
      | index j =>
        simp only [store, find?, Elements.read_write, Key.index.injEq, Fin.ext_iff]
      | name text notIndex => simp [store, find?]
    | name text notIndex =>
      cases other with
      | index j => simp [store, find?]
      | name other hother => exact PropertyTable.find?_insert table _ _ p

/-- A key that was taken away has no property, and nothing else changes. -/
theorem find?_erase (o : Object) (key other : Key) :
    (o.erase key).find? other = if key = other then none else o.find? other := by
  obtain ⟨kind, table, ancestors, extensible⟩ := o
  cases kind with
  | ordinary | function => exact PropertyTable.find?_erase table key other
  | array elements =>
    cases key with
    | index i =>
      cases other with
      | index j =>
        simp only [erase, find?, Elements.read_delete, Key.index.injEq, Fin.ext_iff]
      | name text notIndex => simp [erase, find?]
    | name text notIndex =>
      cases other with
      | index j => simp [erase, find?]
      | name other hother => exact PropertyTable.find?_erase table _ _

/-- Storing a property keeps the class. -/
theorem toClass_store (o : Object) (key : Key) (p : Property) :
    (o.store key p).toClass = o.toClass := by
  obtain ⟨kind, table, ancestors, extensible⟩ := o
  cases kind <;> cases key <;> rfl

/-- Storing a property keeps the chain. -/
theorem ancestors_store (o : Object) (key : Key) (p : Property) :
    (o.store key p).ancestors = o.ancestors := by
  obtain ⟨kind, table, ancestors, extensible⟩ := o
  cases kind <;> cases key <;> rfl

/-- Storing a property does not change whether others may be added. -/
theorem extensible_store (o : Object) (key : Key) (p : Property) :
    (o.store key p).extensible = o.extensible := by
  obtain ⟨kind, table, ancestors, extensible⟩ := o
  cases kind <;> cases key <;> rfl

/-- Taking a property away keeps the class. -/
theorem toClass_erase (o : Object) (key : Key) : (o.erase key).toClass = o.toClass := by
  obtain ⟨kind, table, ancestors, extensible⟩ := o
  cases kind <;> cases key <;> rfl

/-- Taking a property away does not change whether others may be added. -/
theorem extensible_erase (o : Object) (key : Key) : (o.erase key).extensible = o.extensible := by
  obtain ⟨kind, table, ancestors, extensible⟩ := o
  cases kind <;> cases key <;> rfl

end ObjectModel.Object
