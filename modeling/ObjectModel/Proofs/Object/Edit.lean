import ObjectModel.Object.Laws
import ObjectModel.Protocol.Assignment

/-!
# Edits

Whatever an operation does, it changes objects only by a few functions on one object at a time. An
`Edit` names one of them with its arguments, so that what all changes have in common can be stated and
proved once, edit by edit.

The protocol asks questions before it edits. What it knows of the object at that moment is
`Edit.Ruled`: an assignment overwrites no array property in place, and an array's length is given a
value by `defineLength` alone. Two edits are made only at the direct request of an operation, and are
ruled for no object: the ordinary definition, and the removal that asks nothing.

An object that is not the outcome of edits is as it was made, or `Fresh`.
-/

namespace ObjectModel

/-- A change of one object. -/
inductive Edit where
  | define (key : Key) (d : Descriptor)
  | defineLength (n : Nat) (d : Descriptor)
  | ordinaryDefine (key : Key) (d : Descriptor)
  | delete (key : Key)
  | erase (key : Key)
  | preventExtensions
  | overwrite (value : Value) (key : Key)
  | overwriteElement (value : Value) (i : Nat)

namespace Edit

/-- The type of an edit's answers. -/
def Answer : Edit → Type
  | define .. | defineLength .. | ordinaryDefine .. | delete .. => Verdict
  | erase .. | preventExtensions => Unit
  | overwrite .. | overwriteElement .. => Bool

/-- What an edit answers, and what it makes of an object. -/
def act : (e : Edit) → Object → e.Answer × Object
  | define key d, o => o.define key d
  | defineLength n d, o => o.defineLength n d
  | ordinaryDefine key d, o => o.ordinaryDefine key d
  | delete key, o => o.delete key
  | erase key, o => ((), o.erase key)
  | preventExtensions, o => ((), o.preventExtensions)
  | overwrite value key, o => Protocol.overwrite value key o
  | overwriteElement value i, o => Protocol.overwriteElement value i o

/-- What an edit makes of an object. -/
def apply (e : Edit) (o : Object) : Object := (e.act o).2

/-- What the protocol has made sure of when it makes an edit of its own accord. -/
def Ruled : Edit → Object → Prop
  | define key d, o => o.isArray = true → key.isLength = true → d.value = none
  | defineLength n _, _ => n < 2 ^ 32
  | overwrite _ _, o => o.isArray = false
  | delete _, _ | preventExtensions, _ | overwriteElement _ _, _ => True
  | ordinaryDefine _ _, _ | erase _, _ => False

end Edit

namespace Object

/-! ## What an edit leaves alone -/

/-- A definition is refused, or accepted without a change, or stores a property. -/
theorem ordinaryDefine_cases (o : Object) (key : Key) (d : Descriptor) :
    (∃ r, o.ordinaryDefine key d = (.refused r, o))
      ∨ o.ordinaryDefine key d = (.accepted, o)
      ∨ ∃ p, d.decide (o.find? key) o.extensible = .store p
          ∧ o.ordinaryDefine key d = (.accepted, o.store key p) := by
  rw [ordinaryDefine]
  cases d.decide (o.find? key) o.extensible with
  | refuse fault => exact .inl ⟨_, rfl⟩
  | keep => exact .inr (.inl rfl)
  | store p => exact .inr (.inr ⟨p, rfl, rfl⟩)

/-- An ordinary definition keeps the class. -/
theorem toClass_ordinaryDefine (o : Object) (key : Key) (d : Descriptor) :
    (o.ordinaryDefine key d).2.toClass = o.toClass := by
  rcases o.ordinaryDefine_cases key d with ⟨r, hr⟩ | hkeep | ⟨p, -, hstore⟩
  · rw [hr]
  · rw [hkeep]
  · rw [hstore, toClass_store]

/-- An ordinary definition concerns one property. -/
theorem find?_ordinaryDefine_of_ne (o : Object) {key other : Key} (ne : key ≠ other) (d : Descriptor) :
    (o.ordinaryDefine key d).2.find? other = o.find? other := by
  rcases o.ordinaryDefine_cases key d with ⟨r, hr⟩ | hkeep | ⟨p, -, hstore⟩
  · rw [hr]
  · rw [hkeep]
  · rw [hstore, find?_store, if_neg ne]

/-- What is kept by an ordinary definition of the length and by a truncation to a length is kept by the
definition of a length. -/
theorem defineLength_induction {motive : Object → Prop} {o : Object} (n : Nat) (d : Descriptor)
    (start : motive o) (define : ∀ p e, motive p → motive (p.ordinaryDefine .length e).2)
    (truncate : ∀ p, motive p → motive (p.truncate n o.lengthState.1).2) :
    motive (o.defineLength n d).2 := by
  simp only [defineLength]
  split
  · exact define _ _ start
  split
  · exact start
  -- from here on what the definitions say does not matter
  generalize (if (d.writable == some false) = true then _ else _ : Descriptor) = lowering
  have hlowered := define o lowering start
  generalize o.ordinaryDefine .length lowering = lowered at hlowered ⊢
  obtain ⟨_ | _, p⟩ := lowered
  · have htruncated := truncate p hlowered
    dsimp only
    generalize p.truncate n o.lengthState.1 = truncated at htruncated ⊢
    obtain ⟨_ | _, q⟩ := truncated
    · dsimp only
      split
      · exact define _ _ htruncated
      · exact htruncated
    · exact define _ _ htruncated
  · exact hlowered

/-- A truncation keeps the class. -/
theorem toClass_truncate (o : Object) (first bound : Nat) :
    (o.truncate first bound).2.toClass = o.toClass := by
  obtain ⟨kind, table, ancestors, extensible⟩ := o
  cases kind <;> rfl

/-- The definition of a length keeps the class. -/
theorem toClass_defineLength (o : Object) (n : Nat) (d : Descriptor) :
    (o.defineLength n d).2.toClass = o.toClass := by
  refine defineLength_induction (motive := fun p => p.toClass = o.toClass) n d rfl ?define ?truncate
  case define =>
    intro p e hp
    rw [toClass_ordinaryDefine, hp]
  case truncate =>
    intro p hp
    rw [toClass_truncate, hp]

/-- The definition of an element keeps the class. -/
theorem toClass_defineIndex (o : Object) (i : Index) (d : Descriptor) :
    (o.defineIndex i d).2.toClass = o.toClass := by
  simp only [defineIndex]
  split
  · rfl
  have hdefined := toClass_ordinaryDefine o (.index i) d
  generalize o.ordinaryDefine (.index i) d = defined at hdefined ⊢
  obtain ⟨_ | _, p⟩ := defined
  · dsimp only
    split
    · rw [setLength, toClass_store]
      exact hdefined
    · exact hdefined
  · exact hdefined

end Object

/-- No edit changes the class of an object. -/
theorem Edit.toClass_apply (e : Edit) (o : Object) : (e.apply o).toClass = o.toClass := by
  cases e with
  | define key d =>
    obtain ⟨kind, table, ancestors, extensible⟩ := o
    cases kind with
    | ordinary | function => exact Object.toClass_ordinaryDefine ..
    | array elements =>
      cases key with
      | index i => exact Object.toClass_defineIndex ..
      | name => exact Object.toClass_ordinaryDefine ..
  | defineLength n d => exact Object.toClass_defineLength ..
  | ordinaryDefine key d => exact Object.toClass_ordinaryDefine ..
  | delete key =>
    rw [apply, act, Object.delete]
    split
    · rfl
    · split
      · exact Object.toClass_erase ..
      · rfl
  | erase key => exact Object.toClass_erase ..
  | preventExtensions => rfl
  | overwrite value key =>
    rw [apply, act, Protocol.overwrite]
    split
    · split
      · exact Object.toClass_store ..
      · rfl
    · rfl
  | overwriteElement value i =>
    rw [apply, act, Protocol.overwriteElement]
    split
    · split
      · exact Object.toClass_store ..
      · rfl
    · rfl

/-- An object as it is made. -/
inductive Object.Fresh : Object → Prop
  | ordinary (ancestors : List ObjectId) : Fresh (ordinary ancestors)
  | array (ancestors : List ObjectId) (capacity : Nat) (limits : Limits) :
    Fresh (array ancestors capacity limits)
  | arrayOf (values : List Value) : Fresh (arrayOf values)
  | function : Fresh function

namespace Heap

/-- The heap with one object edited. -/
def edit (h : Heap) (id : ObjectId) (e : Edit) : Heap := (h.alter id e.act).2

/-- An edited object reads as edited, and no other object changes. -/
theorem get_edit (h : Heap) (id : ObjectId) (e : Edit) (inHeap : h.Has id) (other : ObjectId) :
    (h.edit id e).get other = if id = other then e.apply (h.get id) else h.get other :=
  get_alter h id e.act inHeap other

/-- An edit answers what it answers on the object. -/
theorem fst_alter {α : Type} (h : Heap) (id : ObjectId) (f : Object → α × Object) :
    (h.alter id f).1 = (f (h.get id)).1 := by
  rw [alter_eq]

/-- Nothing changes in the heap if nothing changes in the object. -/
theorem alter_of_same {α : Type} {h : Heap} {id : ObjectId} {f : Object → α × Object}
    (same : (f (h.get id)).2 = h.get id) : h.alter id f = ((f (h.get id)).1, h) := by
  obtain ⟨objects⟩ := h
  have hstored : objects.setIfInBounds id.index (get ⟨objects⟩ id) = objects := by
    by_cases inHeap : id.index < objects.size
    · rw [get, Array.getElem?_eq_getElem inHeap, Option.getD_some, Array.setIfInBounds_def,
        dif_pos inHeap, Array.set_getElem_self]
    · rw [Array.setIfInBounds_eq_of_size_le (Nat.le_of_not_lt inHeap)]
  rw [alter_eq, same, hstored]

/-- What becomes of the heap depends only on what becomes of the object. -/
theorem alter_congr {α β : Type} {h : Heap} {id : ObjectId} {f : Object → α × Object}
    {g : Object → β × Object} (same : (f (h.get id)).2 = (g (h.get id)).2) :
    (h.alter id f).2 = (h.alter id g).2 := by
  rw [alter_eq, alter_eq, same]

/-- An object that is not in the heap cannot be edited. -/
theorem edit_of_not_has {h : Heap} {id : ObjectId} (e : Edit) (outside : ¬ h.Has id) :
    h.edit id e = h := by
  rw [edit, alter_eq]
  simp only [Array.setIfInBounds, dif_neg (show ¬ id.index < h.objects.size from outside)]

/-- An edit adds no object. -/
theorem size_edit (h : Heap) (id : ObjectId) (e : Edit) :
    (h.edit id e).objects.size = h.objects.size := by
  rw [edit, alter_eq, Array.size_setIfInBounds]

/-- A new object is there under its id, and no other object changes. -/
theorem get_allocate (h : Heap) (o : Object) (id : ObjectId) :
    (h.allocate o).2.get id = if id.index = h.objects.size then o else h.get id := by
  obtain ⟨objects⟩ := h
  simp only [allocate, get, Array.getElem?_push]
  split <;> rfl

/-- An object that is not in the heap reads as one without properties. -/
theorem get_of_not_has {h : Heap} {id : ObjectId} (outside : ¬ h.Has id) : h.get id = default := by
  rw [get, Array.getElem?_eq_none (Nat.le_of_not_lt outside)]
  rfl

/-- An array is in the heap. -/
theorem has_of_isArray {h : Heap} {id : ObjectId} (array : (h.get id).isArray = true) : h.Has id := by
  by_cases inHeap : h.Has id
  · exact inHeap
  · rw [get_of_not_has inHeap] at array
    cases array

/-- An object reads after an edit as it did before, or as edited. -/
theorem get_edit_cases (h : Heap) (id : ObjectId) (e : Edit) (other : ObjectId) :
    (h.edit id e).get other = h.get other
      ∨ id = other ∧ (h.edit id e).get other = e.apply (h.get other) := by
  by_cases inHeap : h.Has id
  · rw [get_edit h id e inHeap]
    split
    · next hid =>
      subst hid
      exact .inr ⟨rfl, rfl⟩
    · exact .inl rfl
  · rw [edit_of_not_has e inHeap]
    exact .inl rfl

/-- An object reads after another one is made as it did before, or is the new one. -/
theorem get_allocate_cases (h : Heap) (o : Object) (id : ObjectId) :
    (h.allocate o).2.get id = h.get id ∨ ¬ h.Has id ∧ (h.allocate o).2.get id = o := by
  rw [get_allocate]
  split
  · next hid => exact .inr ⟨by rw [Has, hid]; exact Nat.lt_irrefl _, rfl⟩
  · exact .inl rfl

/-- No edit changes the class of an object. -/
theorem classOf_edit (h : Heap) (id : ObjectId) (e : Edit) (other : ObjectId) :
    (h.edit id e).classOf other = h.classOf other := by
  rcases h.get_edit_cases id e other with hsame | ⟨-, hedited⟩
  · rw [classOf, hsame, classOf]
  · rw [classOf, hedited, e.toClass_apply, classOf]

end Heap

end ObjectModel
