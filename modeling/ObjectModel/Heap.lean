import ObjectModel.Object.Enumeration
import ObjectModel.Object.Length

/-!
# The heap

The heap holds every object there is, by id, in the order in which they were made. Objects are never
given back. An id that no object has reads as an object without properties and cannot be written to.

Reading along the prototype chain and deciding whether an assignment is allowed need more than one
object, and so belong here. Changing an object never does: `alter` runs a function on one object and
puts the result in its place.
-/

namespace ObjectModel

/-- The objects by id. -/
structure Heap where
  objects : Array Object := #[]

namespace Heap

instance : Inhabited Heap := ⟨{}⟩

/-- The object with an id. -/
def get (h : Heap) (id : ObjectId) : Object := h.objects[id.index]?.getD default

/-- The class of an object. -/
def classOf (h : Heap) (id : ObjectId) : Class := (h.get id).toClass

/-- Replaces an object by what `f` makes of it. The object is taken out of the heap meanwhile, so that
`f` is its only owner. -/
def alter {α : Type} (h : Heap) (id : ObjectId) (f : Object → α × Object) : α × Heap :=
  match h with
  | ⟨objects⟩ =>
    if inHeap : id.index < objects.size then
      let (o, objects) := objects.swapAt id.index default inHeap
      let (a, o) := f o
      (a, ⟨objects.setIfInBounds id.index o⟩)
    else
      ((f default).1, ⟨objects⟩)

/-- What `alter` answers and leaves behind, in terms of `get`. -/
theorem alter_eq {α : Type} (h : Heap) (id : ObjectId) (f : Object → α × Object) :
    h.alter id f
      = ((f (h.get id)).1, ⟨h.objects.setIfInBounds id.index (f (h.get id)).2⟩) := by
  obtain ⟨objects⟩ := h
  simp only [alter, get]
  split
  · next inHeap =>
    simp only [Array.swapAt, Array.getElem?_eq_getElem inHeap, Option.getD_some, Prod.mk.injEq,
      true_and, Heap.mk.injEq]
    ext i hi hj <;> grind
  · next outside =>
    simp [Array.setIfInBounds, outside]

/-- Whether an object has been made under an id. -/
def Has (h : Heap) (id : ObjectId) : Prop := id.index < h.objects.size

/-- A changed object reads as changed, and no other object changes. -/
theorem get_alter {α : Type} (h : Heap) (id : ObjectId) (f : Object → α × Object) (inHeap : h.Has id)
    (other : ObjectId) :
    (h.alter id f).2.get other = if id = other then (f (h.get id)).2 else h.get other := by
  have hsize : id.index < h.objects.size := inHeap
  rw [alter_eq]
  simp only [get, Array.getElem?_setIfInBounds, hsize, if_true]
  by_cases hid : id = other
  · subst hid
    simp
  · have hindex : id.index ≠ other.index := fun e => hid (by cases id; cases other; cases e; rfl)
    simp [hid, hindex]

/-- Adds an object and answers its id. -/
def allocate (h : Heap) (o : Object) : ObjectId × Heap :=
  match h with
  | ⟨objects⟩ => (⟨objects.size⟩, ⟨objects.push o⟩)

/-- An object and its ancestors, nearest first. -/
def chain (h : Heap) (id : ObjectId) : List ObjectId := id :: (h.get id).ancestors

/-- The nearest property on the chain: the object's own or an inherited one. -/
def property? (h : Heap) (id : ObjectId) (key : Key) : Option Property :=
  (h.chain id).findSome? fun a => (h.get a).find? key

/-- The nearest inherited property. -/
def inherited? (h : Heap) (id : ObjectId) (key : Key) : Option Property :=
  (h.get id).ancestors.findSome? fun a => (h.get a).find? key

/-- Whether an assignment to a key is allowed. An own property decides for itself. Without one, an
inherited accessor decides, and otherwise the object must take new properties and no inherited value may
be read-only. -/
def canPut (h : Heap) (id : ObjectId) (key : Key) : Bool :=
  match (h.get id).find? key with
  | some p => p.acceptsPut
  | none =>
    match h.inherited? id key with
    | none => (h.get id).extensible
    | some p => p.acceptsPut && (p.isAccessor || (h.get id).extensible)

/-- The next property of an enumeration, and the enumeration after it. -/
def next (h : Heap) (c : Cursor) : Option (Key × Property) × Cursor :=
  let (entry, pending) := (h.get c.owner).nextProperty c.pending
  (entry, { c with pending })

end Heap

end ObjectModel
