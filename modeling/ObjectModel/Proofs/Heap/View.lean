import ObjectModel.Proofs.Object.View

/-!
# What can be seen of a heap

The view of a heap is the list of the views of its objects. Two heaps with one view are `Alike`: they
hold as many objects, and objects under one id are alike (`Heap.view_eq_iff`). What the protocol reads
of a heap is the same in both, and they stay alike when both are edited in the same way, or given
objects that are alike.
-/

namespace ObjectModel.Heap

/-- What the objects of a heap show of themselves. -/
def view (h : Heap) : Array ObjectView := h.objects.map Object.view

/-- Two heaps are alike if they hold as many objects, and objects under one id are alike. -/
structure Alike (h h' : Heap) : Prop where
  size_eq : h.objects.size = h'.objects.size
  objects : ∀ id, (h.get id).Alike (h'.get id)

/-- Two heaps have one view exactly if they are alike. -/
theorem view_eq_iff {h h' : Heap} : h.view = h'.view ↔ h.Alike h' := by
  have hread : ∀ (g : Heap) (i : Nat), (g.view[i]?).getD (Object.view default)
      = (g.get ⟨i⟩).view := by
    intro g i
    rw [view, Array.getElem?_map, get]
    cases g.objects[i]? <;> rfl
  constructor
  · intro hview
    refine ⟨?_, fun id => Object.view_eq_iff.1 ?_⟩
    · simpa only [view, Array.size_map] using congrArg Array.size hview
    · rw [← hread h id.index, ← hread h' id.index, hview]
  · rintro ⟨hsize, hobjects⟩
    refine Array.ext (by rw [view, view, Array.size_map, Array.size_map, hsize]) fun i hi hi' => ?_
    have hobject := Object.view_eq_iff.2 (hobjects ⟨i⟩)
    rw [← hread h i, ← hread h' i, Array.getElem?_eq_getElem hi, Array.getElem?_eq_getElem hi']
      at hobject
    exact hobject

namespace Alike

variable {h h' : Heap}

/-- A heap is alike to itself. -/
theorem refl (h : Heap) : h.Alike h := ⟨rfl, fun _ => .refl _⟩

/-! ## Questions to alike heaps -/

/-- An object is of the same class in alike heaps. -/
theorem classOf (alike : h.Alike h') (id : ObjectId) : h.classOf id = h'.classOf id :=
  (alike.objects id).toClass

/-- An object has the same chain in alike heaps. -/
theorem chain (alike : h.Alike h') (id : ObjectId) : h.chain id = h'.chain id := by
  rw [Heap.chain, Heap.chain, (alike.objects id).ancestors]

/-- The nearest property on a chain is the same in alike heaps. -/
theorem property? (alike : h.Alike h') (id : ObjectId) (key : Key) :
    h.property? id key = h'.property? id key := by
  rw [Heap.property?, Heap.property?, alike.chain]
  simp only [(alike.objects _).find?]

/-- The nearest inherited property is the same in alike heaps. -/
theorem inherited? (alike : h.Alike h') (id : ObjectId) (key : Key) :
    h.inherited? id key = h'.inherited? id key := by
  rw [Heap.inherited?, Heap.inherited?, (alike.objects id).ancestors]
  simp only [(alike.objects _).find?]

/-- An assignment is allowed in both of two alike heaps or in neither. -/
theorem canPut (alike : h.Alike h') (id : ObjectId) (key : Key) :
    h.canPut id key = h'.canPut id key := by
  rw [Heap.canPut, Heap.canPut, (alike.objects id).find?, (alike.objects id).extensible,
    alike.inherited?]

/-- An enumeration takes the same step in alike heaps. -/
theorem next (alike : h.Alike h') (c : Cursor) : h.next c = h'.next c := by
  rw [Heap.next, Heap.next, (alike.objects c.owner).nextProperty]

/-! ## Changes of alike heaps -/

/-- Alike heaps stay alike under the same edit. -/
theorem edit (alike : h.Alike h') (id : ObjectId) (e : Edit) :
    (h.edit id e).Alike (h'.edit id e) := by
  refine ⟨by rw [size_edit, size_edit, alike.size_eq], fun other => ?_⟩
  by_cases inHeap : h.Has id
  · have inHeap' : h'.Has id := by
      rw [Has, ← alike.size_eq]
      exact inHeap
    rw [get_edit h id e inHeap, get_edit h' id e inHeap']
    split
    · exact ((alike.objects id).act e).2
    · exact alike.objects other
  · have outside : ¬ h'.Has id := by
      rw [Has, ← alike.size_eq]
      exact inHeap
    rw [edit_of_not_has e inHeap, edit_of_not_has e outside]
    exact alike.objects other

/-- Alike heaps stay alike when given alike objects. -/
theorem allocate (alike : h.Alike h') {o o' : Object} (new : o.Alike o') :
    (h.allocate o).2.Alike (h'.allocate o').2 := by
  refine ⟨?_, fun id => ?_⟩
  · simp only [Heap.allocate, Array.size_push, alike.size_eq]
  · rw [get_allocate, get_allocate, alike.size_eq]
    split
    · exact new
    · exact alike.objects id

/-- Alike heaps give the next object the same id. -/
theorem fst_allocate (alike : h.Alike h') (o o' : Object) :
    (h.allocate o).1 = (h'.allocate o').1 := by
  simp only [Heap.allocate, alike.size_eq]

end Alike

end ObjectModel.Heap
