import ObjectModel.Inspection
import ObjectModel.Proofs.Elements.Capacity
import ObjectModel.Proofs.Object.Changes
import ObjectModel.Proofs.Heap.View

/-!
# Objects that nothing tells apart

Alike objects show the same properties in the same order, and may still differ in how the elements of an
array are represented. `Indistinct` objects do not, so an inspection finds no difference either.

A property that is stored once more in its own place leaves an indistinct object, though for a sparse
storage perhaps not an equal one. For a dense storage this depends on its being snug: there is room for the
element, since it is there already, but a storage at its ceiling would turn sparse. The storages of all
objects are snug.
-/

namespace ObjectModel

namespace Elements

variable {α : Type} {e e' : Elements α} {i : Nat}

/-- An entry of a dense storage is in one of its slots. -/
theorem lt_capacity_of_read (dense : e.isDense = true) (occupied : (e.read i).isSome = true) :
    i < e.capacity := by
  obtain ⟨slots | entries, limits⟩ := e
  · by_contra outside
    have hslot : slots[i]?.join.isSome = true := occupied
    rw [Array.getElem?_eq_none (Nat.le_of_not_lt outside)] at hslot
    cases hslot
  · cases dense

/-- Storages that read alike, are both dense or both sparse and have the same thresholds answer the same
smallest position. -/
theorem smallestIndex_congr (same : ∀ j, e.read j = e'.read j) (dense : e.isDense = e'.isDense)
    (limits : e.limits = e'.limits) : e.smallestIndex = e'.smallestIndex := by
  have hlist := toList_congr same
  obtain ⟨slots | entries, thresholds⟩ := e <;> obtain ⟨slots' | entries', thresholds'⟩ := e'
  · rfl
  · cases dense
  · cases dense
  · obtain rfl : thresholds = thresholds' := limits
    have hequiv : entries.Equiv entries' := Std.TreeMap.equiv_iff_toList_eq.2 hlist
    simp only [smallestIndex, hequiv.isEmpty_eq, hequiv.size_eq, hequiv.contains_eq, hequiv.minKey?_eq]

/-- A write over an entry of a snug storage leaves representation and capacity as they are. -/
theorem Snug.write_of_occupied (snug : e.Snug) (word : i < maxCapacity)
    (occupied : (e.read i).isSome = true) (a : α) :
    (e.write i a).isDense = e.isDense ∧ (e.write i a).capacity = e.capacity := by
  cases hdense : e.isDense with
  | true =>
    rw [← hdense]
    exact snug.write_of_lt word (lt_capacity_of_read hdense occupied) a
  | false =>
    have hwritten : (e.write i a).isDense = false := by
      rw [isDense_write, hdense, Bool.false_and]
    exact ⟨hwritten, by rw [capacity_of_sparse hwritten, capacity_of_sparse hdense]⟩

end Elements

namespace Object

variable {o o' : Object}

/-- The description of an object depends on its class, its table and the number of its elements. -/
theorem describe_congr (hclass : o.toClass = o'.toClass) (htable : o.table = o'.table)
    (hcount : o.elements?.map (·.count) = o'.elements?.map (·.count)) : o.describe = o'.describe := by
  unfold describe
  generalize o.elements? = elements at hcount ⊢
  generalize o'.elements? = elements' at hcount ⊢
  rw [hclass, htable]
  cases elements <;> cases elements'
  · rfl
  · cases hcount
  · cases hcount
  · have hcounts := Option.some.inj hcount
    dsimp only at hcounts ⊢
    rw [hcounts]

/-- How the elements of an array are represented: whether they are dense, in how many slots, and with
which thresholds. -/
def representation (o : Object) : Option (Bool × Nat × Limits) :=
  o.elements?.map fun e => (e.isDense, e.capacity, e.limits)

/-- The objects are alike, and their elements are represented in the same way. -/
structure Indistinct (o o' : Object) : Prop where
  alike : o.Alike o'
  representation : o.representation = o'.representation

namespace Indistinct

/-- No object is distinct from itself. -/
theorem refl (o : Object) : o.Indistinct o := ⟨.refl o, rfl⟩

/-- Indistinct objects are the same in an inspection. -/
theorem inspect (h : o.Indistinct o') : o.summary = o'.summary ∧ o.profile = o'.profile := by
  obtain ⟨halike, hrepresentation⟩ := h
  have hlength := halike.length
  cases halike with
  | refl => exact ⟨rfl, rfl⟩
  | @array e e' same table ancestors extensible =>
    simp only [Object.representation, elements?, Option.map_some, Option.some.injEq, Prod.mk.injEq]
      at hrepresentation
    obtain ⟨hdense, hcapacity, hlimits⟩ := hrepresentation
    have hcount : e.count = e'.count := by
      rw [Elements.count_eq_length, Elements.count_eq_length, Elements.toList_congr same]
    have hsmallest := Elements.smallestIndex_congr same hdense hlimits
    have hsummary : e.summary = e'.summary := by
      rw [Elements.summary, Elements.summary, hdense, hcapacity, hcount, hsmallest]
    have hdescribe : describe ⟨.array e, table, ancestors, extensible⟩
        = describe ⟨.array e', table, ancestors, extensible⟩ :=
      describe_congr rfl rfl (congrArg some hcount)
    refine ⟨?_, ?_⟩
    · show ObjectSummary.mk _ _ (some (e.summary, _)) = ObjectSummary.mk _ _ (some (e'.summary, _))
      rw [hlength, hsummary]
      rfl
    · show ObjectProfile.mk _ _ _ _ e.smallestIndex _ = ObjectProfile.mk _ _ _ _ e'.smallestIndex _
      rw [hlength, hsmallest, hdescribe]
      rfl

end Indistinct

/-! ## Stored in its own place -/

/-- A write over an element of an array with a snug storage keeps the representation. -/
theorem representation_store (snug : o.StorageIs Elements.Snug) (array : o.isArray = true) {i : Index}
    (occupied : (o.find? (.index i)).isSome = true) (p : Property) :
    (o.store (.index i) p).representation = o.representation := by
  obtain ⟨e, table, ancestors, extensible, rfl⟩ := exists_of_isArray array
  obtain ⟨hdense, hcapacity⟩ := (snug e rfl).write_of_occupied i.isLt occupied p
  show some ((e.write i p).isDense, (e.write i p).capacity, (e.write i p).limits) = some _
  rw [hdense, hcapacity, Elements.limits_write]

/-- An element of an array with a snug storage that is stored once more leaves an indistinct array. -/
theorem indistinct_store_self (snug : o.StorageIs Elements.Snug) (array : o.isArray = true) {i : Index}
    {p : Property} (found : o.find? (.index i) = some p) : (o.store (.index i) p).Indistinct o := by
  refine ⟨?_, representation_store snug array (Option.isSome_of_mem found) p⟩
  obtain ⟨e, table, ancestors, extensible, rfl⟩ := exists_of_isArray array
  refine .array (fun j => ?_) ..
  rw [Elements.read_write]
  split
  · next hij =>
    rw [← hij]
    exact found.symm
  · rfl

/-- Every new object has a snug storage. -/
theorem Fresh.snug (fresh : o.Fresh) : o.StorageIs Elements.Snug :=
  fresh.storageIs (fun _ i p snug => snug.write i p) (fun _ i snug => snug.delete i) .withLimits

end Object

/-- Every edit leaves a snug storage. -/
theorem Edit.snug (e : Edit) {o : Object} (snug : o.StorageIs Elements.Snug) :
    (e.apply o).StorageIs Elements.Snug :=
  (e.changes o).preserve
    (Object.Change.storageIs (fun _ i p snug => snug.write i p) fun _ i snug => snug.delete i) snug

namespace Heap

/-- The heaps hold as many objects, and objects under one id are indistinct. -/
structure Indistinct (h h' : Heap) : Prop where
  size_eq : h.objects.size = h'.objects.size
  objects : ∀ id, (h.get id).Indistinct (h'.get id)

/-- No heap is distinct from itself. -/
theorem Indistinct.refl (h : Heap) : h.Indistinct h := ⟨rfl, fun _ => .refl _⟩

/-- Indistinct heaps have one view. -/
theorem Indistinct.view {h h' : Heap} (indistinct : h.Indistinct h') : h.view = h'.view :=
  view_eq_iff.2 ⟨indistinct.size_eq, fun id => (indistinct.objects id).alike⟩

/-- Edits that leave indistinct objects leave indistinct heaps. -/
theorem Indistinct.of_edits (h : Heap) {id : ObjectId} {e e' : Edit}
    (same : (e.apply (h.get id)).Indistinct (e'.apply (h.get id))) :
    (h.edit id e).Indistinct (h.edit id e') := by
  refine ⟨by rw [size_edit, size_edit], fun other => ?_⟩
  by_cases inHeap : h.Has id
  · rw [get_edit h id e inHeap, get_edit h id e' inHeap]
    split
    · exact same
    · exact .refl _
  · rw [edit_of_not_has e inHeap, edit_of_not_has e' inHeap]
    exact .refl _

end Heap

end ObjectModel
