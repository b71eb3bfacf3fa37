import ObjectModel.Elements

/-!
# Element storage is a finite map

What `write`, `delete` and `ensureCapacity` do to the entries, said through `read` alone. None of the
laws mentions the representation: a write that turns a dense storage sparse reads back like any other.

* `read_write`, `read_delete`, `read_ensureCapacity` give every entry after an operation.
* `mem_toList` and `toList_ascending` say that `toList` holds exactly the entries, each once and in
  ascending order of their positions.
-/

namespace ObjectModel.Elements

variable {α : Type}

/-! ## Dense slots -/

/-- The entries of slots are those that the slots hold. -/
theorem mem_slotEntries {slots : Array (Option α)} {i : Nat} {a : α} :
    (i, a) ∈ slotEntries slots ↔ slots[i]? = some (some a) := by
  simp only [slotEntries, List.mem_filterMap, Option.map_eq_some_iff, Prod.mk.injEq]
  constructor
  · rintro ⟨⟨slot, j⟩, hmem, b, hslot, rfl, rfl⟩
    obtain rfl : slot = some b := hslot
    rw [List.mem_zipIdx_iff_getElem?] at hmem
    simpa using hmem
  · intro h
    refine ⟨(some a, i), ?_, a, rfl, rfl, rfl⟩
    rw [List.mem_zipIdx_iff_getElem?]
    simpa using h

/-- The entries of slots come by ascending position. -/
theorem slotEntries_ascending (slots : Array (Option α)) :
    (slotEntries slots).Pairwise fun e f => e.1 < f.1 := by
  rw [slotEntries, List.pairwise_filterMap]
  have hidx : (slots.toList.zipIdx.map Prod.snd).Pairwise (· < ·) := by
    rw [List.zipIdx_map_snd, ← List.range_eq_range']
    exact List.pairwise_lt_range
  rw [List.pairwise_map] at hidx
  refine hidx.imp ?_
  rintro ⟨s, i⟩ ⟨t, j⟩ hij e he f hf
  obtain ⟨_, _, rfl⟩ := Option.map_eq_some_iff.1 he
  obtain ⟨_, _, rfl⟩ := Option.map_eq_some_iff.1 hf
  exact hij

/-- Looking a position up among the entries of slots is looking at the slot. -/
theorem getElem?_ofList_slotEntries (slots : Array (Option α)) (i : Nat) :
    (Std.TreeMap.ofList (slotEntries slots))[i]? = slots[i]?.join := by
  cases hslot : slots[i]?.join with
  | some a =>
    refine Std.TreeMap.getElem?_ofList_of_mem (k := i) Std.ReflCmp.compare_self ?_ ?_
    · exact (slotEntries_ascending slots).imp fun h => by
        rw [Nat.compare_eq_eq]
        exact Nat.ne_of_lt h
    · rw [mem_slotEntries]
      simpa [Option.join_eq_some_iff] using hslot
  | none =>
    refine Std.TreeMap.getElem?_ofList_of_contains_eq_false ?_
    rw [Bool.eq_false_iff, Ne, List.contains_iff_mem, List.mem_map]
    rintro ⟨⟨j, a⟩, hmem, rfl⟩
    rw [mem_slotEntries] at hmem
    simp [hmem] at hslot

/-- Padding adds no entry. -/
theorem join_getElem?_padSlots (slots : Array (Option α)) (size i : Nat) :
    (padSlots slots size)[i]?.join = slots[i]?.join := by
  rw [padSlots, Array.getElem?_append]
  split
  · rfl
  · next h =>
    rw [Array.getElem?_eq_none (Nat.le_of_not_lt h), Array.getElem?_replicate]
    split <;> rfl

/-- A write that stays dense finds its slot after the growth. -/
theorem lt_grownCapacity {limits : Limits} {i capacity : Nat}
    (h : staysDense limits i capacity = true) : i < grownCapacity i capacity := by
  simp only [staysDense, Bool.and_eq_true, decide_eq_true_eq] at h
  simp only [grownCapacity]
  omega

/-! ## The map -/

/-- A write is seen at its position and nowhere else. -/
theorem read_write (e : Elements α) (i j : Nat) (a : α) :
    (e.write i a).read j = if i = j then some a else e.read j := by
  obtain ⟨slots | entries, limits⟩ := e
  · simp only [write]
    split
    · next hdense =>
      split
      · next hlt =>
        simp only [read, Array.getElem?_setIfInBounds, hlt, if_true]
        split <;> rfl
      · next hge =>
        have hsize : i < (padSlots slots (grownCapacity i slots.size)).size := by
          have := lt_grownCapacity hdense
          simp only [padSlots, Array.size_append, Array.size_replicate]
          omega
        simp only [read, Array.getElem?_setIfInBounds, hsize, if_true]
        split
        · rfl
        · exact join_getElem?_padSlots ..
    · simp only [read, Std.TreeMap.getElem?_insert, Nat.compare_eq_eq, getElem?_ofList_slotEntries]
  · simp only [write, read, Std.TreeMap.getElem?_insert, Nat.compare_eq_eq]

/-- A deletion answers whether there was an entry. -/
theorem fst_delete (e : Elements α) (i : Nat) : (e.delete i).1 = e.contains i := by
  obtain ⟨slots | entries, limits⟩ := e
  · rfl
  · simp only [delete, contains, read, Std.TreeMap.contains_eq_isSome_getElem?]

/-- A deletion empties its position and no other. -/
theorem read_delete (e : Elements α) (i j : Nat) :
    (e.delete i).2.read j = if i = j then none else e.read j := by
  obtain ⟨slots | entries, limits⟩ := e
  · simp only [delete, read, Array.getElem?_setIfInBounds]
    split
    · split <;> rfl
    · rfl
  · simp only [delete, read, Std.TreeMap.getElem?_erase, Nat.compare_eq_eq]

/-- Growing changes no entry. -/
theorem read_ensureCapacity (e : Elements α) (capacity i : Nat) :
    (e.ensureCapacity capacity).read i = e.read i := by
  obtain ⟨slots | entries, limits⟩ := e
  · exact join_getElem?_padSlots ..
  · rfl

/-- A fresh storage is empty. -/
theorem read_withLimits (capacity : Nat) (limits : Limits) (i : Nat) :
    (withLimits capacity limits : Elements α).read i = none := by
  simp only [withLimits, read]
  split
  · next h =>
    split at h
    · cases h
      rw [Array.getElem?_replicate]
      split <;> rfl
    · cases h
  · next h =>
    split at h
    · cases h
    · cases h
      exact Std.TreeMap.getElem?_emptyc

/-- The list holds exactly the entries. -/
theorem mem_toList (e : Elements α) {i : Nat} {a : α} :
    (i, a) ∈ e.toList ↔ e.read i = some a := by
  obtain ⟨slots | entries, limits⟩ := e
  · simp only [toList, read, mem_slotEntries, Option.join_eq_some_iff]
  · exact Std.TreeMap.mem_toList_iff_getElem?_eq_some

/-- The list goes by ascending position. -/
theorem toList_ascending (e : Elements α) : e.toList.Pairwise fun a b => a.1 < b.1 := by
  obtain ⟨slots | entries, limits⟩ := e
  · exact slotEntries_ascending slots
  · exact Std.TreeMap.ordered_keys_toList.imp fun h => Nat.compare_eq_lt.1 h

end ObjectModel.Elements
