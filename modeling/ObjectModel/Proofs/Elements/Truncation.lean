import ObjectModel.Elements.Laws
import Mathlib.Data.List.Sort

/-!
# Truncation of element storage

Two results about element storage that go past single entries.

* `toList_congr`: storages that read alike list alike, so nothing but `read` matters to whatever is
  computed from the list of entries. The number of entries is one such thing (`count_eq_length`).
* `truncate_spec`: the deletion of a range from the top down. It visits either every position of the
  range or only the occupied ones, and both orders are descending and meet every entry. So the
  deletion stops at the highest fixed entry, whatever the order, and has emptied exactly the positions
  above it.
-/

namespace ObjectModel.Elements

variable {α : Type}

/-! ## Entries decide everything -/

/-- The list of entries is the one in ascending order that has what is read. -/
theorem toList_eq_of_ascending {e : Elements α} {entries : List (Nat × α)}
    (ascending : entries.Pairwise fun a b => a.1 < b.1)
    (mem : ∀ i a, e.read i = some a ↔ (i, a) ∈ entries) : e.toList = entries := by
  let below : Nat × α → Nat × α → Prop := fun a b => a.1 < b.1
  have : Std.Irrefl below := ⟨fun a => Nat.lt_irrefl a.1⟩
  have : Std.Antisymm below := ⟨fun a b hab hba => absurd (Nat.lt_trans hab hba) (Nat.lt_irrefl _)⟩
  refine (toList_ascending e : e.toList.Pairwise below).eq_of_mem_iff ascending ?_
  rintro ⟨i, a⟩
  rw [mem_toList, mem]

/-- Storages that read alike have the same list of entries. -/
theorem toList_congr {e e' : Elements α} (h : ∀ i, e.read i = e'.read i) : e.toList = e'.toList :=
  toList_eq_of_ascending (toList_ascending e') fun i a => by rw [h, mem_toList]

/-- Storages with the same list of entries read alike. -/
theorem read_congr {e e' : Elements α} (h : e.toList = e'.toList) (i : Nat) : e.read i = e'.read i := by
  ext a
  rw [← mem_toList, ← mem_toList, h]

/-- The occupied positions are those with an entry. -/
theorem mem_indices {e : Elements α} {i : Nat} : i ∈ e.indices ↔ (e.read i).isSome = true := by
  rw [indices, List.mem_map, Option.isSome_iff_exists]
  constructor
  · rintro ⟨⟨j, a⟩, hmem, rfl⟩
    exact ⟨a, (mem_toList e).1 hmem⟩
  · rintro ⟨a, ha⟩
    exact ⟨(i, a), (mem_toList e).2 ha, rfl⟩

/-- The occupied positions are listed in ascending order. -/
theorem indices_ascending (e : Elements α) : e.indices.Pairwise (· < ·) :=
  List.pairwise_map.2 (toList_ascending e)

/-- The number of entries is the length of their list. -/
theorem count_eq_length (e : Elements α) : e.count = e.toList.length := by
  obtain ⟨slots | entries, limits⟩ := e
  · simp only [count, toList, slotEntries, List.length_filterMap_eq_countP, Option.isSome_map]
    rw [← Array.countP_toList, ← List.zipIdx_map_fst 0 slots.toList, List.countP_map]
    simp only [List.zipIdx_map_fst]
    rfl
  · exact Std.TreeMap.length_toList.symm

/-- Storages that read alike visit the same positions in a truncation. -/
theorem removalOrder_congr {e e' : Elements α} (h : ∀ i, e.read i = e'.read i) (first bound : Nat) :
    e.removalOrder first bound = e'.removalOrder first bound := by
  rw [removalOrder, removalOrder, indices, indices, count_eq_length, count_eq_length, toList_congr h]

/-- Storages that read alike are stopped at the same position, and read alike afterwards. -/
theorem deleteUntilFixed_congr (fixed : α → Bool) (positions : List Nat) {e e' : Elements α}
    (h : ∀ i, e.read i = e'.read i) :
    (deleteUntilFixed fixed positions e).1 = (deleteUntilFixed fixed positions e').1
      ∧ ∀ i, (deleteUntilFixed fixed positions e).2.read i
          = (deleteUntilFixed fixed positions e').2.read i := by
  induction positions generalizing e e' with
  | nil => exact ⟨rfl, h⟩
  | cons p rest ih =>
    simp only [deleteUntilFixed, h p]
    split
    · exact ⟨rfl, h⟩
    · exact ih fun i => by rw [read_delete, read_delete, h]

/-- A truncation answers and leaves behind what the entries decide. -/
theorem truncate_congr (fixed : α → Bool) (first bound : Nat) {e e' : Elements α}
    (h : ∀ i, e.read i = e'.read i) :
    (truncate fixed first bound e).1 = (truncate fixed first bound e').1
      ∧ ∀ i, (truncate fixed first bound e).2.read i = (truncate fixed first bound e').2.read i := by
  rw [truncate, truncate, removalOrder_congr h]
  exact deleteUntilFixed_congr fixed _ h

/-! ## What a truncation does -/

/-- The entry at a position exists and is fixed. -/
def IsFixed (fixed : α → Bool) (e : Elements α) (i : Nat) : Prop := (e.read i).any fixed = true

/-- A fixed position is occupied. -/
theorem IsFixed.isSome {fixed : α → Bool} {e : Elements α} {i : Nat} (h : IsFixed fixed e i) :
    (e.read i).isSome = true := by
  rw [IsFixed, Option.any_eq_true] at h
  obtain ⟨a, ha, -⟩ := h
  exact Option.isSome_of_mem ha

/-- A region emptied from the top down, with the given answer: without a fixed entry in it the whole
region is empty afterwards, and otherwise the part of it above the highest fixed entry. -/
inductive Cleared (fixed : α → Bool) (region : Nat → Prop) (e : Elements α) :
    Option Nat → Elements α → Prop
  | complete {after : Elements α} (free : ∀ i, region i → ¬ IsFixed fixed e i)
      (gone : ∀ i, region i → after.read i = none)
      (kept : ∀ i, ¬ region i → after.read i = e.read i) : Cleared fixed region e none after
  | blocked {b : Nat} {after : Elements α} (inside : region b) (stop : IsFixed fixed e b)
      (free : ∀ i, region i → b < i → ¬ IsFixed fixed e i)
      (gone : ∀ i, region i → b < i → after.read i = none)
      (kept : ∀ i, ¬ (region i ∧ b < i) → after.read i = e.read i) :
      Cleared fixed region e (some b) after

/-- Unoccupied positions may be added to a region that was cleared. -/
theorem Cleared.extend {fixed : α → Bool} {region wider : Nat → Prop} {e after : Elements α}
    {answer : Option Nat} (h : Cleared fixed region e answer after)
    (inside : ∀ i, region i → wider i)
    (occupied : ∀ i, wider i → (e.read i).isSome = true → region i) :
    Cleared fixed wider e answer after := by
  have hempty : ∀ i, wider i → ¬ region i → e.read i = none := by
    intro i hwider hnot
    rw [← Option.not_isSome_iff_eq_none]
    exact fun hocc => hnot (occupied i hwider hocc)
  cases h with
  | complete free gone kept =>
    refine .complete ?_ ?_ ?_
    · exact fun i hi hfixed => free i (occupied i hi hfixed.isSome) hfixed
    · intro i hi
      by_cases hr : region i
      · exact gone i hr
      · rw [kept i hr, hempty i hi hr]
    · exact fun i hi => kept i (mt (inside i) hi)
  | @blocked b _ hb stop free gone kept =>
    refine .blocked (inside b hb) stop ?_ ?_ ?_
    · exact fun i hi hlt hfixed => free i (occupied i hi hfixed.isSome) hlt hfixed
    · intro i hi hlt
      by_cases hr : region i
      · exact gone i hr hlt
      · rw [kept i fun h => hr h.1, hempty i hi hr]
    · exact fun i hi => kept i fun h => hi ⟨inside i h.1, h.2⟩

/-- A region whose highest entry is fixed is cleared without a change. -/
theorem Cleared.stopped {fixed : α → Bool} {region : Nat → Prop} {e : Elements α} {p : Nat}
    (inside : region p) (stop : IsFixed fixed e p) (highest : ∀ i, region i → ¬ p < i) :
    Cleared fixed region e (some p) e :=
  .blocked inside stop (fun i hi hlt => absurd hlt (highest i hi))
    (fun i hi hlt => absurd hlt (highest i hi)) fun _ _ => rfl

/-- A position that is not fixed may be emptied before the region below it is cleared. -/
theorem Cleared.of_delete {fixed : α → Bool} {region : Nat → Prop} {e after : Elements α}
    {answer : Option Nat} {p : Nat} (h : Cleared fixed region (e.delete p).2 answer after)
    (free : ¬ IsFixed fixed e p) (below : ∀ i, region i → i < p) :
    Cleared fixed (fun i => i = p ∨ region i) e answer after := by
  have hread : ∀ i, i ≠ p → (e.delete p).2.read i = e.read i := by
    intro i hi
    rw [read_delete, if_neg (Ne.symm hi)]
  have hgone : (e.delete p).2.read p = none := by
    rw [read_delete, if_pos rfl]
  have hfixed : ∀ i, region i → (IsFixed fixed (e.delete p).2 i ↔ IsFixed fixed e i) := by
    intro i hi
    rw [IsFixed, IsFixed, hread i (Nat.ne_of_lt (below i hi))]
  -- what clears the region does not come back to `p`
  have hp : ¬ region p := fun hp => Nat.lt_irrefl p (below p hp)
  cases h with
  | complete free' gone kept =>
    refine .complete ?_ ?_ ?_
    · rintro i (rfl | hi)
      · exact free
      · exact (hfixed i hi).not.1 (free' i hi)
    · rintro i (rfl | hi)
      · rw [kept i hp, hgone]
      · exact gone i hi
    · intro i hi
      rw [not_or] at hi
      rw [kept i hi.2, hread i hi.1]
  | @blocked b _ inside stop free' gone kept =>
    refine .blocked (.inr inside) ((hfixed b inside).1 stop) ?_ ?_ ?_
    · rintro i (rfl | hi) hlt
      · exact free
      · exact (hfixed i hi).not.1 (free' i hi hlt)
    · rintro i (rfl | hi) hlt
      · rw [kept i fun h => hp h.1, hgone]
      · exact gone i hi hlt
    · intro i hi
      have hip : i ≠ p := by
        rintro rfl
        exact hi ⟨.inl rfl, below b inside⟩
      rw [kept i fun h => hi ⟨.inr h.1, h.2⟩, hread i hip]

/-- Visiting positions in descending order clears them, up to the first fixed entry. -/
theorem deleteUntilFixed_spec (fixed : α → Bool) (positions : List Nat) (e : Elements α)
    (descending : positions.Pairwise (· > ·)) :
    Cleared fixed (· ∈ positions) e (deleteUntilFixed fixed positions e).1
      (deleteUntilFixed fixed positions e).2 := by
  induction positions generalizing e with
  | nil => exact .complete (by simp) (by simp) fun _ _ => rfl
  | cons p rest ih =>
    obtain ⟨hbelow, hrest⟩ := List.pairwise_cons.1 descending
    simp only [List.mem_cons]
    rw [deleteUntilFixed]
    split
    · next hp =>
      refine .stopped (.inl rfl) hp ?_
      rintro i (rfl | hi)
      · exact Nat.lt_irrefl i
      · exact Nat.lt_asymm (hbelow i hi)
    · next hp => exact (ih (e.delete p).2 hrest).of_delete hp hbelow

/-- The positions that a truncation visits come in descending order. -/
theorem removalOrder_descending (e : Elements α) (first bound : Nat) :
    (e.removalOrder first bound).Pairwise (· > ·) := by
  rw [removalOrder]
  split
  · rw [List.pairwise_reverse]
    exact (indices_ascending e).sublist List.filter_sublist
  · rw [List.pairwise_reverse]
    exact List.pairwise_lt_range'

/-- A truncation visits positions of its range only. -/
theorem mem_range_of_mem_removalOrder {e : Elements α} {first bound i : Nat}
    (h : i ∈ e.removalOrder first bound) : first ≤ i ∧ i < bound := by
  rw [removalOrder] at h
  split at h
  · rw [List.mem_reverse, List.mem_filter, Bool.and_eq_true, decide_eq_true_eq,
      decide_eq_true_eq] at h
    exact h.2
  · rw [List.mem_reverse, List.mem_range'_1] at h
    omega

/-- A truncation visits every occupied position of its range. -/
theorem mem_removalOrder_of_isSome {e : Elements α} {first bound i : Nat}
    (range : first ≤ i ∧ i < bound) (occupied : (e.read i).isSome = true) :
    i ∈ e.removalOrder first bound := by
  rw [removalOrder]
  split
  · rw [List.mem_reverse, List.mem_filter, Bool.and_eq_true, decide_eq_true_eq, decide_eq_true_eq]
    exact ⟨mem_indices.2 occupied, range⟩
  · rw [List.mem_reverse, List.mem_range'_1]
    omega

/-- A truncation clears its range. -/
theorem truncate_spec (fixed : α → Bool) (first bound : Nat) (e : Elements α) :
    Cleared fixed (fun i => first ≤ i ∧ i < bound) e (truncate fixed first bound e).1
      (truncate fixed first bound e).2 :=
  (deleteUntilFixed_spec fixed _ e (removalOrder_descending e first bound)).extend
    (fun _ => mem_range_of_mem_removalOrder) fun _ => mem_removalOrder_of_isSome

end ObjectModel.Elements
