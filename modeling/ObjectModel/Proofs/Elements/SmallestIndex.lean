import ObjectModel.Proofs.Elements.Capacity
import Mathlib.Order.Bounds.Basic

/-!
# The hint of the smallest position

`smallestIndex` tells where a search for the occupied positions may start. It is never past one of them. A
sparse storage with few enough entries looks at all of them, and then the answer is the least occupied
position (`isLeast_smallestIndex`). Otherwise the answer is zero, be that position occupied or not
(`smallestIndex_eq_zero`).

Commands take a storage in and out of the case in which it looks: a write may turn it sparse, and entries
that come and go take their number past the limit and back. So the result on runs is stated of the finite
map that is given the same commands, which knows nothing of any of this.
-/

namespace ObjectModel.Elements

variable {α : Type} {e : Elements α}

/-! ## One storage -/

/-- The position is zero if the storage is dense, has no entries, or has too many of them to look. -/
theorem smallestIndex_eq_zero
    (unseen : e.isDense = true ∨ e.count = 0 ∨ e.limits.sparseScanLimit ≤ e.count) :
    e.smallestIndex = 0 := by
  obtain ⟨slots | entries, limits⟩ := e
  · rfl
  · have hempty : entries.isEmpty = true ∨ limits.sparseScanLimit ≤ entries.size := by
      rw [Std.TreeMap.isEmpty_eq_size_eq_zero, beq_iff_eq]
      exact unseen.resolve_left Bool.false_ne_true
    rw [smallestIndex]
    refine if_pos ?_
    rw [Bool.or_eq_true, Bool.or_eq_true, decide_eq_true_eq]
    exact .inl hempty

/-- The position is the least occupied one if the storage is sparse and has entries, but few enough of them
to look. -/
theorem isLeast_smallestIndex (sparse : e.isDense = false) (occupied : e.count ≠ 0)
    (few : e.count < e.limits.sparseScanLimit) :
    IsLeast {i | (e.read i).isSome = true} e.smallestIndex := by
  obtain ⟨slots | entries, limits⟩ := e
  · cases sparse
  have hmem (i : Nat) : (read ⟨.sparse entries, limits⟩ i).isSome = true ↔ i ∈ entries :=
    Std.TreeMap.mem_iff_isSome_getElem?.symm
  simp only [hmem]
  have hnonempty : entries.isEmpty = false := by
    rw [Std.TreeMap.isEmpty_eq_size_eq_zero]
    exact beq_eq_false_iff_ne.2 occupied
  have hfew : ¬ limits.sparseScanLimit ≤ entries.size := Nat.not_le_of_lt few
  show IsLeast {i | i ∈ entries}
    (if entries.isEmpty || decide (limits.sparseScanLimit ≤ entries.size) || entries.contains 0 then 0
      else entries.minKey?.getD 0)
  by_cases hzero : 0 ∈ entries
  · -- position zero is found without a look at the others
    rw [if_pos (by rw [Bool.or_eq_true]; exact .inr hzero)]
    exact ⟨hzero, fun i _ => Nat.zero_le i⟩
  · rw [if_neg (by simpa [hnonempty, hfew] using hzero)]
    obtain ⟨least, hleast⟩ : ∃ least, entries.minKey? = some least :=
      Option.isSome_iff_exists.1 (Std.TreeMap.isSome_minKey?_iff_isEmpty_eq_false.2 hnonempty)
    obtain ⟨hkey, hbelow⟩ := Std.TreeMap.minKey?_eq_some_iff_mem_and_forall.1 hleast
    rw [hleast]
    exact ⟨hkey, fun i hi => Nat.isLE_compare.1 (hbelow i hi)⟩

/-- The position is not past an occupied one. -/
theorem smallestIndex_le {i : Nat} (occupied : (e.read i).isSome = true) : e.smallestIndex ≤ i := by
  by_cases unseen : e.isDense = true ∨ e.count = 0 ∨ e.limits.sparseScanLimit ≤ e.count
  · rw [smallestIndex_eq_zero unseen]
    exact Nat.zero_le i
  · simp only [not_or, Bool.not_eq_true, Nat.not_le] at unseen
    obtain ⟨sparse, hcount, few⟩ := unseen
    exact (isLeast_smallestIndex sparse hcount few).2 occupied

/-! ## Runs -/

/-- The hint after any commands to a storage made for any capacity and with any limits, against the finite
map that is given the same commands.

The keys of the map are the occupied positions. The hint is at most every one of them. It is the least one if
the storage is sparse then and the map has keys, but fewer of them than the limit says. In every other case it
is zero. -/
theorem runAll_smallestIndex (capacity : Nat) (limits : Limits) (commands : List (Command α)) :
    let e := (Command.runAll Command.onElements commands (withLimits capacity limits)).2
    let m := (Command.runAll Command.onImage commands (∅ : Image α)).2
    (∀ i, (e.read i).isSome = true ↔ i ∈ m)
      ∧ (∀ i ∈ m, e.smallestIndex ≤ i)
      ∧ (e.isDense = false → m.keys.Nonempty → m.keys.card < limits.sparseScanLimit →
        IsLeast {i | i ∈ m} e.smallestIndex)
      ∧ (e.isDense = true ∨ m.keys = ∅ ∨ limits.sparseScanLimit ≤ m.keys.card → e.smallestIndex = 0) := by
  intro e m
  have hend : e.Represents m := ((Represents.withLimits (α := α) capacity limits).runAll commands).2
  have hlimits : e.limits = limits := (Follows.runAll _ commands).limits
  have hmem (i : Nat) : (e.read i).isSome = true ↔ i ∈ m := by
    rw [hend i, Finmap.lookup_isSome]
  refine ⟨hmem, ?_⟩
  simp only [← hmem, ← hlimits, ← hend.count]
  refine ⟨fun i => smallestIndex_le, fun sparse keys few => ?_, fun unseen => ?_⟩
  · have hcount : e.count ≠ 0 := by
      rw [hend.count]
      exact Finset.card_ne_zero.2 keys
    exact isLeast_smallestIndex sparse hcount few
  · refine smallestIndex_eq_zero (unseen.imp_right (Or.imp_left fun nokeys => ?_))
    rw [hend.count, nokeys, Finset.card_empty]

/-- With limits under which two entries are too many to look at, three commands leave a sparse storage with one
entry, past the gap. The hint is the position of that entry. -/
theorem runAll_smallestIndex_pastGap :
    let limits : Limits := { denseCeiling := 16, gapTolerance := 4, sparseScanLimit := 2 }
    let commands : List (Command Char) := [.write 3 'a', .write 9 'b', .delete 3]
    let e := (Command.runAll Command.onElements commands (withLimits 0 limits)).2
    e.isDense = false ∧ e.smallestIndex = 9 := by
  intro limits commands e
  have hsparse : e.isDense = false := by decide +kernel
  obtain ⟨hmem, -, hleast, -⟩ := runAll_smallestIndex 0 limits commands
  refine ⟨hsparse, ?_⟩
  have hkeys : (Command.runAll Command.onImage commands (∅ : Image Char)).2.keys = {9} := by decide +kernel
  have h := hleast hsparse (by rw [hkeys]; exact Finset.singleton_nonempty 9) (by rw [hkeys]; decide)
  simp only [← Finmap.mem_keys, hkeys, Finset.mem_singleton] at h
  exact h.1

end ObjectModel.Elements
