import Std.Data.TreeMap

/-!
# Element storage

`Elements α` stores entries at natural number positions, and is what the indexed elements of an array
are kept in. It has two representations. The *dense* one is an array of slots, each holding an entry or
nothing, whose size is the storage's capacity. The *sparse* one is a finite map. A storage starts dense
unless it is made with a large capacity, and a write that would waste memory turns it sparse, for good.

The representation is never visible through `read`, `write`, `delete`, `count` and `toList`: these
behave as those of a finite map.

## When a write stays dense

A write below the capacity stays where it is. A write at or past it first works out the capacity the
storage would grow to, twice the largest of the position, the old capacity and two. It stays dense if the
position and that capacity are both below the ceiling, and the position is less than the tolerated gap
past the old capacity. Capacities are 32-bit words and stop at the largest one.
-/

namespace ObjectModel

/-- The thresholds of the representation. -/
structure Limits where
  /-- Positions, and capacities grown to, at or above this are stored sparsely. -/
  denseCeiling : Nat := 10240
  /-- How far past the capacity a write may land and still be stored densely. -/
  gapTolerance : Nat := 50
  /-- How many entries a sparse storage needs to answer the smallest position without looking. -/
  sparseScanLimit : Nat := 100
deriving DecidableEq, Inhabited

/-- The two representations. -/
inductive Slots (α : Type) where
  /-- One slot for each position below the capacity. -/
  | dense (slots : Array (Option α))
  /-- The entries by position. -/
  | sparse (entries : Std.TreeMap Nat α)

/-- Element storage. -/
structure Elements (α : Type) where
  slots : Slots α
  limits : Limits

namespace Elements

variable {α : Type}

/-- The largest capacity. -/
abbrev maxCapacity : Nat := 4294967295

/-- An empty storage for the given initial capacity. -/
def withLimits (capacity : Nat) (limits : Limits) : Elements α where
  slots := if capacity < limits.denseCeiling then .dense (.replicate capacity none) else .sparse ∅
  limits := limits

/-- An empty storage with the usual thresholds. -/
def withCapacity (capacity : Nat) : Elements α := withLimits capacity {}

instance : Inhabited (Elements α) := ⟨withCapacity 0⟩

/-- Whether the dense representation is in use. -/
def isDense (e : Elements α) : Bool :=
  match e.slots with
  | .dense _ => true
  | .sparse _ => false

/-- How many slots there are, none if the storage is sparse. -/
def capacity (e : Elements α) : Nat :=
  match e.slots with
  | .dense slots => slots.size
  | .sparse _ => 0

/-- The entry at a position. -/
def read (e : Elements α) (i : Nat) : Option α :=
  match e.slots with
  | .dense slots => slots[i]?.join
  | .sparse entries => entries[i]?

/-- Whether a position has an entry. -/
def contains (e : Elements α) (i : Nat) : Bool := (e.read i).isSome

/-- The entries of dense slots in ascending order of their positions. -/
def slotEntries (slots : Array (Option α)) : List (Nat × α) :=
  slots.toList.zipIdx.filterMap fun (slot, i) => slot.map (i, ·)

/-- The entries in ascending order of their positions. -/
def toList (e : Elements α) : List (Nat × α) :=
  match e.slots with
  | .dense slots => slotEntries slots
  | .sparse entries => entries.toList

/-- The occupied positions in ascending order. -/
def indices (e : Elements α) : List Nat := e.toList.map Prod.fst

/-- How many entries there are. -/
def count (e : Elements α) : Nat :=
  match e.slots with
  | .dense slots => slots.countP Option.isSome
  | .sparse entries => entries.size

/-- The capacity that a write at or past the old capacity grows to. -/
def grownCapacity (i capacity : Nat) : Nat :=
  min (2 * max i (max capacity 2)) maxCapacity

/-- Whether a write stays dense; see the head of the module. -/
def staysDense (limits : Limits) (i capacity : Nat) : Bool :=
  i < limits.denseCeiling
    && (i < capacity || grownCapacity i capacity < limits.denseCeiling)
    && i < min (capacity + limits.gapTolerance) maxCapacity

/-- Slots padded with empty ones up to a size. -/
def padSlots (slots : Array (Option α)) (size : Nat) : Array (Option α) :=
  slots ++ Array.replicate (size - slots.size) none

/-- Stores an entry, in place of the one that is there. -/
def write : Elements α → Nat → α → Elements α
  | ⟨.sparse entries, limits⟩, i, a => ⟨.sparse (entries.insert i a), limits⟩
  | ⟨.dense slots, limits⟩, i, a =>
    if staysDense limits i slots.size then
      if i < slots.size then
        ⟨.dense (slots.setIfInBounds i (some a)), limits⟩
      else
        ⟨.dense ((padSlots slots (grownCapacity i slots.size)).setIfInBounds i (some a)), limits⟩
    else
      ⟨.sparse ((Std.TreeMap.ofList (slotEntries slots)).insert i a), limits⟩

/-- Grows dense slots to at least the given capacity. -/
def ensureCapacity : Elements α → Nat → Elements α
  | ⟨.dense slots, limits⟩, capacity => ⟨.dense (padSlots slots capacity), limits⟩
  | e, _ => e

/-- Removes the entry at a position, and tells whether there was one. -/
def delete : Elements α → Nat → Bool × Elements α
  | ⟨.dense slots, limits⟩, i =>
    (slots[i]?.join.isSome, ⟨.dense (slots.setIfInBounds i none), limits⟩)
  | ⟨.sparse entries, limits⟩, i =>
    (entries.contains i, ⟨.sparse (entries.erase i), limits⟩)

/-- A lower bound of the occupied positions. It is the least of them if the storage is sparse and has
few enough entries to look, and zero otherwise. -/
def smallestIndex (e : Elements α) : Nat :=
  match e.slots with
  | .dense _ => 0
  | .sparse entries =>
    if entries.isEmpty || e.limits.sparseScanLimit ≤ entries.size || entries.contains 0 then 0
    else entries.minKey?.getD 0

/-! ## Removing a range from the top

An array that is shortened loses its elements from the last one down, and stops at an element that may
not be removed. If there are fewer entries than positions in the range, only the entries are visited.
-/

/-- The positions in `[first, bound)` to visit, in descending order. -/
def removalOrder (e : Elements α) (first bound : Nat) : List Nat :=
  if e.count < bound - first then
    (e.indices.filter fun i => first ≤ i && i < bound).reverse
  else
    (List.range' first (bound - first)).reverse

/-- Deletes the given positions in order, up to the first whose entry is fixed. That position is
answered. -/
def deleteUntilFixed (fixed : α → Bool) : List Nat → Elements α → Option Nat × Elements α
  | [], e => (none, e)
  | i :: rest, e =>
    if (e.read i).any fixed then (some i, e) else deleteUntilFixed fixed rest (e.delete i).2

/-- Deletes the entries in `[first, bound)` from the top down, up to the first fixed one, whose position
is answered. -/
def truncate (fixed : α → Bool) (first bound : Nat) (e : Elements α) : Option Nat × Elements α :=
  deleteUntilFixed fixed (e.removalOrder first bound) e

end Elements

end ObjectModel
