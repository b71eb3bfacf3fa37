import ObjectModel.Number.Basic
import ObjectModel.Proofs.Elements.Refinement

/-!
# Element storage on 32-bit words

A machine keeps positions, capacities and lengths in 32-bit words. A sum may not fit, a difference may be
negative, the size of an array and the offset of a slot have to be turned into words, and a slot may be
missing. Here the operations of a storage are written once more, so that each of these things is looked at
where it happens, and the operation has no result if it goes wrong. Only doubling a capacity cannot go
wrong, since it stops at the largest word.

The checked operations always have a result, and it is that of the unchecked ones, as long as the capacity
is a word. And the capacity stays one: growth stops at the largest word (`capacity_write_lt`), so all
commands to a storage may be checked (`runAll?_eq`).
-/

namespace ObjectModel

/-! ## Words -/

namespace Word

/-- A number as a 32-bit word. -/
def cast? (n : Nat) : Option Nat := if n < 2 ^ 32 then some n else none

/-- The sum of two words. -/
def add? (a b : Nat) : Option Nat := cast? (a + b)

/-- The difference of two words. -/
def sub? (a b : Nat) : Option Nat := if b ≤ a then some (a - b) else none

/-- A number below the bound is a word. -/
theorem cast?_eq {n : Nat} (h : n < 2 ^ 32) : cast? n = some n := if_pos h

/-- A sum below the bound is a word. -/
theorem add?_eq {a b : Nat} (h : a + b < 2 ^ 32) : add? a b = some (a + b) := cast?_eq h

/-- What is not larger can be subtracted. -/
theorem sub?_eq {a b : Nat} (h : b ≤ a) : sub? a b = some (a - b) := if_pos h

end Word

namespace Elements

variable {α : Type} {e : Elements α}

/-! ## Checked operations -/

/-- Overwrites a slot that is there. -/
def setSlot? (slots : Array (Option α)) (i : Nat) (a : α) : Option (Array (Option α)) :=
  if h : i < slots.size then some (slots.set i (some a) h) else none

/-- The entries of dense slots, each with its offset as a word. -/
def slotEntries? (slots : Array (Option α)) : Option (List (Nat × α)) :=
  (slotEntries slots).mapM fun entry => (Word.cast? entry.1).map fun i => (i, entry.2)

/-- Stores an entry. The capacity is taken as a word, the slot has to be there after a growth, and a
storage that turns sparse takes every offset as a word. -/
def write? : Elements α → Nat → α → Option (Elements α)
  | ⟨.sparse entries, limits⟩, i, a => some ⟨.sparse (entries.insert i a), limits⟩
  | ⟨.dense slots, limits⟩, i, a => do
    let capacity ← Word.cast? slots.size
    let grown := if capacity ≤ i then grownCapacity i capacity else 0
    if i < limits.denseCeiling ∧ grown < limits.denseCeiling
        ∧ i < min (capacity + limits.gapTolerance) maxCapacity then
      let slots ← setSlot? (if capacity ≤ i then padSlots slots grown else slots) i a
      return ⟨.dense slots, limits⟩
    else
      let entries ← slotEntries? slots
      return ⟨.sparse ((Std.TreeMap.ofList entries).insert i a), limits⟩

/-- The occupied positions. The offset of a slot is taken as a word. -/
def indices? (e : Elements α) : Option (List Nat) :=
  match e.slots with
  | .dense slots => (slotEntries? slots).map (·.map Prod.fst)
  | .sparse _ => some e.indices

/-- The positions in `[first, bound)` to visit. How many there are has to be a word. -/
def removalOrder? (e : Elements α) (first bound : Nat) : Option (List Nat) := do
  let span ← Word.sub? bound first
  if e.count < span then
    let indices ← e.indices?
    return (indices.filter fun i => first ≤ i && i < bound).reverse
  else
    return (List.range' first span).reverse

/-- Deletes the entries in `[first, bound)` from the top down, up to the first fixed one. -/
def truncate? (fixed : α → Bool) (first bound : Nat) (e : Elements α) :
    Option (Option Nat × Elements α) := do
  let order ← e.removalOrder? first bound
  return deleteUntilFixed fixed order e

/-! ## The checks succeed -/

/-- Offsets of slots are words if there are no more slots than words. -/
theorem slotEntries?_eq {slots : Array (Option α)} (sized : slots.size < 2 ^ 32) :
    slotEntries? slots = some (slotEntries slots) := by
  have hwords : ∀ entry ∈ slotEntries slots,
      (Word.cast? entry.1).map (fun i => (i, entry.2)) = some entry := by
    rintro ⟨i, a⟩ hentry
    have hslot := mem_slotEntries.1 hentry
    have hi : i < slots.size := (Array.getElem?_eq_some_iff.1 hslot).1
    rw [Word.cast?_eq (by omega)]
    rfl
  rw [slotEntries?]
  generalize slotEntries slots = entries at hwords
  induction entries with
  | nil => rfl
  | cons entry rest ih =>
    obtain ⟨hentry, hrest⟩ := List.forall_mem_cons.1 hwords
    rw [List.mapM_cons, hentry, ih hrest]
    rfl

/-- Padding slots up to a size leaves as many, or that many. -/
theorem size_padSlots (slots : Array (Option α)) (size : Nat) :
    (padSlots slots size).size = max slots.size size := by
  simp only [padSlots, Array.size_append, Array.size_replicate]
  omega

/-- A slot that is there can be overwritten. -/
theorem setSlot?_eq {slots : Array (Option α)} {i : Nat} (h : i < slots.size) (a : α) :
    setSlot? slots i a = some (slots.setIfInBounds i (some a)) := by
  rw [setSlot?, dif_pos h, Array.setIfInBounds_def, dif_pos h]

/-- A write goes as it does unchecked: the slot is there after the growth, and no offset is lost. -/
theorem write?_eq (sized : e.capacity < 2 ^ 32) (i : Nat) (a : α) : e.write? i a = some (e.write i a) := by
  obtain ⟨slots | entries, limits⟩ := e
  · have hsize : slots.size < 2 ^ 32 := sized
    have hdense : (i < limits.denseCeiling
        ∧ (if slots.size ≤ i then grownCapacity i slots.size else 0) < limits.denseCeiling
        ∧ i < min (slots.size + limits.gapTolerance) maxCapacity)
        ↔ staysDense limits i slots.size = true := by
      simp only [staysDense, Bool.and_eq_true, Bool.or_eq_true, decide_eq_true_eq]
      split <;> omega
    simp only [write?, write, Word.cast?_eq hsize, Option.bind_eq_bind, Option.bind_some, hdense]
    split
    · next hstays =>
      by_cases hlt : i < slots.size
      · rw [if_neg (Nat.not_le_of_lt hlt), if_pos hlt, setSlot?_eq hlt]
        rfl
      · have hslot : i < (padSlots slots (grownCapacity i slots.size)).size := by
          rw [size_padSlots]
          exact lt_max_of_lt_right (lt_grownCapacity hstays)
        rw [if_pos (Nat.le_of_not_lt hlt), if_pos (Nat.le_of_not_lt hlt), if_neg hlt, setSlot?_eq hslot]
        rfl
    · rw [slotEntries?_eq hsize]
      rfl
  · rfl

/-- The occupied positions are listed as they are unchecked. -/
theorem indices?_eq (sized : e.capacity < 2 ^ 32) : e.indices? = some e.indices := by
  obtain ⟨slots | entries, limits⟩ := e
  · have hsize : slots.size < 2 ^ 32 := sized
    show (slotEntries? slots).map (·.map Prod.fst) = _
    rw [slotEntries?_eq hsize]
    rfl
  · rfl

/-- The positions to visit are those that are visited unchecked. -/
theorem removalOrder?_eq (sized : e.capacity < 2 ^ 32) {first bound : Nat} (le : first ≤ bound) :
    e.removalOrder? first bound = some (e.removalOrder first bound) := by
  rw [removalOrder?, removalOrder, Word.sub?_eq le, indices?_eq sized]
  simp only [Option.bind_eq_bind, Option.bind_some, Option.pure_def]
  split <;> rfl

/-- A truncation goes as it does unchecked. -/
theorem truncate?_eq (sized : e.capacity < 2 ^ 32) (fixed : α → Bool) {first bound : Nat}
    (le : first ≤ bound) : e.truncate? fixed first bound = some (e.truncate fixed first bound) := by
  rw [truncate?, removalOrder?_eq sized le]
  rfl

/-! ## The capacity stays a word -/

/-- A write leaves a capacity that is a word. -/
theorem capacity_write_lt (sized : e.capacity < 2 ^ 32) (i : Nat) (a : α) :
    (e.write i a).capacity < 2 ^ 32 := by
  obtain ⟨slots | entries, limits⟩ := e
  · have hsize : slots.size < 2 ^ 32 := sized
    rw [write]
    split
    · split
      · show (slots.setIfInBounds i (some a)).size < 2 ^ 32
        rwa [Array.size_setIfInBounds]
      · show ((padSlots slots _).setIfInBounds i (some a)).size < 2 ^ 32
        have hgrown : grownCapacity i slots.size < 2 ^ 32 :=
          Nat.lt_of_le_of_lt (Nat.min_le_right _ _) (by decide)
        rw [Array.size_setIfInBounds, size_padSlots]
        exact Nat.max_lt.2 ⟨hsize, hgrown⟩
    · exact Nat.two_pow_pos 32
  · exact Nat.two_pow_pos 32

/-- A deletion leaves the capacity alone. -/
theorem capacity_delete (e : Elements α) (i : Nat) : (e.delete i).2.capacity = e.capacity := by
  obtain ⟨slots | entries, limits⟩ := e
  · exact Array.size_setIfInBounds
  · rfl

/-- Growing to a word leaves a capacity that is a word. -/
theorem capacity_ensureCapacity_lt (sized : e.capacity < 2 ^ 32) {capacity : Nat}
    (word : capacity < 2 ^ 32) : (e.ensureCapacity capacity).capacity < 2 ^ 32 := by
  obtain ⟨slots | entries, limits⟩ := e
  · have hsize : slots.size < 2 ^ 32 := sized
    show (padSlots slots capacity).size < 2 ^ 32
    rw [size_padSlots]
    exact Nat.max_lt.2 ⟨hsize, word⟩
  · exact sized

/-- A fresh storage has at most the capacity that it is made for. -/
theorem capacity_withLimits_le (capacity : Nat) (limits : Limits) :
    (withLimits capacity limits : Elements α).capacity ≤ capacity := by
  rw [withLimits]
  split
  · exact Nat.le_of_eq Array.size_replicate
  · exact Nat.zero_le _

/-! ## Checked commands -/

namespace Command

/-- The numbers that the command names are words. -/
def InRange : Command α → Prop
  | write i _ | delete i => i < 2 ^ 32
  | ensureCapacity capacity => capacity < 2 ^ 32

/-- What a command does to a storage, checked. -/
def onElements? : Command α → Elements α → Option (Option Bool × Elements α)
  | write i a, e => (e.write? i a).map (none, ·)
  | delete i, e => some (some (e.delete i).1, (e.delete i).2)
  | ensureCapacity capacity, e => some (none, e.ensureCapacity capacity)

/-- Carries checked commands out in order, and collects their answers. -/
def runAll? {S : Type} (act : Command α → S → Option (Option Bool × S)) :
    List (Command α) → S → Option (List (Option Bool) × S)
  | [], s => some ([], s)
  | c :: rest, s => do
    let (answer, s) ← act c s
    let (answers, s) ← runAll? act rest s
    return (answer :: answers, s)

/-- A command goes as it does unchecked, and leaves a capacity that is a word. -/
theorem onElements?_eq {c : Command α} (inRange : c.InRange) (sized : e.capacity < 2 ^ 32) :
    c.onElements? e = some (c.onElements e) ∧ (c.onElements e).2.capacity < 2 ^ 32 := by
  cases c with
  | write i a =>
    refine ⟨?_, capacity_write_lt sized i a⟩
    rw [onElements?, write?_eq sized]
    rfl
  | delete i => exact ⟨rfl, (capacity_delete e i).symm ▸ sized⟩
  | ensureCapacity capacity => exact ⟨rfl, capacity_ensureCapacity_lt sized inRange⟩

/-- Any commands go as they do unchecked, and leave a capacity that is a word. -/
theorem runAll?_eq {commands : List (Command α)} (inRange : ∀ c ∈ commands, c.InRange)
    (sized : e.capacity < 2 ^ 32) :
    runAll? onElements? commands e = some (runAll onElements commands e)
      ∧ (runAll onElements commands e).2.capacity < 2 ^ 32 := by
  induction commands generalizing e with
  | nil => exact ⟨rfl, sized⟩
  | cons c rest ih =>
    obtain ⟨hc, hrest⟩ := List.forall_mem_cons.1 inRange
    obtain ⟨hact, hsized⟩ := onElements?_eq hc sized
    obtain ⟨hacts, hend⟩ := ih hrest hsized
    refine ⟨?_, hend⟩
    rw [runAll?, hact]
    show (runAll? onElements? rest (c.onElements e).2).bind _ = _
    rw [hacts]
    rfl

end Command

end Elements

end ObjectModel
