import ObjectModel.Proofs.Elements.Truncation
import Mathlib.Data.Finmap

/-!
# Element storage refines a finite map

A storage and a finite map are given the same commands, one after the other. The map knows nothing of
capacities and representations: growing leaves it alone, and it has no thresholds. Yet the two give the
same answers, and whatever is asked of the storage at the end is what the map holds
(`runAll_withLimits`).

The commands come in any order, from a storage made for any capacity and with any limits. So nothing is
lost, doubled or moved when slots are added or the storage turns sparse, whenever that happens.
-/

namespace ObjectModel.Elements

variable {α : Type}

/-! ## Commands -/

/-- A change of a storage. -/
inductive Command (α : Type) where
  | write (i : Nat) (a : α)
  | delete (i : Nat)
  | ensureCapacity (capacity : Nat)

/-- The finite maps that storages stand for. -/
abbrev Image (α : Type) := Finmap fun _ : Nat => α

namespace Command

/-- What a command does to a storage. A deletion answers whether there was an entry. -/
def onElements : Command α → Elements α → Option Bool × Elements α
  | write i a, e => (none, e.write i a)
  | delete i, e => (some (e.delete i).1, (e.delete i).2)
  | ensureCapacity capacity, e => (none, e.ensureCapacity capacity)

/-- What a command does to a finite map. -/
def onImage : Command α → Image α → Option Bool × Image α
  | write i a, m => (none, m.insert i a)
  | delete i, m => (some (decide (i ∈ m)), m.erase i)
  | ensureCapacity _, m => (none, m)

/-- Carries commands out in order, and collects their answers. -/
def runAll {S : Type} (act : Command α → S → Option Bool × S) :
    List (Command α) → S → List (Option Bool) × S
  | [], s => ([], s)
  | c :: rest, s =>
    let (answer, s) := act c s
    let (answers, s) := runAll act rest s
    (answer :: answers, s)

end Command

/-! ## Representation -/

/-- The entries of a storage are those of a finite map. -/
def Represents (e : Elements α) (m : Image α) : Prop := ∀ i, e.read i = m.lookup i

namespace Represents

variable {e : Elements α} {m : Image α}

/-- A fresh storage stands for the empty map. -/
theorem withLimits (capacity : Nat) (limits : Limits) :
    (withLimits capacity limits : Elements α).Represents ∅ := by
  intro i
  rw [read_withLimits, Finmap.lookup_empty]

/-- A position has an entry if the map has the key. -/
theorem contains (h : e.Represents m) (i : Nat) : e.contains i = decide (i ∈ m) := by
  rw [Elements.contains, h i, Bool.eq_iff_iff, decide_eq_true_iff, Finmap.lookup_isSome]

/-- A command has the same answer from both, and the storage goes on to stand for the map. -/
theorem act (h : e.Represents m) (c : Command α) :
    (c.onElements e).1 = (c.onImage m).1 ∧ (c.onElements e).2.Represents (c.onImage m).2 := by
  cases c with
  | write i a =>
    refine ⟨rfl, fun j => ?_⟩
    show (e.write i a).read j = (m.insert i a).lookup j
    rw [read_write]
    split
    · next hij => rw [← hij, Finmap.lookup_insert]
    · next hij => rw [Finmap.lookup_insert_of_ne m (Ne.symm hij), h j]
  | delete i =>
    refine ⟨congrArg some ((fst_delete e i).trans (h.contains i)), fun j => ?_⟩
    show (e.delete i).2.read j = (m.erase i).lookup j
    rw [read_delete]
    split
    · next hij => rw [← hij, Finmap.lookup_erase]
    · next hij => rw [Finmap.lookup_erase_ne (Ne.symm hij), h j]
  | ensureCapacity capacity =>
    exact ⟨rfl, fun j => (read_ensureCapacity e capacity j).trans (h j)⟩

/-- Any commands have the same answers from both, and leave a storage that stands for the map. -/
theorem runAll (h : e.Represents m) (commands : List (Command α)) :
    (Command.runAll Command.onElements commands e).1 = (Command.runAll Command.onImage commands m).1
      ∧ (Command.runAll Command.onElements commands e).2.Represents
          (Command.runAll Command.onImage commands m).2 := by
  induction commands generalizing e m with
  | nil => exact ⟨rfl, h⟩
  | cons c rest ih =>
    obtain ⟨hanswer, hnext⟩ := h.act c
    obtain ⟨hanswers, hend⟩ := ih hnext
    exact ⟨congrArg₂ List.cons hanswer hanswers, hend⟩

/-- The occupied positions are the keys of the map. -/
theorem mem_indices (h : e.Represents m) (i : Nat) : i ∈ e.indices ↔ i ∈ m := by
  rw [Elements.mem_indices, h i, Finmap.lookup_isSome]

/-- There are as many entries as the map has keys. -/
theorem count (h : e.Represents m) : e.count = m.keys.card := by
  have hnodup : e.indices.Nodup := (indices_ascending e).imp Nat.ne_of_lt
  have hkeys : e.indices.toFinset = m.keys := by
    ext i
    rw [List.mem_toFinset, h.mem_indices, Finmap.mem_keys]
  rw [count_eq_length, ← hkeys, List.toFinset_card_of_nodup hnodup, indices, List.length_map]

end Represents

/-- A storage behaves as a finite map that is given the same commands. The answers of the commands are
the same. At the end, an entry is the map's, a position is occupied if the map has the key, there are as
many entries as keys, and the occupied positions are the keys in strictly ascending order. -/
theorem runAll_withLimits (capacity : Nat) (limits : Limits) (commands : List (Command α)) :
    let (answers, e) := Command.runAll Command.onElements commands (withLimits capacity limits)
    let (answers', m) := Command.runAll Command.onImage commands ∅
    answers = answers'
      ∧ (∀ i, e.read i = m.lookup i)
      ∧ (∀ i, e.contains i = decide (i ∈ m))
      ∧ e.count = m.keys.card
      ∧ e.indices.Pairwise (· < ·)
      ∧ ∀ i, i ∈ e.indices ↔ i ∈ m := by
  obtain ⟨hanswers, hend⟩ := (Represents.withLimits (α := α) capacity limits).runAll commands
  exact ⟨hanswers, hend, hend.contains, hend.count, indices_ascending _, hend.mem_indices⟩

end ObjectModel.Elements
