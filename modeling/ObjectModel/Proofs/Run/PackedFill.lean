import ObjectModel.Proofs.Run.Construction
import Mathlib.Data.Nat.Log
import Mathlib.Order.Bounds.Basic

/-!
# Packed fills

Entries written one after the other leave no gap, so the only question is that of the ceiling. A write that
finds the slots full doubles them: there are four slots after the first write, and after `n` of them the
least number of slots that doubling makes of four and that is enough for `n` (`packedCapacity`). The storage
is dense as long as this number is below the ceiling, whatever the gap, if it is not zero.

`Packed` says this of a storage after `n` writes. It holds after the first write (`packed_write_zero`), one
more write keeps it (`Packed.write`), and so do any number of them (`Packed.writeAll`). Appending values to an
array comes to the same writes (`Protocol.outcome_pushing`).
-/

namespace ObjectModel

namespace Elements

variable {α : Type} {e : Elements α} {n : Nat}

/-! ## The number of slots -/

/-- The least number of slots for some entries that doubling makes of four. -/
def packedCapacity (n : Nat) : Nat := 4 * 2 ^ Nat.clog 2 ((n + 3) / 4)

/-- The number is the least one. -/
theorem isLeast_packedCapacity (n : Nat) :
    IsLeast {c | n ≤ c ∧ ∃ k, c = 4 * 2 ^ k} (packedCapacity n) := by
  have henough (k : Nat) : n ≤ 4 * 2 ^ k ↔ Nat.clog 2 ((n + 3) / 4) ≤ k := by
    rw [Nat.clog_le_iff_le_pow Nat.one_lt_two]
    omega
  refine ⟨⟨(henough _).2 (Nat.le_refl _), _, rfl⟩, ?_⟩
  rintro c ⟨hc, k, rfl⟩
  have hpow : 2 ^ Nat.clog 2 ((n + 3) / 4) ≤ 2 ^ k :=
    Nat.pow_le_pow_right Nat.two_pos ((henough k).1 hc)
  exact Nat.mul_le_mul_left 4 hpow

/-- The slots are enough for the entries. -/
theorem le_packedCapacity (n : Nat) : n ≤ packedCapacity n := (isLeast_packedCapacity n).1.1

/-- Fewer entries do not need more slots. -/
theorem packedCapacity_mono {m : Nat} (h : m ≤ n) : packedCapacity m ≤ packedCapacity n := by
  obtain ⟨⟨hn, hform⟩, -⟩ := isLeast_packedCapacity n
  exact (isLeast_packedCapacity m).2 ⟨Nat.le_trans h hn, hform⟩

/-- An entry for which there is a slot needs no more of them. -/
theorem packedCapacity_of_lt (room : n < packedCapacity n) : packedCapacity (n + 1) = packedCapacity n := by
  obtain ⟨⟨-, hform⟩, -⟩ := isLeast_packedCapacity n
  exact Nat.le_antisymm ((isLeast_packedCapacity (n + 1)).2 ⟨room, hform⟩)
    (packedCapacity_mono (Nat.le_succ n))

/-- An entry for which there is no slot doubles them. -/
theorem packedCapacity_of_full (full : n = packedCapacity n) : packedCapacity (n + 1) = 2 * n := by
  obtain ⟨⟨-, k, hk⟩, -⟩ := isLeast_packedCapacity n
  obtain ⟨⟨hnext, j, hj⟩, hleast⟩ := isLeast_packedCapacity (n + 1)
  have hn : n = 4 * 2 ^ k := full.trans hk
  have hdouble : 2 * n = 4 * 2 ^ (k + 1) := by
    rw [hn, Nat.pow_succ]
    omega
  have hpos : 0 < 2 ^ k := Nat.two_pow_pos k
  refine Nat.le_antisymm (hleast ⟨by omega, k + 1, hdouble⟩) ?_
  -- the next number of slots is a larger one of the same form
  have hlarger : 2 ^ k < 2 ^ j := by omega
  have hexponent : k < j := (Nat.pow_lt_pow_iff_right Nat.one_lt_two).1 hlarger
  have hpow : 2 ^ (k + 1) ≤ 2 ^ j := Nat.pow_le_pow_right Nat.two_pos hexponent
  omega

/-! ## Storages filled without a gap -/

/-- The storage is as dense as the ceiling lets it be after a packed fill: it has the least number of slots,
unless this is at the ceiling. -/
structure Packed (e : Elements α) (n : Nat) : Prop where
  dense : packedCapacity n < e.limits.denseCeiling → e.isDense = true ∧ e.capacity = packedCapacity n
  sparse : e.limits.denseCeiling ≤ packedCapacity n → e.isDense = false

/-- A write right after the slots doubles them, or makes four of none. The storage turns sparse if that is too
many. -/
theorem Snug.write_capacity (snug : e.Snug) (word : e.limits.denseCeiling ≤ maxCapacity)
    (gap : 1 ≤ e.limits.gapTolerance) (dense : e.isDense = true) (a : α) :
    (2 * max e.capacity 2 < e.limits.denseCeiling → (e.write e.capacity a).isDense = true
        ∧ (e.write e.capacity a).capacity = 2 * max e.capacity 2)
      ∧ (e.limits.denseCeiling ≤ 2 * max e.capacity 2 → (e.write e.capacity a).isDense = false) := by
  have hsparse := snug.write_sparse_iff word dense e.capacity a
  refine ⟨fun below => ?_, fun above => hsparse.2 (by omega)⟩
  have hdense : (e.write e.capacity a).isDense = true := by
    rw [← Bool.not_eq_false, hsparse]
    omega
  refine ⟨hdense, ?_⟩
  rw [capacity_write e.capacity a hdense, if_neg (Nat.lt_irrefl _), grownCapacity]
  omega

/-- The first entry leaves a fresh storage packed. -/
theorem packed_write_zero {limits : Limits} (word : limits.denseCeiling ≤ maxCapacity)
    (gap : 1 ≤ limits.gapTolerance) (a : α) : ((withLimits 0 limits).write 0 a).Packed 1 := by
  have hone : packedCapacity 1 = 4 := rfl
  by_cases ceiling : 0 < limits.denseCeiling
  · have hmade : (withLimits 0 limits : Elements α) = ⟨.dense #[], limits⟩ := by
      rw [withLimits, if_pos ceiling]
      rfl
    have snug : (⟨.dense #[], limits⟩ : Elements α).Snug := fun _ => ceiling
    obtain ⟨hdense, hsparse⟩ := snug.write_capacity word gap rfl a
    rw [hmade]
    constructor
    · rw [limits_write, hone]
      exact hdense
    · rw [limits_write, hone]
      exact hsparse
  · have hmade : (withLimits 0 limits : Elements α).isDense = false := by
      rw [withLimits, if_neg ceiling, isDense]
    have hnone : ((withLimits 0 limits).write 0 a).limits.denseCeiling = 0 := by
      rw [limits_write]
      exact Nat.eq_zero_of_not_pos ceiling
    refine ⟨fun below => ?_, fun _ => by rw [isDense_write, hmade, Bool.false_and]⟩
    rw [hnone] at below
    exact absurd below (Nat.not_lt_zero _)

namespace Packed

/-- One more entry leaves the storage packed. -/
theorem write (packed : e.Packed n) (word : e.limits.denseCeiling ≤ maxCapacity)
    (gap : 1 ≤ e.limits.gapTolerance) (pos : 1 ≤ n) (a : α) : (e.write n a).Packed (n + 1) := by
  have hlimits := limits_write e n a
  by_cases below : packedCapacity n < e.limits.denseCeiling
  · obtain ⟨dense, hcapacity⟩ := packed.dense below
    have snug : e.Snug := fun _ => hcapacity ▸ below
    rcases Nat.lt_or_eq_of_le (le_packedCapacity n) with room | full
    · -- there is a slot for the entry
      obtain ⟨hdense, hkept⟩ := snug.write_of_lt (i := n) (by omega) (by omega) a
      have hnext := packedCapacity_of_lt room
      constructor
      · intro _
        exact ⟨hdense.trans dense, by omega⟩
      · intro above
        rw [hlimits] at above
        omega
    · -- the slots are full
      have hnext := packedCapacity_of_full full
      have hlast : e.capacity = n := by omega
      have hslots : packedCapacity (n + 1) = 2 * max n 2 := by
        have hfour : packedCapacity 1 ≤ packedCapacity n := packedCapacity_mono pos
        have hone : packedCapacity 1 = 4 := rfl
        omega
      obtain ⟨hdense, hsparse⟩ := snug.write_capacity word gap dense a
      rw [hlast, ← hslots] at hdense hsparse
      constructor
      · rw [hlimits]
        exact hdense
      · rw [hlimits]
        exact hsparse
  · -- sparse storages stay sparse, and the number of slots does not become smaller
    have hsparse := packed.sparse (Nat.le_of_not_lt below)
    have hmore : packedCapacity n ≤ packedCapacity (n + 1) := packedCapacity_mono (Nat.le_succ n)
    refine ⟨fun below' => ?_, fun _ => by rw [isDense_write, hsparse, Bool.false_and]⟩
    rw [hlimits] at below'
    omega

/-- Any more entries leave the storage packed. -/
theorem writeAll (packed : e.Packed n) (word : e.limits.denseCeiling ≤ maxCapacity)
    (gap : 1 ≤ e.limits.gapTolerance) (pos : 1 ≤ n) (entries : List α) :
    (e.writeAll n entries).Packed (n + entries.length) := by
  induction entries generalizing e n with
  | nil => exact packed
  | cons a rest ih =>
    have hlimits := limits_write e n a
    have hrest := ih (packed.write word gap pos a) (hlimits ▸ word) (hlimits ▸ gap) (Nat.le_succ_of_le pos)
    rw [List.length_cons, ← Nat.add_assoc, Nat.add_right_comm]
    exact hrest

end Packed

/-- The storage holds the entries, from position zero on, as a packed fill of a fresh storage with the limits
does: in the least number of slots, or sparsely if this is at the ceiling. -/
structure Packs (e : Elements α) (limits : Limits) (entries : List α) : Prop where
  isDense_iff : e.isDense = true ↔ packedCapacity entries.length < limits.denseCeiling
  capacity : e.isDense = true → e.capacity = packedCapacity entries.length
  count : e.count = entries.length
  read : ∀ i, e.read i = entries[i]?
  limits : e.limits = limits

/-- Entries written one after the other into a storage without slots are packed. -/
theorem packs_writeAll {limits : Limits} (word : limits.denseCeiling ≤ maxCapacity)
    (gap : 1 ≤ limits.gapTolerance) {entries : List α} (nonempty : entries ≠ []) :
    ((withLimits 0 limits).writeAll 0 entries).Packs limits entries := by
  have hlimits : ((withLimits 0 limits).writeAll 0 entries).limits = limits := limits_writeAll ..
  have packed : ((withLimits 0 limits).writeAll 0 entries).Packed entries.length := by
    obtain ⟨a, rest, rfl⟩ := List.exists_cons_of_ne_nil nonempty
    have hfirst : ((withLimits 0 limits).write 0 a).limits = limits := limits_write ..
    have hrest := (packed_write_zero word gap a).writeAll (hfirst.symm ▸ word) (hfirst.symm ▸ gap)
      (Nat.le_refl 1) rest
    rw [List.length_cons, Nat.add_comm]
    exact hrest
  refine ⟨?_, fun dense => ?_, ?_, fun i => ?_, hlimits⟩
  · refine ⟨fun dense => ?_, fun below => (packed.dense (hlimits.symm ▸ below)).1⟩
    by_contra above
    rw [packed.sparse (hlimits.symm ▸ Nat.le_of_not_lt above)] at dense
    cases dense
  · by_contra hcapacity
    have hsparse := packed.sparse (Nat.le_of_not_lt fun below => hcapacity (packed.dense below).2)
    rw [hsparse] at dense
    cases dense
  · rw [count_eq_length, toList_writeAll, List.length_map, List.length_zipIdx]
  · rw [read_writeAll, read_withLimits, if_neg (Nat.not_lt_zero i), Option.or_none, Nat.sub_zero]

end Elements

/-! ## Entries of storages and values of arrays -/

/-- Packed fills, by writes to a storage and by values appended to an array. Both are made with no slots and
with any limits that tolerate a gap, and there are as many entries or values as one likes, up to the largest
length.

The storage is dense in the end if the least number of slots that doubling makes of four and that is enough for
the entries is below the ceiling, which has to be a word. Then it has this number of slots; otherwise it is
sparse. Either way it holds the entries and nothing else. The same is true of the elements of the array,
whatever the world it is made in, and every value is appended. -/
theorem packs_writeAll_pushing {limits : Limits} (word : limits.denseCeiling ≤ Elements.maxCapacity)
    (gap : 1 ≤ limits.gapTolerance) {n : Nat} (pos : 1 ≤ n) (fits : n ≤ maxLength) :
    IsLeast {c | n ≤ c ∧ ∃ k, c = 4 * 2 ^ k} (Elements.packedCapacity n)
      ∧ (∀ {α : Type} (entries : List α), entries.length = n →
        ((Elements.withLimits 0 limits).writeAll 0 entries).Packs limits entries)
      ∧ ∀ {σ : Type} (run : Callback σ) (w : World σ) (values : List Value), values.length = n →
        ∃ id w' e, (Protocol.pushing run 0 limits values).outcome w = (.ok (id, List.range' 1 n), w')
          ∧ (w'.heap.get id).elements? = some e ∧ e.Packs limits (values.map (.data · .all)) := by
  refine ⟨Elements.isLeast_packedCapacity n, fun entries length => ?_, fun run w values length => ?_⟩
  · have nonempty : entries ≠ [] := List.ne_nil_of_length_pos (by omega)
    exact Elements.packs_writeAll word gap nonempty
  · have nonempty : values.map (Property.data · .all) ≠ [] := by
      rw [Ne, List.map_eq_nil_iff]
      exact List.ne_nil_of_length_pos (by omega)
    subst length
    have hpushing := Protocol.outcome_pushing run w 0 limits fits
    refine ⟨_, _, _, hpushing, ?_, Elements.packs_writeAll word gap nonempty⟩
    rw [World.get_allocate]
    rfl

/-- With the usual limits, 5000 entries are in 8192 slots. With a ceiling of 8192, they are sparse. -/
theorem packs_writeAll_pushing_usual :
    let usual : Limits := {}
    let lower : Limits := { denseCeiling := 8192 }
    let entries := List.replicate 5000 'a'
    ((Elements.withLimits 0 usual).writeAll 0 entries).isDense = true
      ∧ ((Elements.withLimits 0 usual).writeAll 0 entries).capacity = 8192
      ∧ ((Elements.withLimits 0 lower).writeAll 0 entries).isDense = false
      ∧ ((Elements.withLimits 0 lower).writeAll 0 entries).count = 5000 := by
  intro usual lower entries
  have hlength : entries.length = 5000 := List.length_replicate
  have hslots : Elements.packedCapacity entries.length = 8192 := by
    rw [hlength]
    decide
  have pos : 1 ≤ 5000 := by decide
  have fits : 5000 ≤ maxLength := by decide
  obtain ⟨-, hwrites, -⟩ := @packs_writeAll_pushing usual (by decide) (by decide) 5000 pos fits
  obtain ⟨-, hwrites', -⟩ := @packs_writeAll_pushing lower (by decide) (by decide) 5000 pos fits
  have hpacks := hwrites entries hlength
  have hpacks' := hwrites' entries hlength
  have hdense : ((Elements.withLimits 0 usual).writeAll 0 entries).isDense = true :=
    hpacks.isDense_iff.2 (by rw [hslots]; decide)
  have hsparse : ((Elements.withLimits 0 lower).writeAll 0 entries).isDense = false :=
    Bool.eq_false_of_not_eq_true (mt hpacks'.isDense_iff.1 (by rw [hslots]; decide))
  exact ⟨hdense, (hpacks.capacity hdense).trans hslots, hsparse, hpacks'.count.trans hlength⟩

end ObjectModel
