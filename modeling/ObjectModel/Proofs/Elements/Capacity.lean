import ObjectModel.Proofs.Elements.Checked

/-!
# Representation and capacity of element storage

A storage turns sparse at most once. From then on it is sparse and has no capacity, and growing it has no
effect. As long as it is dense it never loses capacity: a write at or past the capacity makes it larger,
and so does `ensureCapacity`, and nothing else changes it.

## When a write turns a storage sparse

`write` asks three questions, on 32-bit words: whether the position is below the ceiling, whether the
capacity to grow to is, and whether the position is within the tolerated gap. Sums and products stop at
the largest word. As long as the capacity of dense slots is below the ceiling, which is what `Snug` says,
these come down to one rule on natural numbers (`staysDense_iff`): a write below the capacity stays dense,
and any other one does if it is within the gap and twice the largest of the position, the capacity and two
is below the ceiling.

Writes and deletions keep a storage snug. Growing it on demand does not, since `ensureCapacity` asks no
questions, and then even a write to a slot that is there may turn the storage sparse.
-/

namespace ObjectModel.Elements

variable {α : Type} {e e' : Elements α}

/-! ## One operation -/

/-- A sparse storage has no capacity. -/
theorem capacity_of_sparse (sparse : e.isDense = false) : e.capacity = 0 := by
  obtain ⟨slots | entries, limits⟩ := e
  · cases sparse
  · rfl

/-- A sparse storage cannot be grown. -/
theorem ensureCapacity_of_sparse (sparse : e.isDense = false) (capacity : Nat) :
    e.ensureCapacity capacity = e := by
  obtain ⟨slots | entries, limits⟩ := e
  · cases sparse
  · rfl

/-- A write leaves the thresholds as they are. -/
theorem limits_write (e : Elements α) (i : Nat) (a : α) : (e.write i a).limits = e.limits := by
  obtain ⟨slots | entries, limits⟩ := e
  · rw [write]
    split
    · split <;> rfl
    · rfl
  · rfl

/-- A storage is dense after a write if it was dense before, and the write stays dense. -/
theorem isDense_write (e : Elements α) (i : Nat) (a : α) :
    (e.write i a).isDense = (e.isDense && staysDense e.limits i e.capacity) := by
  obtain ⟨slots | entries, limits⟩ := e
  · show (write ⟨.dense slots, limits⟩ i a).isDense = staysDense limits i slots.size
    rw [write]
    by_cases stays : staysDense limits i slots.size = true
    · rw [if_pos stays, stays]
      split <;> rfl
    · rw [if_neg stays, Bool.eq_false_of_not_eq_true stays]
      rfl
  · rfl

/-- A write that stays dense leaves the capacity alone, unless it is past the slots. -/
theorem capacity_write (i : Nat) (a : α) (dense : (e.write i a).isDense = true) :
    (e.write i a).capacity
      = if i < e.capacity then e.capacity else max e.capacity (grownCapacity i e.capacity) := by
  rw [isDense_write, Bool.and_eq_true] at dense
  obtain ⟨slots | entries, limits⟩ := e
  · have stays : staysDense limits i slots.size = true := dense.2
    show (write ⟨.dense slots, limits⟩ i a).capacity
      = if i < slots.size then slots.size else max slots.size (grownCapacity i slots.size)
    rw [write, if_pos stays]
    split
    · simp only [capacity, Array.size_setIfInBounds]
    · simp only [capacity, Array.size_setIfInBounds, size_padSlots]
  · cases dense.1

/-- A deletion leaves the representation and the thresholds as they are. -/
theorem isDense_delete (e : Elements α) (i : Nat) :
    (e.delete i).2.isDense = e.isDense ∧ (e.delete i).2.limits = e.limits := by
  obtain ⟨slots | entries, limits⟩ := e <;> exact ⟨rfl, rfl⟩

/-- Growing leaves the representation and the thresholds as they are. -/
theorem isDense_ensureCapacity (e : Elements α) (capacity : Nat) :
    (e.ensureCapacity capacity).isDense = e.isDense
      ∧ (e.ensureCapacity capacity).limits = e.limits := by
  obtain ⟨slots | entries, limits⟩ := e <;> exact ⟨rfl, rfl⟩

/-- Growing takes no capacity away. -/
theorem le_capacity_ensureCapacity (e : Elements α) (capacity : Nat) :
    e.capacity ≤ (e.ensureCapacity capacity).capacity := by
  obtain ⟨slots | entries, limits⟩ := e
  · show slots.size ≤ (padSlots slots capacity).size
    rw [size_padSlots]
    omega
  · exact Nat.le_refl _

/-! ## Storages that come of others -/

/-- What commands can make of a storage: one with the same thresholds that is dense only if the first one
is, and then has at least its capacity. -/
structure Follows (e e' : Elements α) : Prop where
  limits : e'.limits = e.limits
  dense : e'.isDense = true → e.isDense = true ∧ e.capacity ≤ e'.capacity

namespace Follows

/-- A storage follows itself. -/
theorem refl (e : Elements α) : e.Follows e := ⟨rfl, fun dense => ⟨dense, Nat.le_refl _⟩⟩

/-- What follows later follows. -/
theorem trans {e'' : Elements α} (first : e.Follows e') (second : e'.Follows e'') : e.Follows e'' := by
  refine ⟨second.limits.trans first.limits, fun dense => ?_⟩
  obtain ⟨dense', le'⟩ := second.dense dense
  obtain ⟨dense, le⟩ := first.dense dense'
  exact ⟨dense, Nat.le_trans le le'⟩

/-- A storage follows itself by any command. -/
theorem act (e : Elements α) (c : Command α) : e.Follows (c.onElements e).2 := by
  cases c with
  | write i a =>
    refine ⟨limits_write e i a, fun dense => ?_⟩
    have hdense : (e.write i a).isDense = true := dense
    have hcapacity := capacity_write i a hdense
    rw [isDense_write, Bool.and_eq_true] at hdense
    refine ⟨hdense.1, ?_⟩
    show e.capacity ≤ (e.write i a).capacity
    split at hcapacity <;> omega
  | delete i =>
    obtain ⟨hdense, hlimits⟩ := isDense_delete e i
    refine ⟨hlimits, fun dense => ⟨hdense ▸ dense, ?_⟩⟩
    exact Nat.le_of_eq (capacity_delete e i).symm
  | ensureCapacity capacity =>
    obtain ⟨hdense, hlimits⟩ := isDense_ensureCapacity e capacity
    exact ⟨hlimits, fun dense => ⟨hdense ▸ dense, le_capacity_ensureCapacity e capacity⟩⟩

/-- A storage follows itself by any commands. -/
theorem runAll (e : Elements α) (commands : List (Command α)) :
    e.Follows (Command.runAll Command.onElements commands e).2 := by
  induction commands generalizing e with
  | nil => exact .refl e
  | cons c rest ih => exact (act e c).trans (ih (c.onElements e).2)

/-- A storage that follows a sparse one is sparse. -/
theorem sparse (h : e.Follows e') (sparse : e.isDense = false) : e'.isDense = false := by
  apply Bool.eq_false_of_not_eq_true
  intro dense
  rw [(h.dense dense).1] at sparse
  cases sparse

end Follows

/-! ## The ceiling -/

/-- There are fewer dense slots than the ceiling says. -/
def Snug (e : Elements α) : Prop := e.isDense = true → e.capacity < e.limits.denseCeiling

/-- A fresh storage is snug. -/
theorem Snug.withLimits (capacity : Nat) (limits : Limits) :
    (withLimits capacity limits : Elements α).Snug := by
  intro dense
  unfold Elements.withLimits at dense ⊢
  by_cases below : capacity < limits.denseCeiling
  · simp only [if_pos below, Elements.capacity, Array.size_replicate]
    exact below
  · simp only [if_neg below, isDense] at dense
    cases dense

/-- A write leaves a storage snug. -/
theorem Snug.write (snug : e.Snug) (i : Nat) (a : α) : (e.write i a).Snug := by
  intro dense
  have hcapacity := capacity_write i a dense
  rw [isDense_write, Bool.and_eq_true] at dense
  have hsnug := snug dense.1
  have hstays := dense.2
  simp only [staysDense, Bool.and_eq_true, Bool.or_eq_true, decide_eq_true_eq] at hstays
  rw [limits_write, hcapacity]
  split <;> omega

/-- A deletion leaves a storage snug. -/
theorem Snug.delete (snug : e.Snug) (i : Nat) : (e.delete i).2.Snug := by
  obtain ⟨hdense, hlimits⟩ := isDense_delete e i
  unfold Snug
  rw [hdense, hlimits, capacity_delete]
  exact snug

/-- Whether the command is a write or a deletion. -/
def Command.isEdit : Command α → Bool
  | write .. | delete .. => true
  | ensureCapacity .. => false

/-- Writes and deletions leave a storage snug. -/
theorem Snug.runAll {commands : List (Command α)} (edits : ∀ c ∈ commands, c.isEdit = true)
    (snug : e.Snug) : (Command.runAll Command.onElements commands e).2.Snug := by
  induction commands generalizing e with
  | nil => exact snug
  | cons c rest ih =>
    obtain ⟨edit, rest⟩ := List.forall_mem_cons.1 edits
    refine ih rest ?_
    cases c with
    | write i a => exact snug.write i a
    | delete i => exact snug.delete i
    | ensureCapacity => cases edit

/-! ## The rule of the switch -/

/-- Below the capacity of a snug storage, a write stays dense. -/
theorem staysDense_of_lt {limits : Limits} {i capacity : Nat} (snug : capacity < limits.denseCeiling)
    (word : i < maxCapacity) (below : i < capacity) : staysDense limits i capacity = true := by
  simp only [staysDense, Bool.and_eq_true, Bool.or_eq_true, decide_eq_true_eq]
  omega

/-- If the ceiling is a word, the three questions on words are one rule on natural numbers. -/
theorem staysDense_iff {limits : Limits} (word : limits.denseCeiling ≤ maxCapacity) {i capacity : Nat}
    (snug : capacity < limits.denseCeiling) :
    staysDense limits i capacity = true
      ↔ i < capacity
        ∨ i < capacity + limits.gapTolerance ∧ 2 * max i (max capacity 2) < limits.denseCeiling := by
  simp only [staysDense, Bool.and_eq_true, Bool.or_eq_true, decide_eq_true_eq]
  unfold grownCapacity
  omega

/-- A write below the capacity of a snug storage leaves representation and capacity as they are. -/
theorem Snug.write_of_lt (snug : e.Snug) {i : Nat} (word : i < maxCapacity) (below : i < e.capacity)
    (a : α) : (e.write i a).isDense = e.isDense ∧ (e.write i a).capacity = e.capacity := by
  have hdense : e.isDense = true := by
    apply Bool.eq_true_of_not_eq_false
    intro sparse
    rw [capacity_of_sparse sparse] at below
    omega
  have hwritten : (e.write i a).isDense = true := by
    rw [isDense_write, hdense, Bool.true_and]
    exact staysDense_of_lt (snug hdense) word below
  exact ⟨hwritten.trans hdense.symm, (capacity_write i a hwritten).trans (if_pos below)⟩

/-- A write turns a snug storage sparse if it is past the capacity, and past the gap or too far for the
ceiling. -/
theorem Snug.write_sparse_iff (snug : e.Snug) (word : e.limits.denseCeiling ≤ maxCapacity)
    (dense : e.isDense = true) (i : Nat) (a : α) :
    (e.write i a).isDense = false
      ↔ e.capacity ≤ i ∧ (e.capacity + e.limits.gapTolerance ≤ i
        ∨ e.limits.denseCeiling ≤ 2 * max i (max e.capacity 2)) := by
  rw [isDense_write, dense, Bool.true_and, Bool.eq_false_iff, Ne, staysDense_iff word (snug dense)]
  omega

/-! ## Runs -/

/-- Representation and capacity during any commands, from a storage made for any capacity.

A storage that is sparse at some time has no capacity then, and cannot be grown; it is sparse at all later
times. One that is still dense later has lost no capacity in between. A deletion changes neither.

If there were only writes and deletions, the capacity of a dense storage is below the ceiling. Then a write
below the capacity changes nothing either, and a write turns the storage sparse exactly if it is at or past
the capacity, and past the tolerated gap or too far for the ceiling, which has to be a word. -/
theorem runAll_representation (capacity : Nat) {limits : Limits} (word : limits.denseCeiling ≤ maxCapacity)
    (commands later : List (Command α)) :
    let e := (Command.runAll Command.onElements commands (withLimits capacity limits)).2
    let e' := (Command.runAll Command.onElements later e).2
    (e.isDense = false → e.capacity = 0 ∧ (∀ c, e.ensureCapacity c = e)
        ∧ e'.isDense = false ∧ e'.capacity = 0)
      ∧ (e'.isDense = true → e.isDense = true ∧ e.capacity ≤ e'.capacity)
      ∧ (∀ i, (e.delete i).2.isDense = e.isDense ∧ (e.delete i).2.capacity = e.capacity)
      ∧ ((∀ c ∈ commands, c.isEdit = true) → e.isDense = true →
        e.capacity < limits.denseCeiling
          ∧ ∀ i a, (i < e.capacity → (e.write i a).isDense = true ∧ (e.write i a).capacity = e.capacity)
            ∧ ((e.write i a).isDense = false
              ↔ e.capacity ≤ i ∧ (e.capacity + limits.gapTolerance ≤ i
                ∨ limits.denseCeiling ≤ 2 * max i (max e.capacity 2)))) := by
  intro e e'
  have hstart : e.limits = limits := (Follows.runAll _ commands).limits
  have hlater : e.Follows e' := Follows.runAll e later
  refine ⟨?sparse, hlater.dense, ?deleted, ?edits⟩
  case sparse =>
    intro sparse
    have sparse' := hlater.sparse sparse
    exact ⟨capacity_of_sparse sparse, ensureCapacity_of_sparse sparse, sparse',
      capacity_of_sparse sparse'⟩
  case deleted =>
    intro i
    exact ⟨(isDense_delete e i).1, capacity_delete e i⟩
  case edits =>
    intro edits dense
    have snug : e.Snug := (Snug.withLimits capacity limits).runAll edits
    have hceiling : e.capacity < limits.denseCeiling := hstart ▸ snug dense
    refine ⟨hceiling, fun i a => ⟨fun below => ?_, ?_⟩⟩
    · rw [← dense]
      exact snug.write_of_lt (by omega) below a
    · have hrule := snug.write_sparse_iff (hstart ▸ word) dense i a
      rwa [hstart] at hrule

/-- Limits that are reached soon. -/
def tightLimits : Limits := { denseCeiling := 16, gapTolerance := 4 }

/-- A storage with six slots after one write turns sparse by a write that is within the gap, since eight
times two is the ceiling. -/
theorem runAll_representation_tight :
    tightLimits.denseCeiling ≤ maxCapacity
      ∧ (∀ c ∈ [Command.write 3 'a'], c.isEdit = true)
      ∧ ((withLimits 0 tightLimits).write 3 'a').isDense = true
      ∧ ((withLimits 0 tightLimits).write 3 'a').capacity = 6
      ∧ (((withLimits 0 tightLimits).write 3 'a').write 8 'b').isDense = false := by
  have word : tightLimits.denseCeiling ≤ maxCapacity := by decide
  have edits : ∀ c ∈ [Command.write 3 'a'], c.isEdit = true := by simp [Command.isEdit]
  have dense : ((withLimits 0 tightLimits).write 3 'a').isDense = true := by decide
  have capacity : ((withLimits 0 tightLimits).write 3 'a').capacity = 6 := by decide
  obtain ⟨-, -, -, hedits⟩ := runAll_representation 0 word [Command.write 3 'a'] []
  obtain ⟨-, hwrites⟩ := hedits edits dense
  refine ⟨word, edits, dense, capacity, (hwrites 8 'b').2.2 ?_⟩
  show ((withLimits 0 tightLimits).write 3 'a').capacity ≤ 8 ∧ _
  decide

end ObjectModel.Elements
