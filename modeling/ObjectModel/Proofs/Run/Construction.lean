import ObjectModel.Proofs.Object.Representation
import ObjectModel.Proofs.Protocol.Appending
import ObjectModel.Proofs.Protocol.Filling
import ObjectModel.Proofs.Run.Representation

/-!
# Arrays made of values

An array can be made of values at once, or be made empty and have the values appended. The first way writes
the elements and the length past all rules; the second one goes through two assignments for each value. Both
come to the same storage operations: the values are written one after the other, from position zero on
(`Elements.writeAll`). They differ in the capacity that the storage is made with, and so in how it is
represented in the end. That cannot be observed, so neither can the difference between the two arrays.

Appending goes by an equation for one value (`Protocol.outcome_push_ofElements`), which says exactly what
world is left, and from it by induction for all of them (`Protocol.outcome_pushAll`).
-/

namespace ObjectModel

open ObjectModel.Action

variable {σ : Type}

/-! ## Entries written one after the other -/

namespace Elements

variable {α : Type} {e : Elements α}

/-- The storage with entries written one after the other, from a position on. -/
def writeAll (e : Elements α) (start : Nat) : List α → Elements α
  | [] => e
  | a :: rest => (e.write start a).writeAll (start + 1) rest

/-- Writing elements with their positions is writing them one after the other. -/
theorem foldl_zipIdx (e : Elements Property) (start : Nat) (values : List Value) :
    (values.zipIdx start).foldl (fun e (v, i) => e.write i (.data v .all)) e
      = e.writeAll start (values.map (.data · .all)) := by
  induction values generalizing e start with
  | nil => rfl
  | cons v rest ih =>
    rw [List.zipIdx_cons, List.foldl_cons]
    exact ih ..

/-- The entries are read from the position on, and everything else is read as before. -/
theorem read_writeAll (e : Elements α) (start : Nat) (entries : List α) (i : Nat) :
    (e.writeAll start entries).read i
      = if i < start then e.read i else entries[i - start]?.or (e.read i) := by
  induction entries generalizing e start with
  | nil => simp [writeAll]
  | cons a rest ih =>
    rw [writeAll, ih, read_write]
    rcases Nat.lt_trichotomy i start with before | rfl | after
    · rw [if_pos before, if_pos (by omega), if_neg (by omega)]
    · simp
    · have hnext : i - start = i - (start + 1) + 1 := by omega
      rw [if_neg (by omega), if_neg (by omega), if_neg (by omega), hnext, List.getElem?_cons_succ]

/-- Entries written into a fresh storage are listed with their positions. -/
theorem toList_writeAll (capacity : Nat) (limits : Limits) (entries : List α) :
    ((withLimits capacity limits).writeAll 0 entries).toList = entries.zipIdx.map Prod.swap := by
  refine toList_eq_of_ascending ?_ fun i a => ?_
  · have hpositions : (entries.zipIdx.map Prod.snd).Pairwise (· < ·) := by
      rw [List.zipIdx_map_snd]
      exact List.pairwise_lt_range'
    exact List.pairwise_map.2 (List.pairwise_map.1 hpositions)
  · rw [read_writeAll, read_withLimits, if_neg (Nat.not_lt_zero i), Option.or_none]
    simp [List.mem_zipIdx_iff_getElem?]

/-- Writing leaves the thresholds as they are. -/
theorem limits_writeAll (e : Elements α) (start : Nat) (entries : List α) :
    (e.writeAll start entries).limits = e.limits := by
  induction entries generalizing e start with
  | nil => rfl
  | cons a rest ih => rw [writeAll, ih, limits_write]

/-- Writing leaves a sparse storage sparse. -/
theorem isDense_writeAll_of_sparse (sparse : e.isDense = false) (start : Nat) (entries : List α) :
    (e.writeAll start entries).isDense = false := by
  induction entries generalizing e start with
  | nil => exact sparse
  | cons a rest ih => exact ih (by rw [isDense_write, sparse, Bool.false_and]) (start + 1)

/-- Writing below the capacity of a snug storage leaves representation and capacity as they are. -/
theorem Snug.writeAll_of_le (snug : e.Snug) {start : Nat} {entries : List α}
    (word : start + entries.length ≤ maxCapacity) (below : start + entries.length ≤ e.capacity) :
    (e.writeAll start entries).isDense = e.isDense
      ∧ (e.writeAll start entries).capacity = e.capacity := by
  induction entries generalizing e start with
  | nil => exact ⟨rfl, rfl⟩
  | cons a rest ih =>
    rw [List.length_cons] at word below
    have hstart : start < e.capacity := by omega
    obtain ⟨hdense, hcapacity⟩ := snug.write_of_lt (by omega) hstart a
    have hrest : start + 1 + rest.length ≤ (e.write start a).capacity := by omega
    obtain ⟨hdense', hcapacity'⟩ := ih (snug.write start a) (by omega) hrest
    exact ⟨hdense'.trans hdense, hcapacity'.trans hcapacity⟩

/-- A fresh storage with a slot for each of the entries has them all in its slots, unless its capacity is
at the ceiling. Then it is sparse. -/
theorem representation_writeAll {entries : List α} (word : entries.length ≤ maxCapacity) (limits : Limits) :
    ((withLimits entries.length limits).writeAll 0 entries).isDense
        = decide (entries.length < limits.denseCeiling)
      ∧ ((withLimits entries.length limits).writeAll 0 entries).capacity
        = if entries.length < limits.denseCeiling then entries.length else 0 := by
  by_cases below : entries.length < limits.denseCeiling
  · have hmade : (withLimits entries.length limits : Elements α)
        = ⟨.dense (.replicate entries.length none), limits⟩ := by
      rw [withLimits, if_pos below]
    have hcapacity : (withLimits entries.length limits : Elements α).capacity = entries.length := by
      rw [hmade]
      exact Array.size_replicate
    have hslots : 0 + entries.length ≤ (withLimits entries.length limits : Elements α).capacity := by omega
    obtain ⟨hdense, hkept⟩ := (Snug.withLimits entries.length limits).writeAll_of_le (by omega) hslots
    rw [hdense, hkept, hcapacity, if_pos below, hmade, decide_eq_true below]
    exact ⟨rfl, rfl⟩
  · have hmade : (withLimits entries.length limits : Elements α).isDense = false := by
      rw [withLimits, if_neg below, isDense]
    have hsparse := isDense_writeAll_of_sparse hmade 0 entries
    rw [hsparse, capacity_of_sparse hsparse, if_neg below, decide_eq_false below]
    exact ⟨rfl, rfl⟩

end Elements

/-! ## Arrays with values from index zero on -/

namespace Object

/-- The array without prototypes whose elements are values written into a storage, from position zero on. -/
def holding (e : Elements Property) (values : List Value) : Object :=
  ofElements (e.writeAll 0 (values.map (.data · .all))) values.length

/-- The properties of an array of values: the values by index, and the length. -/
def listing (values : List Value) : List (Key × Property) :=
  values.zipIdx.map (fun (v, i) => (.ofWord i, .data v .all))
    ++ [(.length, .data (.ofNat values.length) .length)]

/-- An array that is made of values has as many slots as values, and the values written into them. -/
theorem arrayOf_eq {values : List Value} (fits : values.length ≤ maxLength) :
    arrayOf values = holding (.withCapacity values.length) values := by
  rw [arrayOf, List.take_of_length_le fits]
  dsimp only
  rw [Elements.foldl_zipIdx]
  exact setLength_ofElements _ 0 values.length

/-- An array of values lists the values by index, and the length. -/
theorem properties_holding (values : List Value) (capacity : Nat) (limits : Limits) :
    (holding (.withLimits capacity limits) values).properties = listing values := by
  have hentries : ((Elements.withLimits capacity limits).writeAll 0 (values.map (.data · .all))).toList
      = values.zipIdx.map fun (v, i) => (i, Property.data v .all) := by
    rw [Elements.toList_writeAll, List.zipIdx_map, List.map_map]
    rfl
  rw [Object.properties]
  show (((Elements.withLimits capacity limits).writeAll 0 _).toList.map _) ++ _ = _
  rw [hentries, List.map_map]
  rfl

/-- Arrays of the same values show the same of themselves, whatever storages the values were written into. -/
theorem alike_holding (values : List Value) (capacity capacity' : Nat) (limits limits' : Limits) :
    (holding (.withLimits capacity limits) values).Alike (holding (.withLimits capacity' limits') values) := by
  refine .array (fun i => ?_) ..
  simp only [Elements.read_writeAll, Elements.read_withLimits]

/-- With a slot for each value, the elements are in these slots, unless there are as many as the ceiling. Then
they are sparse. -/
theorem representation_holding {values : List Value} (fits : values.length ≤ maxLength) (limits : Limits) :
    (holding (.withLimits values.length limits) values).representation
      = some (if values.length < limits.denseCeiling then (true, values.length, limits)
        else (false, 0, limits)) := by
  have word : (values.map (Property.data · .all)).length ≤ Elements.maxCapacity := by
    rw [List.length_map]
    exact fits
  obtain ⟨hdense, hcapacity⟩ := Elements.representation_writeAll word limits
  rw [List.length_map] at hdense hcapacity
  show some ((Elements.writeAll _ 0 _).isDense, (Elements.writeAll _ 0 _).capacity,
    (Elements.writeAll _ 0 _).limits) = _
  rw [hdense, hcapacity, Elements.limits_writeAll]
  by_cases below : values.length < limits.denseCeiling <;> simp [below, Elements.withLimits]

end Object

/-! ## Appending values one after the other -/

/-- The edit of an object that has just been made makes another object. -/
theorem World.edit_allocate (w : World σ) (o : Object) (e : Edit) :
    (w.allocate o).edit ⟨w.heap.objects.size⟩ e = w.allocate (e.apply o) := by
  obtain ⟨⟨objects⟩, host⟩ := w
  have hget : Heap.get ⟨objects.push o⟩ ⟨objects.size⟩ = o := by simp [Heap.get]
  show (⟨Heap.edit ⟨objects.push o⟩ ⟨objects.size⟩ e, host⟩ : World σ) = ⟨⟨objects.push (e.apply o)⟩, host⟩
  have hlast : (objects.push o).setIfInBounds objects.size (e.act o).2 = objects.push (e.act o).2 := by
    refine Array.ext_getElem? fun i => ?_
    rw [Array.getElem?_setIfInBounds, Array.getElem?_push, Array.getElem?_push, Array.size_push]
    grind
  rw [Heap.edit, Heap.alter_eq, hget, hlast]
  rfl

namespace Protocol

/-- Appends values one after the other, and answers the lengths. -/
def pushAll (run : Callback σ) (id : ObjectId) : List Value → Action σ (List Nat)
  | [] => pure []
  | v :: rest => do
    let length ← push run id v
    let lengths ← pushAll run id rest
    pure (length :: lengths)

/-- Makes an empty array without prototypes and appends values. -/
def pushing (run : Callback σ) (capacity : Nat) (limits : Limits) (values : List Value) :
    Action σ (ObjectId × List Nat) := do
  let id ← allocate none (Object.array · capacity limits)
  let lengths ← pushAll run id values
  pure (id, lengths)

/-- A value appended to a new array is written after the others. -/
theorem outcome_push_ofElements (run : Callback σ) (w : World σ) {e : Elements Property} {n : Nat}
    (room : n < maxLength) (empty : ∀ i, n ≤ i → e.read i = none) (v : Value) :
    (push run ⟨w.heap.objects.size⟩ v).outcome (w.allocate (.ofElements e n))
      = (.ok (n + 1), w.allocate (.ofElements (e.write n (.data v .all)) (n + 1))) := by
  have word : n < 2 ^ 32 := Nat.lt_trans room (by decide)
  have hget := w.get_allocate
  have hlength : ((w.allocate (.ofElements e n)).heap.get ⟨w.heap.objects.size⟩).length = n := by
    rw [hget, Object.length, Object.lengthState_ofElements e word]
  have hnone : e.read n = none := empty n (Nat.le_refl n)
  have hdefine := Object.define_ofElements word (i := ⟨n, room⟩) hnone v
  have hput : (put run ⟨w.heap.objects.size⟩ (.index ⟨n, room⟩) v true).outcome
        (w.allocate (.ofElements e n))
      = (.ok (), w.allocate (.ofElements (e.write n (.data v .all)) (n + 1))) := by
    rw [outcome_put_new run (by rw [hget]; exact hnone) (by rw [hget]; rfl) (by rw [hget]; rfl),
      outcome_discard, outcome_define run (converts_index ..), hget, hdefine, World.edit_allocate, Edit.apply,
      Edit.act, hdefine, Nat.max_eq_left (Nat.le_succ n)]
    rfl
  have hcovered : (Object.ofElements (e.write n (.data v .all)) (n + 1)).HasLength (n + 1) true := by
    refine ⟨Object.find?_length_ofElements .., room, fun i hi => ?_⟩
    have hread : ((e.write n (.data v .all)).read i).isSome = true := hi
    by_contra outside
    rw [Elements.read_write, if_neg (by omega), empty i (by omega)] at hread
    cases hread
  -- the length has been raised, so the second assignment finds it as it should be
  have hself : (put run ⟨w.heap.objects.size⟩ .length (.ofNat (n + 1)) true).outcome
        (w.allocate (.ofElements (e.write n (.data v .all)) (n + 1)))
      = (.ok (), w.allocate (.ofElements (e.write n (.data v .all)) (n + 1))) :=
    outcome_put_length_self run (by rw [hget]; rfl) (by rw [hget]; exact hcovered)
  rw [outcome_push run (by rw [hlength]; exact room)]
  simp only [hlength, hput, hself, Except.map]

/-- Values appended to a new array are written after the others, and the answers are the numbers up to the
new length. -/
theorem outcome_pushAll (run : Callback σ) (w : World σ) {e : Elements Property} {n : Nat}
    {values : List Value} (fits : n + values.length ≤ maxLength) (empty : ∀ i, n ≤ i → e.read i = none) :
    (pushAll run ⟨w.heap.objects.size⟩ values).outcome (w.allocate (.ofElements e n))
      = (.ok (List.range' (n + 1) values.length),
          w.allocate (.ofElements (e.writeAll n (values.map (.data · .all))) (n + values.length))) := by
  induction values generalizing e n with
  | nil => rfl
  | cons v rest ih =>
    rw [List.length_cons] at fits
    have empty' : ∀ i, n + 1 ≤ i → (e.write n (.data v .all)).read i = none := by
      intro i hi
      rw [Elements.read_write, if_neg (by omega), empty i (by omega)]
    have hrest := ih (n := n + 1) (by omega) empty'
    rw [pushAll, outcome_bind, outcome_push_ofElements run w (by omega) empty v]
    dsimp only
    rw [outcome_bind, hrest, List.length_cons, List.range'_succ, Nat.add_right_comm n 1 rest.length]
    rfl

/-- An array that is made empty and has values appended holds them all. -/
theorem outcome_pushing (run : Callback σ) (w : World σ) (capacity : Nat) (limits : Limits)
    {values : List Value} (fits : values.length ≤ maxLength) :
    (pushing run capacity limits values).outcome w
      = (.ok (⟨w.heap.objects.size⟩, List.range' 1 values.length),
          w.allocate (.holding (.withLimits capacity limits) values)) := by
  have hvalues : (pushAll run ⟨w.heap.objects.size⟩ values).outcome
        (w.allocate (.ofElements (.withLimits capacity limits) 0))
      = (.ok (List.range' (0 + 1) values.length),
          w.allocate (.ofElements (.writeAll (.withLimits capacity limits) 0 (values.map (.data · .all)))
            (0 + values.length))) :=
    outcome_pushAll run w (by omega) fun i _ => Elements.read_withLimits capacity limits i
  rw [Nat.zero_add, Nat.zero_add] at hvalues
  have hmade : (allocate none (Object.array · capacity limits)).outcome w
      = (.ok ⟨w.heap.objects.size⟩, w.allocate (.ofElements (.withLimits capacity limits) 0)) := rfl
  rw [pushing, outcome_bind, hmade]
  dsimp only
  rw [outcome_bind, hvalues]
  rfl

end Protocol

/-! ## Worlds that nothing tells apart -/

/-- No program tells the worlds apart, whatever function objects do. Started from either world, it ends with
the same answer, the same host state and the same view, and on the way the same happens before the same
views. Capacities and limits of arrays may be chosen differently in the two runs. -/
def World.Indistinguishable (w w' : World σ) : Prop :=
  ∀ {α : Type} {host host' : Host σ} {r r' : Routine σ α}, host.Twin host' → r.Twin r' → ∀ depth : Nat,
    (host.run depth r w).1 = (host'.run depth r' w').1
      ∧ (host.run depth r w).2.host = (host'.run depth r' w').2.host
      ∧ (host.run depth r w).2.heap.view = (host'.run depth r' w').2.heap.view
      ∧ (host.trace depth r w).map Event.view = (host'.trace depth r' w').map Event.view

/-- Calls of twin hosts agree, from worlds that look the same. -/
theorem Host.Twin.calls_agree {host host' : Host σ} (hosts : host.Twin host') (depth : Nat) :
    Protocol.CallsAgree SameView (host.recorded.call depth) (host'.recorded.call depth) := by
  refine Host.calls_agree ?_ ?_ depth
  · intro f w w' h
    have hrefused : host.refused f w.host.host = host'.refused f w'.host.host := by
      rw [hosts.refused, h.hosts]
    exact ⟨h.heaps, hrefused, h.logs⟩
  · intro run run' calls f this arguments w w' h
    exact (hosts.behaviour f this arguments).agree calls (h.note rfl)

/-- Worlds with alike heaps and the same host state are not told apart. -/
theorem World.indistinguishable {w w' : World σ} (heaps : w.heap.Alike w'.heap)
    (states : w.host = w'.host) : w.Indistinguishable w' := by
  intro α host host' r r' hosts programs depth
  have calls := hosts.calls_agree depth
  have hstart : SameView ⟨w.heap, { host := w.host }⟩ ⟨w'.heap, { host := w'.host }⟩ :=
    ⟨heaps, states, rfl⟩
  obtain ⟨hanswer, hworlds⟩ := programs.agree calls hstart
  rw [Host.run_eq_record, Host.run_eq_record]
  exact ⟨hanswer, hworlds.hosts, Heap.view_eq_iff.2 hworlds.heaps, hworlds.logs⟩

namespace Protocol

/-- An array that is made of values and one that is made empty and has the values appended cannot be told
apart, by anything that is done with them later. Every value is appended, and the answers are the lengths.
Both arrays list the values by index and then the length.

The array that is made of values has exactly one slot for each of them, if there are fewer than the dense
ceiling; otherwise it is sparse. The other array may be represented differently. -/
theorem newArrayOf_pushing (run run' : Callback σ) (w : World σ) (values : List Value)
    (fits : values.length ≤ maxLength) :
    ∃ id made pushed, ((Operation.newArrayOf values).perform run).outcome w = (.ok id, made)
      ∧ (pushing run' 0 {} values).outcome w = (.ok (id, List.range' 1 values.length), pushed)
      ∧ made.heap.view = pushed.heap.view
      ∧ (made.heap.get id).properties = Object.listing values
      ∧ made.Indistinguishable pushed
      ∧ (made.heap.get id).representation
        = some (if values.length < 10240 then (true, values.length, {}) else (false, 0, {})) := by
  let e : Elements Property := .withCapacity values.length
  have hmade : ((Operation.newArrayOf values).perform run).outcome w
      = (.ok ⟨w.heap.objects.size⟩, w.allocate (.holding e values)) := by
    rw [← Object.arrayOf_eq fits]
    rfl
  have halike : (w.allocate (.holding e values)).heap.Alike
      (w.allocate (.holding (.withLimits 0 {}) values)).heap :=
    (Heap.Alike.refl w.heap).allocate (Object.alike_holding values values.length 0 {} {})
  refine ⟨_, _, _, hmade, outcome_pushing run' w 0 {} fits, Heap.view_eq_iff.2 halike, ?_,
    World.indistinguishable halike rfl, ?_⟩
  · rw [World.get_allocate]
    exact Object.properties_holding values values.length {}
  · rw [World.get_allocate]
    exact Object.representation_holding fits {}

/-- The largest number of values that are kept in slots, and one value more. -/
theorem newArrayOf_pushing_ceiling :
    (List.replicate 10239 Value.null).length ≤ maxLength ∧ (List.replicate 10240 Value.null).length ≤ maxLength
      ∧ (∃ id made pushed,
        ((Operation.newArrayOf (List.replicate 10239 .null)).perform (Host.idle.call 1)).outcome ⟨{}, ()⟩
            = (.ok id, made)
          ∧ (pushing (Host.idle.call 1) 0 {} (List.replicate 10239 .null)).outcome ⟨{}, ()⟩
            = (.ok (id, List.range' 1 10239), pushed)
          ∧ made.Indistinguishable pushed
          ∧ (made.heap.get id).representation = some (true, 10239, {}))
      ∧ ∃ id made pushed,
        ((Operation.newArrayOf (List.replicate 10240 .null)).perform (Host.idle.call 1)).outcome ⟨{}, ()⟩
            = (.ok id, made)
          ∧ (pushing (Host.idle.call 1) 0 {} (List.replicate 10240 .null)).outcome ⟨{}, ()⟩
            = (.ok (id, List.range' 1 10240), pushed)
          ∧ made.Indistinguishable pushed
          ∧ (made.heap.get id).representation = some (false, 0, {}) := by
  have fits : (List.replicate 10239 Value.null).length ≤ maxLength := by
    rw [List.length_replicate]
    decide
  have fits' : (List.replicate 10240 Value.null).length ≤ maxLength := by
    rw [List.length_replicate]
    decide
  obtain ⟨id, made, pushed, hmade, hpushed, -, -, hsame, hdense⟩ :=
    newArrayOf_pushing (Host.idle.call 1) (Host.idle.call 1) ⟨{}, ()⟩ _ fits
  obtain ⟨id', made', pushed', hmade', hpushed', -, -, hsame', hsparse⟩ :=
    newArrayOf_pushing (Host.idle.call 1) (Host.idle.call 1) ⟨{}, ()⟩ _ fits'
  rw [List.length_replicate] at hpushed hdense hpushed' hsparse
  rw [if_pos (by decide)] at hdense
  rw [if_neg (by decide)] at hsparse
  exact ⟨fits, fits', ⟨id, made, pushed, hmade, hpushed, hsame, hdense⟩,
    id', made', pushed', hmade', hpushed', hsame', hsparse⟩

end Protocol

end ObjectModel
