import ObjectModel.Proofs.Object.View
import ObjectModel.Proofs.Protocol.Put

/-!
# Filling an array

Values put under different indices of a new array, one after the other. What comes of it does not depend
on their order: the array lists the values by ascending index and then a length of one above the largest
index. The capacity of the storage, and whether it is dense, may well depend on the order. So all that is
said of the storage is what it reads, and storages that read alike list alike.

`Filled` is what holds after some of the values have been put. A further one keeps it (`Filled.put`), and
so do any number of them (`Filled.putAll`).
-/

namespace ObjectModel

open ObjectModel.Action

variable {σ : Type}

/-! ## Lists of values by index -/

/-- One above the largest index, or zero if there is none. -/
def extent : List (Index × Value) → Nat
  | [] => 0
  | (i, _) :: rest => max (i + 1) (extent rest)

/-- The extent is the least number above all indices. -/
theorem extent_le_iff {pairs : List (Index × Value)} {n : Nat} :
    extent pairs ≤ n ↔ ∀ pair ∈ pairs, pair.1.val < n := by
  induction pairs with
  | nil => simp [extent]
  | cons pair rest ih =>
    rw [extent, Nat.max_le, ih, List.forall_mem_cons]
    rfl

/-- The extent is a 32-bit word. -/
theorem extent_lt (pairs : List (Index × Value)) : extent pairs < 2 ^ 32 :=
  Nat.lt_of_le_of_lt (extent_le_iff.2 fun pair _ => pair.1.isLt) (by decide)

/-- The extent does not depend on the order. -/
theorem extent_perm {pairs pairs' : List (Index × Value)} (perm : pairs.Perm pairs') :
    extent pairs = extent pairs' := by
  refine eq_of_forall_ge_iff fun n => ?_
  rw [extent_le_iff, extent_le_iff]
  simp only [perm.mem_iff]

/-- Whether the index of a value is at most that of another one. -/
def precedes (a b : Index × Value) : Bool := a.1 ≤ b.1

/-- The properties of an array that was filled with the values: the values by ascending index, and the
length. -/
def filling (pairs : List (Index × Value)) : List (Key × Property) :=
  (pairs.mergeSort precedes).map (fun (i, v) => (.index i, .data v .all))
    ++ [(.length, .data (.ofNat (extent pairs)) .length)]

namespace Elements

/-- The storage has exactly the given values, with all attributes. -/
def Holds (e : Elements Property) (pairs : List (Index × Value)) : Prop :=
  ∀ i p, e.read i = some p ↔ ∃ pair ∈ pairs, pair.1.val = i ∧ p = .data pair.2 .all

variable {e : Elements Property} {pairs pairs' : List (Index × Value)}

/-- An empty storage has no values. -/
theorem holds_withLimits (capacity : Nat) (limits : Limits) : (withLimits capacity limits).Holds [] := by
  intro i p
  rw [read_withLimits]
  simp

/-- The order of the values does not matter. -/
theorem Holds.perm (h : e.Holds pairs) (perm : pairs.Perm pairs') : e.Holds pairs' := by
  intro i p
  rw [h i p]
  simp only [perm.mem_iff]

/-- There is nothing at an index that is not among those of the values. -/
theorem Holds.read_eq_none (h : e.Holds pairs) {i : Index} (fresh : i ∉ pairs.map Prod.fst) :
    e.read i = none := by
  rw [Option.eq_none_iff_forall_ne_some]
  intro p hp
  obtain ⟨pair, hmem, hindex, -⟩ := (h i p).1 hp
  exact fresh (List.mem_map.2 ⟨pair, hmem, Fin.ext hindex⟩)

/-- A value written at another index joins the others. -/
theorem Holds.write (h : e.Holds pairs) {i : Index} (fresh : i ∉ pairs.map Prod.fst) (v : Value) :
    (e.write i (.data v .all)).Holds ((i, v) :: pairs) := by
  intro j p
  rw [read_write, List.exists_mem_cons_iff]
  split
  · next hij =>
    subst hij
    have hnone : ¬ ∃ pair ∈ pairs, pair.1.val = i ∧ p = .data pair.2 .all := by
      rw [← h i p, h.read_eq_none fresh]
      simp
    rw [or_iff_left hnone]
    simp [eq_comm]
  · next hij => rw [h j p, or_iff_right fun hhead => hij hhead.1]

/-- A storage with the given values lists them by ascending index. -/
theorem Holds.toList_eq (h : e.Holds pairs) (distinct : (pairs.map Prod.fst).Nodup) :
    e.toList = (pairs.mergeSort precedes).map fun (i, v) => (i.val, .data v .all) := by
  have hperm := pairs.mergeSort_perm precedes
  refine toList_eq_of_ascending ?_ fun i p => ?_
  · have htrans : ∀ a b c : Index × Value, precedes a b = true → precedes b c = true →
        precedes a c = true := by
      intro a b c hab hbc
      simp only [precedes, decide_eq_true_eq] at *
      exact hab.trans hbc
    have htotal : ∀ a b : Index × Value, (precedes a b || precedes b a) = true := by
      intro a b
      simpa [precedes] using le_total a.1 b.1
    have hdistinct : (pairs.mergeSort precedes).Pairwise fun a b => a.1 ≠ b.1 :=
      List.pairwise_map.1 ((hperm.map Prod.fst).nodup_iff.2 distinct)
    refine List.pairwise_map.2 (((List.pairwise_mergeSort htrans htotal pairs).and hdistinct).imp ?_)
    intro a b hab
    exact Fin.lt_def.1 (lt_of_le_of_ne (of_decide_eq_true hab.1) hab.2)
  · rw [h i p, List.mem_map]
    simp only [hperm.mem_iff, Prod.mk.injEq]
    exact exists_congr fun pair => and_congr_right fun _ => and_congr_right fun _ => eq_comm

end Elements

namespace Object

/-- An array without prototypes that has the given length and elements, and nothing else. -/
def ofElements (e : Elements Property) (n : Nat) : Object where
  kind := .array e
  table := PropertyTable.empty.insert .length (.data (.ofNat n) .length)

/-- The object is an array into which the given values were put, and nothing else. -/
def Filled (o : Object) (pairs : List (Index × Value)) : Prop :=
  ∃ e : Elements Property, e.Holds pairs ∧ o = ofElements e (extent pairs)

variable {o : Object} {pairs pairs' : List (Index × Value)} {e : Elements Property} {n : Nat}

/-- The length of such an array is its own property. -/
theorem find?_length_ofElements (e : Elements Property) (n : Nat) :
    (ofElements e n).find? .length = some (.data (.ofNat n) .length) := by
  rw [find?_length]
  exact (PropertyTable.find?_insert ..).trans (if_pos rfl)

/-- The length is the number if that is a 32-bit word. -/
theorem lengthState_ofElements (e : Elements Property) (word : n < 2 ^ 32) :
    (ofElements e n).lengthState = (n, true) := by
  rw [lengthState, find?_length_ofElements]
  show ((Number.ofNat n).toUint32, true) = (n, true)
  rw [Number.toUint32_ofNat word]

/-- A length that is overwritten is another length. -/
theorem setLength_ofElements (e : Elements Property) (n m : Nat) :
    (ofElements e n).setLength m = ofElements e m := by
  rw [setLength_eq (find?_length_ofElements e n), store_length]
  rfl

/-- The definition of a new element stores it and raises the length to cover it. -/
theorem define_ofElements (word : n < 2 ^ 32) {i : Index} (absent : e.read i = none) (v : Value) :
    (ofElements e n).define (.index i) (.data v .all)
      = (.accepted, ofElements (e.write i (.data v .all)) (max (i + 1) n)) := by
  have hordinary : (ofElements e n).ordinaryDefine (.index i) (.data v .all)
      = (.accepted, ofElements (e.write i (.data v .all)) n) := by
    have hfind : (ofElements e n).find? (.index i) = none := absent
    rw [ordinaryDefine, hfind]
    rfl
  show (ofElements e n).defineIndex i (.data v .all) = _
  rw [defineIndex, lengthState_ofElements e word]
  dsimp only
  rw [if_neg (by simp), hordinary]
  dsimp only
  split
  · next hraise => rw [setLength_ofElements, Nat.max_eq_left (by omega)]
  · next hcovered => rw [Nat.max_eq_right (by omega)]

namespace Filled

/-- A new array without prototypes has no values. -/
theorem array (capacity : Nat) (limits : Limits) : (Object.array [] capacity limits).Filled [] :=
  ⟨_, Elements.holds_withLimits capacity limits, rfl⟩

/-- The order of the values does not matter. -/
theorem perm (h : o.Filled pairs) (perm : pairs.Perm pairs') : o.Filled pairs' := by
  obtain ⟨e, holds, ho⟩ := h
  exact ⟨e, holds.perm perm, by rw [ho, extent_perm perm]⟩

/-- The length is the extent of the values. -/
theorem length (h : o.Filled pairs) : o.length = extent pairs := by
  obtain ⟨e, -, rfl⟩ := h
  rw [Object.length, lengthState_ofElements e (extent_lt pairs)]

/-- The properties are the values by ascending index, and the length. -/
theorem properties (h : o.Filled pairs) (distinct : (pairs.map Prod.fst).Nodup) :
    o.properties = filling pairs := by
  obtain ⟨e, holds, rfl⟩ := h
  have helements : (ofElements e (extent pairs)).elements? = some e := rfl
  rw [Object.properties, helements, Option.map_some, Option.getD_some, holds.toList_eq distinct,
    List.map_map, filling]
  congr 1
  exact List.map_congr_left fun pair _ => congrArg (·, _) (Key.ofWord_of_lt pair.1.isLt)

/-- Arrays filled with the same values show the same of themselves. -/
theorem view_eq {o' : Object} (h : o.Filled pairs) (h' : o'.Filled pairs) : o.view = o'.view := by
  obtain ⟨e, holds, rfl⟩ := h
  obtain ⟨e', holds', rfl⟩ := h'
  refine view_eq_iff.2 (.array (fun i => ?_) ..)
  ext p
  rw [holds i p, holds' i p]

end Filled

end Object

namespace Protocol

variable {w : World σ} {id : ObjectId} {pairs : List (Index × Value)}

/-- Puts values under indices, one after the other. -/
def putAll (run : Callback σ) (id : ObjectId) (strict : Bool) : List (Index × Value) → Action σ Unit
  | [] => pure ()
  | (i, v) :: rest => do
    put run id (.index i) v strict
    putAll run id strict rest

/-- Makes an array without prototypes, and puts values under indices. -/
def fill (run : Callback σ) (capacity : Nat) (limits : Limits) (strict : Bool)
    (pairs : List (Index × Value)) : Action σ ObjectId := do
  let id ← allocate none (Object.array · capacity limits)
  putAll run id strict pairs
  pure id

/-- An assignment to an object without prototypes makes a new property if the object takes any. -/
theorem outcome_put_new (run : Callback σ) {key : Key} (absent : (w.heap.get id).find? key = none)
    (alone : (w.heap.get id).ancestors = []) (extensible : (w.heap.get id).extensible = true) (v : Value)
    (strict : Bool) :
    (put run id key v strict).outcome w
      = (discard (define run id key (.data v .all) strict)).outcome w := by
  have hinherited : w.heap.inherited? id key = none := by
    rw [Heap.inherited?, alone]
    rfl
  have hallowed : ¬ w.heap.RefusesPut id key := by
    rw [Heap.refusesPut_iff, Heap.canPut, absent, hinherited]
    simpa using extensible
  have hnearest : w.heap.property? id key = none := by
    rw [Heap.property?_eq, absent, hinherited]
    rfl
  rw [outcome_put_of_not_refuses run hallowed, absent]
  exact outcome_putInherited_new run (by simp [hnearest]) v strict

/-- A value put under another index joins the others. -/
theorem outcome_put_filled (run : Callback σ) (inHeap : w.heap.Has id)
    (filled : (w.heap.get id).Filled pairs) {i : Index} (fresh : i ∉ pairs.map Prod.fst) (v : Value)
    (strict : Bool) :
    ∃ after : World σ, (put run id (.index i) v strict).outcome w = (.ok (), after)
      ∧ after.heap.Has id ∧ (after.heap.get id).Filled ((i, v) :: pairs) := by
  obtain ⟨e, holds, ho⟩ := filled
  have hnone := holds.read_eq_none fresh
  have hdefine := Object.define_ofElements (e := e) (extent_lt pairs) hnone v
  have hput : (put run id (.index i) v strict).outcome w
      = (.ok (), w.edit id (.define (.index i) (.data v .all))) := by
    rw [outcome_put_new run (by rw [ho]; exact hnone) (by rw [ho]; rfl) (by rw [ho]; rfl),
      outcome_discard, outcome_define run (converts_index ..), ho, hdefine]
    rfl
  refine ⟨_, hput, World.has_edit inHeap _, e.write i (.data v .all), holds.write fresh v, ?_⟩
  rw [World.get_edit inHeap, ho, Edit.apply, Edit.act, hdefine]
  rfl

/-- Values put under different indices join those that are there. -/
theorem outcome_putAll (run : Callback σ) (strict : Bool) {before : List (Index × Value)}
    (inHeap : w.heap.Has id) (filled : (w.heap.get id).Filled before)
    (distinct : ((pairs ++ before).map Prod.fst).Nodup) :
    ∃ after : World σ, (putAll run id strict pairs).outcome w = (.ok (), after)
      ∧ (after.heap.get id).Filled (pairs ++ before) := by
  induction pairs generalizing w before with
  | nil => exact ⟨w, rfl, filled⟩
  | cons pair rest ih =>
    obtain ⟨i, v⟩ := pair
    have hmoved : (rest ++ (i, v) :: before).Perm ((i, v) :: (rest ++ before)) := List.perm_middle
    have hdistinct := (hmoved.map Prod.fst).nodup_iff.2 distinct
    have fresh : i ∉ before.map Prod.fst := by
      rw [List.cons_append, List.map_cons, List.nodup_cons, List.map_append] at distinct
      exact fun hmem => distinct.1 (List.mem_append_right _ hmem)
    obtain ⟨w₁, hput, inHeap₁, filled₁⟩ := outcome_put_filled run inHeap filled fresh v strict
    obtain ⟨after, hrest, hfilled⟩ := ih inHeap₁ filled₁ hdistinct
    refine ⟨after, ?_, hfilled.perm hmoved⟩
    rw [putAll, outcome_bind, hput]
    exact hrest

/-- An array that is filled with values under different indices has these, and nothing else. -/
theorem outcome_fill (run : Callback σ) (w : World σ) (capacity : Nat) (limits : Limits) (strict : Bool)
    (distinct : (pairs.map Prod.fst).Nodup) :
    ∃ id after, (fill run capacity limits strict pairs).outcome w = (.ok id, after)
      ∧ (after.heap.get id).Filled pairs := by
  have inHeap : (w.allocate (.array [] capacity limits)).heap.Has ⟨w.heap.objects.size⟩ := by
    show _ < (w.heap.objects.push _).size
    simp
  have filled : ((w.allocate (.array [] capacity limits)).heap.get ⟨w.heap.objects.size⟩).Filled [] := by
    rw [World.get_allocate]
    exact .array capacity limits
  obtain ⟨after, hputs, hfilled⟩ := outcome_putAll run strict inHeap filled (by simpa using distinct)
  refine ⟨⟨w.heap.objects.size⟩, after, ?_, by simpa using hfilled⟩
  have hmade : (allocate none (Object.array · capacity limits)).outcome w
      = (.ok ⟨w.heap.objects.size⟩, w.allocate (.array [] capacity limits)) := rfl
  rw [fill, outcome_bind, hmade]
  dsimp only
  rw [outcome_bind, hputs]
  rfl

/-- The order in which values are put under different indices of a new array does not matter, whatever the
capacity and the thresholds that each array is made with. Both arrays show the same of themselves: they
list the values by ascending index and then the length, which is one above the largest index. -/
theorem fill_perm (run run' : Callback σ) (w w' : World σ) (capacity capacity' : Nat)
    (limits limits' : Limits) (strict strict' : Bool) {pairs pairs' : List (Index × Value)}
    (distinct : (pairs.map Prod.fst).Nodup) (perm : pairs.Perm pairs') :
    ∃ id id' after after', (fill run capacity limits strict pairs).outcome w = (.ok id, after)
      ∧ (fill run' capacity' limits' strict' pairs').outcome w' = (.ok id', after')
      ∧ (after.heap.get id).view = (after'.heap.get id').view
      ∧ (after.heap.get id).properties = filling pairs
      ∧ (after'.heap.get id').properties = filling pairs
      ∧ (after.heap.get id).length = extent pairs
      ∧ (after'.heap.get id').length = extent pairs := by
  have distinct' : (pairs'.map Prod.fst).Nodup := (perm.map Prod.fst).nodup_iff.1 distinct
  obtain ⟨id, after, houtcome, hfilled⟩ := outcome_fill run w capacity limits strict distinct
  obtain ⟨id', after', houtcome', hfilled'⟩ := outcome_fill run' w' capacity' limits' strict' distinct'
  have hsame := hfilled'.perm perm.symm
  exact ⟨id, id', after, after', houtcome, houtcome', hfilled.view_eq hsame, hfilled.properties distinct,
    hsame.properties distinct, hfilled.length, hsame.length⟩

/-- Two values with a gap between them. -/
def apart : List (Index × Value) := [(⟨2, by decide⟩, .null), (⟨5, by decide⟩, .undefined)]

/-- A new array that tolerates no gap of three is filled in a world without objects. -/
def filledTightly (pairs : List (Index × Value)) : Except Error ObjectId × World Unit :=
  (fill (fun _ _ _ => pure .undefined) 0 { gapTolerance := 3 } true pairs).outcome ⟨{}, ()⟩

/-- The value past the gap is stored densely if it comes last, and turns the storage sparse if it comes
first. Nothing else tells the two arrays apart. -/
theorem fill_perm_apart :
    (apart.map Prod.fst).Nodup ∧ apart.Perm apart.reverse
      ∧ (∃ id id' after after', filledTightly apart = (.ok id, after) ∧ filledTightly apart.reverse = (.ok id', after')
        ∧ (after.heap.get id).view = (after'.heap.get id').view
        ∧ (after.heap.get id).properties = filling apart ∧ (after.heap.get id).length = 6)
      ∧ ((filledTightly apart).2.heap.get ⟨0⟩).elements?.map (·.isDense) = some true
      ∧ ((filledTightly apart.reverse).2.heap.get ⟨0⟩).elements?.map (·.isDense) = some false := by
  have distinct : (apart.map Prod.fst).Nodup := by decide
  have perm : apart.Perm apart.reverse := (List.reverse_perm _).symm
  obtain ⟨id, id', after, after', houtcome, houtcome', hview, hproperties, -, hlength, -⟩ :=
    fill_perm (fun _ _ _ => pure .undefined) (fun _ _ _ => pure .undefined) ⟨{}, ()⟩ ⟨{}, ()⟩ 0 0
      { gapTolerance := 3 } { gapTolerance := 3 } true true distinct perm
  exact ⟨distinct, perm, ⟨id, id', after, after', houtcome, houtcome', hview, hproperties, hlength⟩,
    by decide +kernel, by decide +kernel⟩

end Protocol

end ObjectModel
