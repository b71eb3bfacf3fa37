import ObjectModel.Proofs.Object.NegativeLength
import ObjectModel.Proofs.Protocol.LengthValidation
import ObjectModel.Protocol.Ends

/-!
# Removing the last element

A removal at the end of an array reads the last element, deletes it and assigns the length, and each of the
three may fail after the one before has been done. An element that may not be deleted is in the way before
anything happens. A length that is read-only is noticed too late: the element is gone and the length still
counts it.

If nothing fails the array is `Shrunk` to one element less. Where only the element went, the array is
`WithoutElement`.
-/

namespace ObjectModel

open ObjectModel.Action

variable {σ : Type}

/-- The worlds are the same but for one object: every other object is as it was, and so is the host. -/
structure World.SameOutside (w w' : World σ) (id : ObjectId) : Prop where
  objects : ∀ other, other ≠ id → w'.heap.get other = w.heap.get other
  size : w'.heap.objects.size = w.heap.objects.size
  host : w'.host = w.host

namespace World.SameOutside

variable {w w' w'' : World σ} {id : ObjectId}

/-- Worlds that are the same as a third are the same as each other. -/
theorem trans (h : w.SameOutside w' id) (h' : w'.SameOutside w'' id) : w.SameOutside w'' id where
  objects other hother := (h'.objects other hother).trans (h.objects other hother)
  size := h'.size.trans h.size
  host := h'.host.trans h.host

/-- An edit concerns one object. -/
theorem edit (inHeap : w.heap.Has id) (e : Edit) : w.SameOutside (w.edit id e) id where
  objects other hother := (w.heap.get_edit id e inHeap other).trans (if_neg hother.symm)
  size := w.heap.size_edit id e
  host := rfl

end World.SameOutside

namespace Object

/-- The object has become another by the loss of the element at a position, if there was one. All else is
as it was, the length included. -/
structure WithoutElement (o : Object) (i : Nat) (o' : Object) : Prop where
  gone : o'.element? i = none
  kept : ∀ j, j ≠ i → o'.element? j = o.element? j
  length : o'.length = o.length
  table : o'.table = o.table
  toClass : o'.toClass = o.toClass
  ancestors : o'.ancestors = o.ancestors
  extensible : o'.extensible = o.extensible

variable {o o' o'' : Object} {i : Index} {n : Nat}

/-- An object that keeps its class stays an array. -/
theorem isArray_of_toClass (array : o.isArray = true) (same : o'.toClass = o.toClass) : o'.isArray = true := by
  rw [isArray, same]
  exact array

/-- The deletion of an element that is configurable, or missing, is accepted and takes that element away. -/
theorem delete_element (array : o.isArray = true)
    (free : ∀ p, o.find? (.index i) = some p → p.isConfigurable = true) :
    (o.delete (.index i)).1 = .accepted ∧ o.WithoutElement i (o.delete (.index i)).2 := by
  obtain ⟨e, table, ancestors, extensible, rfl⟩ := exists_of_isArray array
  rw [delete]
  cases found : find? ⟨.array e, table, ancestors, extensible⟩ (.index i) with
  | none => exact ⟨rfl, found, fun _ _ => rfl, rfl, rfl, rfl, rfl, rfl⟩
  | some p =>
    dsimp only
    rw [if_pos (free p found)]
    refine ⟨rfl, ?_, fun j hj => ?_, rfl, rfl, rfl, rfl, rfl⟩
    · exact (e.read_delete i i).trans (if_pos rfl)
    · exact (e.read_delete i j).trans (if_neg hj.symm)

/-- The deletion of an element that is not configurable is refused and changes nothing. -/
theorem delete_fixed {key : Key} {p : Property} (found : o.find? key = some p)
    (fixed : p.isConfigurable = false) :
    o.delete key = (.refused (.undeletable key o.toClass), o) := by
  rw [delete, found]
  dsimp only
  rw [fixed, if_neg Bool.false_ne_true]

/-- Without its last element, an array has nothing in the way of a length of one less. -/
theorem defineLength_withoutLast (h : o.HasLength (n + 1) true) (gone : o.element? n = none) (v : Value) :
    (o.defineLength n (.ofValue v)).1 = .accepted
      ∧ o.Shrunk n true (o.defineLength n (.ofValue v)).2
      ∧ (o.defineLength n (.ofValue v)).2.table
        = o.table.insert .length (.data (.ofNat n) ⟨true, false, false⟩) := by
  have fits : (Descriptor.ofValue v).FitsLength := ⟨rfl, rfl, nofun, nofun⟩
  have hunblocked : (o.truncate n (n + 1)).1 = none := by
    rcases truncate_cases (n := n) h with ⟨hnone, -⟩ | ⟨b, -, hpinned⟩
    · exact hnone
    · -- the last position is the only one in the range
      obtain ⟨⟨hnb, p, hp, -⟩, -⟩ := hpinned
      have hbn : b < n + 1 := h.covers b (Option.isSome_of_mem hp)
      obtain rfl : b = n := by omega
      rw [gone] at hp
      cases hp
  have hshrunk := shrunk_defineLength h n.lt_succ_self fits
  rw [hunblocked] at hshrunk
  refine ⟨?_, hshrunk, ?_⟩
  · rw [defineLength_shrink h n.lt_succ_self fits, hunblocked]
    rfl
  · obtain ⟨htable, -⟩ := truncate_frame o n (n + 1)
    rw [defineLength_shrink h n.lt_succ_self fits, hunblocked, store_length, htable]
    rfl

/-- An array that lost its last element and was shrunken by one is shrunken by one altogether. -/
theorem WithoutElement.shrunk (h : o.WithoutElement n o') (h' : o'.Shrunk n true o'') :
    o.Shrunk n true o'' where
  length := h'.length
  own := h'.own
  gone := h'.gone
  kept j hj := (h'.kept j hj).trans (h.kept j (Nat.ne_of_lt hj))
  others key hkey hindex := by
    rw [h'.others key hkey hindex]
    obtain ⟨kind, table, ancestors, extensible⟩ := o
    obtain ⟨kind', table', ancestors', extensible'⟩ := o'
    obtain rfl : table' = table := h.table
    cases key with
    | index i => cases hindex
    | name text notIndex => cases kind <;> cases kind' <;> rfl
  order := h'.order.trans (congrArg PropertyTable.keys h.table)
  toClass := h'.toClass.trans h.toClass
  ancestors := h'.ancestors.trans h.ancestors
  extensible := h'.extensible.trans h.extensible

end Object

/-- The value of the nearest property on the chain, the object's own or an inherited one. It is `undefined`
if there is no property, or an accessor. -/
def Heap.valueAt (h : Heap) (id : ObjectId) (key : Key) : Value :=
  ((h.property? id key).bind Property.value?).getD .undefined

namespace Protocol

variable {w : World σ} {id : ObjectId} {key : Key} {n : Nat}

/-- What is read where there is no accessor is the value that is there, or `undefined`. -/
theorem outcome_get_value (run : Callback σ)
    (noAccessor : ∀ g s a, w.heap.property? id key ≠ some (.accessor g s a)) :
    (get run id key).outcome w = (.ok (w.heap.valueAt id key), w) := by
  rw [get, outcome_inspect_bind, Heap.valueAt]
  cases hfound : w.heap.property? id key with
  | none => rfl
  | some p =>
    cases p with
    | data v a => rfl
    | accessor g s a => exact absurd hfound (noAccessor g s a)

/-- A deletion is one edit. -/
theorem outcome_delete (w : World σ) (id : ObjectId) (key : Key) (strict : Bool) :
    (delete id key strict).outcome w
      = (((w.heap.get id).delete key).1.answer strict, w.edit id (.delete key)) :=
  outcome_attempt strict id (·.delete key) w

/-- The assignment of a word to a length in order that is writable is a definition of that length. -/
theorem outcome_put_word (run : Callback σ) (array : (w.heap.get id).isArray = true)
    (inOrder : (w.heap.get id).LengthInOrder) (writable : (w.heap.get id).lengthState.2 = true)
    (word : n < 2 ^ 32)
    (accepted : ((w.heap.get id).defineLength n (.ofValue (.ofNat n))).1 = .accepted) :
    (put run id .length (.ofNat n) true).outcome w
      = (.ok (), w.edit id (.defineLength n (.ofValue (.ofNat n)))) := by
  have hdefine := outcome_define_length run array (d := .ofValue (.ofNat n)) rfl
    (Number.toInt?_ofNat (Nat.lt_trans word (by decide))) word true
  rw [outcome_put_length run inOrder writable, outcome_discard, hdefine, accepted]
  rfl

/-- An assignment to a length in order that is read-only is a type error, and nothing happens. -/
theorem outcome_put_readOnly (run : Callback σ) (inOrder : (w.heap.get id).LengthInOrder)
    (readOnly : (w.heap.get id).lengthState.2 = false) (v : Value) :
    (put run id .length v true).outcome w = (.error (.refused (.readOnlyAssignment .length)), w) := by
  obtain ⟨v₀, hown⟩ := inOrder.own_eq
  have hrefuses : w.heap.RefusesPut id .length := .ownReadOnly hown readOnly
  rw [outcome_put_of_refuses run hrefuses, if_pos rfl]

/-- The removal from an array without elements assigns a length of zero. -/
theorem outcome_pop_empty (run : Callback σ) (empty : (w.heap.get id).length = 0) :
    (pop run id).outcome w
      = (((put run id .length (.ofNat 0) true).outcome w).1.map fun _ => .undefined,
          ((put run id .length (.ofNat 0) true).outcome w).2) := by
  rw [pop, outcome_inspect_bind, if_pos empty, outcome_bind]
  obtain ⟨_ | _, v⟩ := (put run id .length (.ofNat 0) true).outcome w <;> rfl

/-- The removal of the last element deletes it and assigns the length, after its value was read. -/
theorem outcome_pop_last (run : Callback σ) (length : (w.heap.get id).length = n + 1)
    (noAccessor : ∀ g s a, w.heap.property? id (.ofWord n) ≠ some (.accessor g s a)) :
    (pop run id).outcome w
      = match ((w.heap.get id).delete (.ofWord n)).1.answer true with
        | .error e => (.error e, w.edit id (.delete (.ofWord n)))
        | .ok _ =>
          (((put run id .length (.ofNat n) true).outcome (w.edit id (.delete (.ofWord n)))).1.map
              fun _ => w.heap.valueAt id (.ofWord n),
            ((put run id .length (.ofNat n) true).outcome (w.edit id (.delete (.ofWord n)))).2) := by
  rw [pop, outcome_inspect_bind, length, if_neg n.succ_ne_zero, Nat.add_sub_cancel]
  dsimp only
  rw [outcome_bind, outcome_get_value run noAccessor]
  dsimp only
  rw [outcome_bind, outcome_discard, outcome_delete]
  dsimp only
  cases ((w.heap.get id).delete (.ofWord n)).1.answer true with
  | error e => rfl
  | ok b =>
    dsimp only [Except.map]
    rw [outcome_bind]
    obtain ⟨_ | _, v⟩ := (put run id .length (.ofNat n) true).outcome (w.edit id (.delete (.ofWord n))) <;> rfl

/-- An element that may not be deleted is not removed, and nothing happens. -/
theorem outcome_pop_fixed (run : Callback σ) (length : (w.heap.get id).length = n + 1)
    (noAccessor : ∀ g s a, w.heap.property? id (.ofWord n) ≠ some (.accessor g s a)) {p : Property}
    (found : (w.heap.get id).find? (.ofWord n) = some p) (fixed : p.isConfigurable = false) :
    (pop run id).outcome w
      = (.error (.refused (.undeletable (.ofWord n) (w.heap.get id).toClass)), w) := by
  have hrefused := Object.delete_fixed found fixed
  rw [outcome_pop_last run length noAccessor, hrefused,
    World.edit_of_same (e := .delete (.ofWord n)) (congrArg Prod.snd hrefused)]
  rfl

/-- Where the last element may be deleted, or is missing, it is deleted, and what happens to the length
decides. -/
theorem outcome_pop_free (run : Callback σ) {writable : Bool} (array : (w.heap.get id).isArray = true)
    (length : (w.heap.get id).HasLength (n + 1) writable)
    (noAccessor : ∀ g s a, w.heap.property? id (.ofWord n) ≠ some (.accessor g s a))
    (free : ∀ p, (w.heap.get id).find? (.ofWord n) = some p → p.isConfigurable = true) :
    ∃ between : World σ, (w.heap.get id).WithoutElement n (between.heap.get id)
      ∧ (between.heap.get id).HasLength (n + 1) writable
      ∧ w.SameOutside between id
      ∧ (pop run id).outcome w
        = (((put run id .length (.ofNat n) true).outcome between).1.map
              fun _ => w.heap.valueAt id (.ofWord n),
            ((put run id .length (.ofNat n) true).outcome between).2) := by
  have inHeap := Heap.has_of_isArray array
  have hn : n < maxLength := length.le_maxLength
  have hpop := outcome_pop_last run length.length noAccessor
  rw [Key.ofWord_of_lt hn] at free hpop ⊢
  obtain ⟨haccepted, hwithout⟩ := Object.delete_element array free
  have hget := World.get_edit inHeap (.delete (.index ⟨n, hn⟩))
  refine ⟨w.edit id (.delete (.index ⟨n, hn⟩)), ?_, ?_, .edit inHeap _, ?_⟩
  · rw [hget]
    exact hwithout
  · rw [hget]
    exact length.delete _
  · rw [hpop, haccepted]
    rfl

/-- The removal of the last element of an array with a writable length, where the element may be deleted, or
is missing, answers its value and shrinks the array. -/
theorem outcome_pop_writable (run : Callback σ) (array : (w.heap.get id).isArray = true)
    (length : (w.heap.get id).HasLength (n + 1) true)
    (noAccessor : ∀ g s a, w.heap.property? id (.ofWord n) ≠ some (.accessor g s a))
    (free : ∀ p, (w.heap.get id).find? (.ofWord n) = some p → p.isConfigurable = true) :
    ∃ after : World σ, (pop run id).outcome w = (.ok (w.heap.valueAt id (.ofWord n)), after)
      ∧ (w.heap.get id).Shrunk n true (after.heap.get id)
      ∧ (after.heap.get id).table
        = (w.heap.get id).table.insert .length (.data (.ofNat n) ⟨true, false, false⟩)
      ∧ w.SameOutside after id := by
  obtain ⟨between, hwithout, hlength, hsame, hpop⟩ :=
    outcome_pop_free run array length noAccessor free
  have array' := Object.isArray_of_toClass array hwithout.toClass
  have hword : n < 2 ^ 32 := Nat.lt_trans length.le_maxLength (by decide)
  obtain ⟨haccepted, hshrunk, htable⟩ := Object.defineLength_withoutLast hlength hwithout.gone (.ofNat n)
  have hput := outcome_put_word run array' hlength.inOrder (by rw [hlength.lengthState]) hword haccepted
  have inHeap := Heap.has_of_isArray array'
  have hget := World.get_edit inHeap (.defineLength n (.ofValue (.ofNat n)))
  rw [hput] at hpop
  refine ⟨_, hpop, ?_, ?_, hsame.trans (.edit inHeap _)⟩
  · rw [hget]
    exact hwithout.shrunk hshrunk
  · rw [hget, ← hwithout.table]
    exact htable

/-- The removal of the last element of an array.

From an array without elements it answers `undefined`, and at most makes the length plain; if the length is
read-only it is a type error and nothing happens. An element that may not be deleted makes it a type error
too, and nothing happens. Any other element is gone afterwards: with a writable length the answer is the
value that was read there, own or inherited, and the array is shrunken by one; with a read-only length it is
a type error, and all that happened is that the element went. -/
theorem pop_last (run : Callback σ) (w : World σ) (id : ObjectId)
    (array : (w.heap.get id).isArray = true) (inOrder : (w.heap.get id).LengthInOrder)
    (noAccessor : 0 < (w.heap.get id).length → ∀ g s a,
      w.heap.property? id (.ofWord ((w.heap.get id).length - 1)) ≠ some (.accessor g s a)) :
    ((w.heap.get id).length = 0 →
        ((w.heap.get id).lengthState.2 = true → ∃ after, (pop run id).outcome w = (.ok .undefined, after)
          ∧ after.heap.get id = (w.heap.get id).withPlainLength ∧ w.SameOutside after id)
        ∧ ((w.heap.get id).lengthState.2 = false → ∃ e : Error, e.kind = .typeError
          ∧ (pop run id).outcome w = (.error e, w)))
      ∧ ∀ n, (w.heap.get id).length = n + 1 →
        (∀ p, (w.heap.get id).find? (.ofWord n) = some p → p.isConfigurable = false →
          ∃ e : Error, e.kind = .typeError ∧ (pop run id).outcome w = (.error e, w))
        ∧ ((∀ p, (w.heap.get id).find? (.ofWord n) = some p → p.isConfigurable = true) →
          ((w.heap.get id).lengthState.2 = true → ∃ after,
            (pop run id).outcome w = (.ok (w.heap.valueAt id (.ofWord n)), after)
              ∧ (w.heap.get id).Shrunk n true (after.heap.get id) ∧ w.SameOutside after id)
          ∧ ((w.heap.get id).lengthState.2 = false → ∃ e : Error, e.kind = .typeError ∧ ∃ after,
            (pop run id).outcome w = (.error e, after)
              ∧ (w.heap.get id).WithoutElement n (after.heap.get id) ∧ w.SameOutside after id)) := by
  have inHeap := Heap.has_of_isArray array
  constructor
  · intro empty
    have hpop := outcome_pop_empty run empty
    constructor
    · intro writable
      have hdefine := inOrder.defineLength_self writable (.ofNat 0)
      rw [empty] at hdefine
      rw [outcome_put_word run array inOrder writable (by decide) (congrArg Prod.fst hdefine)] at hpop
      refine ⟨_, hpop, ?_, .edit inHeap _⟩
      exact (World.get_edit inHeap _).trans (congrArg Prod.snd hdefine)
    · intro readOnly
      rw [outcome_put_readOnly run inOrder readOnly] at hpop
      exact ⟨_, rfl, hpop⟩
  · intro n hn
    have length : (w.heap.get id).HasLength (n + 1) (w.heap.get id).lengthState.2 := by
      rw [← hn]
      refine inOrder.hasLength_or_negative.resolve_right fun hnegative => ?_
      exact n.succ_ne_zero (hn.symm.trans hnegative.1)
    rw [hn, Nat.add_sub_cancel] at noAccessor
    have hplain := noAccessor n.succ_pos
    refine ⟨fun p found fixed => ?_, fun free => ⟨fun writable => ?_, fun readOnly => ?_⟩⟩
    · exact ⟨_, rfl, outcome_pop_fixed run hn hplain found fixed⟩
    · rw [writable] at length
      obtain ⟨after, hpop, hshrunk, -, hsame⟩ := outcome_pop_writable run array length hplain free
      exact ⟨after, hpop, hshrunk, hsame⟩
    · obtain ⟨between, hwithout, hlength, hsame, hpop⟩ := outcome_pop_free run array length hplain free
      rw [outcome_put_readOnly run hlength.inOrder (by rw [hlength.lengthState, readOnly])] at hpop
      exact ⟨_, rfl, between, hpop, hwithout, hsame⟩

/-- A world with an array of length one that has no element, and inherits one. -/
def holeWorld : World Unit where
  heap := ⟨#[(Object.ordinary []).store (.ofWord 0) (.data .null .none),
    (Object.array [⟨0⟩] 0 {}).setLength 1]⟩
  host := ()

/-- The removal from an array of length one without an element answers what the array inherits. The array is
empty afterwards. -/
theorem pop_last_inherited :
    (holeWorld.heap.get ⟨1⟩).LengthInOrder
      ∧ ∃ after, (pop (fun _ _ _ => pure .undefined) ⟨1⟩).outcome holeWorld = (.ok .null, after)
        ∧ (holeWorld.heap.get ⟨1⟩).Shrunk 0 true (after.heap.get ⟨1⟩) := by
  have hlength : (holeWorld.heap.get ⟨1⟩).HasLength 1 true := by
    have hempty := Object.HasLength.array [⟨0⟩] 0 {}
    show ((Object.array [⟨0⟩] 0 {}).setLength 1).HasLength 1 true
    rw [Object.setLength_eq hempty.own]
    exact .of_store_length (by decide) fun i hi => Nat.lt_succ_of_lt (hempty.covers i hi)
  have hnearest : holeWorld.heap.property? ⟨1⟩ (.ofWord 0) = some (.data .null .none) := by decide
  have hmissing : (holeWorld.heap.get ⟨1⟩).find? (.ofWord 0) = none := by decide
  have hplain : ∀ g s a, holeWorld.heap.property? ⟨1⟩ (.ofWord 0) ≠ some (.accessor g s a) := by
    simp [hnearest]
  obtain ⟨-, hlast⟩ := pop_last (fun _ _ _ => pure .undefined) holeWorld ⟨1⟩ rfl hlength.inOrder
    fun _ => by rw [hlength.length]; exact hplain
  obtain ⟨-, hfree⟩ := hlast 0 hlength.length
  obtain ⟨after, hpop, hshrunk, -⟩ := (hfree (by simp [hmissing])).1 (by rw [hlength.lengthState])
  rw [Heap.valueAt, hnearest] at hpop
  exact ⟨hlength.inOrder, after, hpop, hshrunk⟩

/-- The definition of a length of negative zero. -/
def negativeLength : Descriptor := .ofValue (.number .negativeZero)

/-- A world with an array whose length an ordinary definition has made negative zero. -/
def negativeWorld : World Unit :=
  ((ordinaryDefine ⟨0⟩ .length negativeLength true).outcome ⟨⟨#[.array [] 0 {}]⟩, ()⟩).2

/-- The length of that array is in order. -/
theorem inOrder_negativeWorld : (negativeWorld.heap.get ⟨0⟩).LengthInOrder := by
  have hown : (negativeWorld.heap.get ⟨0⟩).find? .length
      = some (.data (.number .negativeZero) ⟨true, false, false⟩) := by decide
  exact .of_negative hown (Elements.read_withLimits 0 {})

/-- The removal from an array whose length is negative zero does change it. -/
theorem pop_last_negative :
    (negativeWorld.heap.get ⟨0⟩).isArray = true
      ∧ (negativeWorld.heap.get ⟨0⟩).LengthInOrder
      ∧ (negativeWorld.heap.get ⟨0⟩).lengthState = (0, true)
      ∧ (negativeWorld.heap.get ⟨0⟩).find? .length = some (.data (.number .negativeZero) .length)
      ∧ ((pop (fun _ _ _ => pure .undefined) ⟨0⟩).outcome negativeWorld).1 = .ok .undefined
      ∧ (((pop (fun _ _ _ => pure .undefined) ⟨0⟩).outcome negativeWorld).2.heap.get ⟨0⟩).find? .length
        = some (.data (.ofNat 0) .length) :=
  ⟨rfl, inOrder_negativeWorld, by decide +kernel, by decide, by decide +kernel, by decide +kernel⟩

end Protocol

end ObjectModel
