import ObjectModel.Proofs.Object.View
import ObjectModel.Proofs.Protocol.ElementDefinition
import ObjectModel.Proofs.Protocol.Removal

/-!
# Appending a value

Appending a value to an array takes two assignments: of the element past the end, and of the length. The
first one raises the length by itself, and where it is allowed the second one finds nothing left to do. So
either both are done or none is. What has to be asked of an array beforehand is `Heap.AcceptsPush`.

The removal of the last element takes an appended value away again. The array then shows the same of itself as
before, except that a length of negative zero was made plain on the way.
-/

namespace ObjectModel

open ObjectModel.Action

variable {σ : Type}

namespace Object

variable {o : Object}

/-- On an array, a definition under an index is the definition of an element. -/
theorem define_index (array : o.isArray = true) (i : Index) (d : Descriptor) :
    o.define (.index i) d = o.defineIndex i d := by
  obtain ⟨e, table, ancestors, extensible, rfl⟩ := exists_of_isArray array
  rfl

variable (inOrder : o.LengthInOrder)
include inOrder

/-- An array whose length is in order has nothing at its end. -/
theorem find?_end (array : o.isArray = true) (room : o.length < maxLength) :
    o.find? (.index ⟨o.length, room⟩) = none := by
  rw [Option.eq_none_iff_forall_ne_some]
  intro p found
  exact Nat.lt_irrefl _ (inOrder.lt_of_find? array found)

/-- The ordinary definition of an element at the end of an extensible array stores it. -/
theorem ordinaryDefine_end (array : o.isArray = true) (extensible : o.extensible = true)
    (room : o.length < maxLength) (v : Value) :
    o.ordinaryDefine (.index ⟨o.length, room⟩) (.data v .all)
      = (.accepted, o.store (.index ⟨o.length, room⟩) (.data v .all)) := by
  rw [ordinaryDefine, find?_end inOrder array room, extensible]
  rfl

/-- The definition of an element at the end of an extensible array with a writable length stores the element
and raises the length by one. -/
theorem define_end (array : o.isArray = true) (extensible : o.extensible = true)
    (writable : o.lengthState.2 = true) (room : o.length < maxLength) (v : Value) :
    o.define (.index ⟨o.length, room⟩) (.data v .all)
      = (.accepted,
          (o.store (.index ⟨o.length, room⟩) (.data v .all)).setLength (o.length + 1)) := by
  rw [define_index array, defineIndex_of_not_frozen (by simp [writable]),
    ordinaryDefine_end inOrder array extensible room]
  dsimp only
  rw [if_pos (Nat.le_refl _)]

/-- So the array differs from what it was in that element and in its length. -/
theorem elementDefined_end (array : o.isArray = true) (extensible : o.extensible = true)
    (writable : o.lengthState.2 = true) (room : o.length < maxLength) (v : Value) :
    o.ElementDefined ⟨o.length, room⟩ (.data v .all)
      (o.define (.index ⟨o.length, room⟩) (.data v .all)).2 := by
  have hordinary := ordinaryDefine_end inOrder array extensible room v
  rw [define_index array]
  rcases defineIndex_cases array inOrder (i := ⟨o.length, room⟩) (d := .data v .all) (by simp [writable])
    with ⟨r, hrefused, -⟩ | ⟨p, o₁, o', ho₁, ho', helement, hdefined⟩
  · cases hordinary.symm.trans hrefused
  · cases hordinary.symm.trans ho₁
    rw [(store_index array _ _).1] at helement
    cases helement
    rw [ho']
    exact hdefined

/-- The length that is stored covers the elements, and nothing else in the table has changed. -/
theorem hasLength_end (array : o.isArray = true) (extensible : o.extensible = true)
    (writable : o.lengthState.2 = true) (room : o.length < maxLength) (v : Value) :
    (o.define (.index ⟨o.length, room⟩) (.data v .all)).2.HasLength (o.length + 1) true
      ∧ (o.define (.index ⟨o.length, room⟩) (.data v .all)).2.table
        = o.table.insert .length (.data (.ofNat (o.length + 1)) ⟨true, false, false⟩) := by
  obtain ⟨v₀, hown⟩ := inOrder.own_eq
  have hkept : (o.store (.index ⟨o.length, room⟩) (.data v .all)).find? .length
      = some (.data v₀ ⟨true, false, false⟩) := by
    rw [find?_store, if_neg (by simp [Key.length]), hown, writable]
  rw [define_end inOrder array extensible writable, setLength_eq hkept]
  constructor
  · refine .of_store_length room fun j hj => ?_
    rcases isSome_element?_store hj with hj | ⟨i, hi, rfl⟩
    · exact Nat.lt_succ_of_lt (inOrder.lt_of_element? hj)
    · cases hi
      exact Nat.lt_succ_self _
  · rw [store_length, (store_index array _ _).2]

/-- An array that was given an element at its end, and then shrunken to its old length, is alike to the array
that it was with its length made plain. -/
theorem alike_of_shrunk (array : o.isArray = true) (writable : o.lengthState.2 = true) {i : Index}
    (last : i.val = o.length) {o' o'' : Object} {p : Property} (defined : o.ElementDefined i p o')
    (shrunk : o'.Shrunk o.length true o'')
    (table : o''.table = o.table.insert .length (.data (.ofNat o.length) ⟨true, false, false⟩)) :
    o''.Alike o.withPlainLength := by
  obtain ⟨v₀, hown⟩ := inOrder.own_eq
  have hplain : o.withPlainLength
      = { o with table := o.table.insert .length (.data (.ofNat o.length) ⟨true, false, false⟩) } := by
    rw [← inOrder.setLength_length, setLength_eq hown, writable, store_length]
  have helements : ∀ j, o''.element? j = o.element? j := by
    intro j
    rcases Nat.lt_or_ge j o.length with hj | hj
    · rw [shrunk.kept j hj, defined.elements j (by omega)]
    · rw [shrunk.gone j hj]
      exact (Option.not_isSome_iff_eq_none.1 fun hocc =>
        Nat.not_lt_of_le hj (inOrder.lt_of_element? hocc)).symm
  have array'' := isArray_of_toClass array (shrunk.toClass.trans defined.toClass)
  have hancestors := shrunk.ancestors.trans defined.ancestors
  have hextensible := shrunk.extensible.trans defined.extensible
  rw [hplain]
  obtain ⟨e, t, ancestors, extensible, rfl⟩ := exists_of_isArray array
  obtain ⟨e'', t'', ancestors'', extensible'', rfl⟩ := exists_of_isArray array''
  cases table
  cases hancestors
  cases hextensible
  exact .array helements ..

end Object

namespace Heap

/-- What has to be asked of an array before a value can be appended: there is a larger length, the array
takes new elements and its length is writable, and no value that it inherits at its end is read-only. -/
structure AcceptsPush (h : Heap) (id : ObjectId) : Prop where
  room : (h.get id).length < maxLength
  extensible : (h.get id).extensible = true
  writable : (h.get id).lengthState.2 = true
  inherited : ∀ p, h.inherited? id (.ofWord (h.get id).length) = some p → p.isWritable = true

/-- Below the largest length, a value can be appended exactly if the assignment to the end is not refused and
the length is writable. -/
theorem acceptsPush_iff {h : Heap} {id : ObjectId} (array : (h.get id).isArray = true)
    (inOrder : (h.get id).LengthInOrder)
    (noAccessor : ∀ g s a, h.inherited? id (.ofWord (h.get id).length) ≠ some (.accessor g s a))
    (room : (h.get id).length < maxLength) :
    h.AcceptsPush id
      ↔ ¬ h.RefusesPut id (.index ⟨(h.get id).length, room⟩) ∧ (h.get id).lengthState.2 = true := by
  have habsent := Object.find?_end inOrder array room
  have hkey := Key.ofWord_of_lt room
  rw [hkey] at noAccessor
  constructor
  · intro accepts
    have hinherited := accepts.inherited
    refine ⟨fun refuses => ?_, accepts.writable⟩
    rw [hkey] at hinherited
    cases refuses with
    | ownReadOnly own | ownWithoutSetter own => cases habsent.symm.trans own
    | inheritedWithoutSetter _ inherited => exact noAccessor _ _ _ inherited
    | notExtensible _ _ closed => exact Bool.false_ne_true (closed.symm.trans accepts.extensible)
    | inheritedReadOnly _ inherited readOnly =>
      exact Bool.false_ne_true (readOnly.symm.trans (hinherited _ inherited))
  · rintro ⟨allowed, writable⟩
    refine ⟨room, ?_, writable, fun p hp => ?_⟩
    · by_contra closed
      exact allowed (.notExtensible habsent noAccessor (Bool.eq_false_of_not_eq_true closed))
    · rw [hkey] at hp
      cases p with
      | accessor g s a => exact absurd hp (noAccessor g s a)
      | data v a =>
        by_contra readOnly
        exact allowed (.inheritedReadOnly habsent hp (Bool.eq_false_of_not_eq_true readOnly))

end Heap

namespace Protocol

variable {w : World σ} {id : ObjectId}

/-- The assignment of the length that an array has, written as that number, changes nothing. -/
theorem outcome_put_length_self (run : Callback σ) {n : Nat} (array : (w.heap.get id).isArray = true)
    (length : (w.heap.get id).HasLength n true) :
    (put run id .length (.ofNat n) true).outcome w = (.ok (), w) := by
  have writable : (w.heap.get id).lengthState.2 = true := by rw [length.lengthState]
  have hdefine := length.inOrder.defineLength_self writable (.ofNat n)
  rw [length.length, Object.withPlainLength, length.hasNegativeLength, if_neg Bool.false_ne_true] at hdefine
  have hword : n < 2 ^ 32 := Nat.lt_of_le_of_lt length.le_maxLength (by decide)
  have hsame : w.edit id (.defineLength n (.ofValue (.ofNat n))) = w :=
    World.edit_of_same (congrArg Prod.snd hdefine)
  rw [outcome_put_word run array length.inOrder writable hword (congrArg Prod.fst hdefine), hsame]

/-- Appending assigns the element past the end and then the length. -/
theorem outcome_push (run : Callback σ) (room : (w.heap.get id).length < maxLength) (v : Value) :
    (push run id v).outcome w
      = match (put run id (.index ⟨(w.heap.get id).length, room⟩) v true).outcome w with
        | (.error e, between) => (.error e, between)
        | (.ok _, between) =>
          (((put run id .length (.ofNat ((w.heap.get id).length + 1)) true).outcome between).1.map
              fun _ => (w.heap.get id).length + 1,
            ((put run id .length (.ofNat ((w.heap.get id).length + 1)) true).outcome between).2) := by
  rw [push, outcome_inspect_bind, dif_pos room, outcome_bind]
  obtain ⟨_ | _, between⟩ := (put run id (.index ⟨(w.heap.get id).length, room⟩) v true).outcome w
  · rfl
  · dsimp only
    rw [outcome_bind]
    obtain ⟨_ | _, after⟩ :=
      (put run id .length (.ofNat ((w.heap.get id).length + 1)) true).outcome between <;> rfl

section

variable (run : Callback σ) (array : (w.heap.get id).isArray = true)
  (inOrder : (w.heap.get id).LengthInOrder)
  (noAccessor : ∀ g s a, w.heap.inherited? id (.ofWord (w.heap.get id).length) ≠ some (.accessor g s a))
  (v : Value)
include array inOrder noAccessor

/-- The assignment to the end of an array defines a new element, unless it is refused. -/
theorem outcome_put_end (room : (w.heap.get id).length < maxLength)
    (allowed : ¬ w.heap.RefusesPut id (.index ⟨(w.heap.get id).length, room⟩)) :
    (put run id (.index ⟨(w.heap.get id).length, room⟩) v true).outcome w
      = ((((w.heap.get id).define (.index ⟨(w.heap.get id).length, room⟩) (.data v .all)).1.answer true).map
            fun _ => (),
          w.edit id (.define (.index ⟨(w.heap.get id).length, room⟩) (.data v .all))) := by
  have habsent := Object.find?_end inOrder array room
  rw [Key.ofWord_of_lt room] at noAccessor
  have hnearest : ∀ g s a, w.heap.property? id (.index ⟨(w.heap.get id).length, room⟩)
      ≠ some (.accessor g s a) := by
    intro g s a
    rw [Heap.property?_eq, habsent, Option.none_or]
    exact noAccessor g s a
  rw [outcome_put_of_not_refuses run allowed, habsent]
  dsimp only
  rw [outcome_putInherited_new run hnearest, outcome_discard, outcome_define run (converts_index ..)]

/-- An array that accepts the value gets it as an element at its end, with a length that covers it. -/
theorem outcome_push_accepted (accepts : w.heap.AcceptsPush id) :
    ∃ after : World σ, (push run id v).outcome w = (.ok ((w.heap.get id).length + 1), after)
      ∧ (w.heap.get id).ElementDefined ⟨(w.heap.get id).length, accepts.room⟩ (.data v .all)
        (after.heap.get id)
      ∧ (after.heap.get id).HasLength ((w.heap.get id).length + 1) true
      ∧ (after.heap.get id).table = (w.heap.get id).table.insert .length
        (.data (.ofNat ((w.heap.get id).length + 1)) ⟨true, false, false⟩)
      ∧ w.SameOutside after id := by
  have inHeap := Heap.has_of_isArray array
  have room := accepts.room
  let e : Edit := .define (.index ⟨(w.heap.get id).length, room⟩) (.data v .all)
  have hdefine := Object.define_end inOrder array accepts.extensible accepts.writable room v
  have hdefined := Object.elementDefined_end inOrder array accepts.extensible accepts.writable room v
  obtain ⟨hlength, htable⟩ :=
    Object.hasLength_end inOrder array accepts.extensible accepts.writable room v
  have hget := World.get_edit inHeap e
  rw [Edit.apply, Edit.act] at hget
  rw [← hget] at hdefined hlength htable
  refine ⟨w.edit id e, ?_, hdefined, hlength, htable, .edit inHeap e⟩
  have hallowed := ((Heap.acceptsPush_iff array inOrder noAccessor room).1 accepts).1
  have hput := outcome_put_end run array inOrder noAccessor v room hallowed
  have array' := Object.isArray_of_toClass array hdefined.toClass
  -- the length has been raised, so the second assignment finds it as it should be
  rw [outcome_push run room, hput, hdefine]
  dsimp only [Verdict.answer, Except.map]
  rw [outcome_put_length_self run array' hlength]

/-- An array that does not accept the value is left as it is, with everything else. -/
theorem outcome_push_refused (refuses : ¬ w.heap.AcceptsPush id) :
    ∃ e : Error, e.kind = (if (w.heap.get id).length = maxLength then .rangeError else .typeError)
      ∧ (push run id v).outcome w = (.error e, w) := by
  by_cases room : (w.heap.get id).length < maxLength
  · obtain ⟨e, he, hput⟩ : ∃ e : Error, e.kind = .typeError
        ∧ (put run id (.index ⟨(w.heap.get id).length, room⟩) v true).outcome w = (.error e, w) := by
      by_cases hrefuses : w.heap.RefusesPut id (.index ⟨(w.heap.get id).length, room⟩)
      · refine ⟨.refused (.readOnlyAssignment (.index ⟨(w.heap.get id).length, room⟩)), rfl, ?_⟩
        rw [outcome_put_of_refuses run hrefuses, if_pos rfl]
      · -- the element could be added, so it must be the length that is read-only
        have readOnly : (w.heap.get id).lengthState.2 = false := by
          by_contra writable
          exact refuses ((Heap.acceptsPush_iff array inOrder noAccessor room).2
            ⟨hrefuses, Bool.eq_true_of_not_eq_false writable⟩)
        have hput := outcome_put_end run array inOrder noAccessor v room hrefuses
        have hfrozen := Object.defineIndex_of_frozen (d := .data v .all)
          (i := ⟨(w.heap.get id).length, room⟩) ⟨Nat.le_refl _, readOnly⟩
        rw [← Object.define_index array] at hfrozen
        have hsame : w.edit id (.define (.index ⟨(w.heap.get id).length, room⟩) (.data v .all)) = w :=
          World.edit_of_same (congrArg Prod.snd hfrozen)
        rw [hfrozen, hsame] at hput
        exact ⟨_, rfl, hput⟩
    refine ⟨e, ?_, ?_⟩
    · rw [if_neg (Nat.ne_of_lt room), he]
    · rw [outcome_push run room, hput]
  · have hlength : (w.heap.get id).length = maxLength :=
      Nat.le_antisymm (Nat.le_of_lt_succ inOrder.lt) (Nat.le_of_not_lt room)
    refine ⟨.lengthExhausted, by rw [if_pos hlength]; rfl, ?_⟩
    rw [push, outcome_inspect_bind, dif_neg room]
    rfl

end

/-- Appending a value to an array without an accessor at the end of what it inherits, and then the removal of
the last element.

If the array accepts the value, the answer is the new length. The array has the value as one more element,
with all attributes, and nothing else changes but the length, which covers it. The removal of the last
element then answers the value, and the array shows the same of itself as before, with its length made plain.

If the array does not accept the value, that is a range error at the largest length and otherwise a type
error, and nothing changes. -/
theorem push_pop (run : Callback σ) (w : World σ) (id : ObjectId)
    (array : (w.heap.get id).isArray = true) (inOrder : (w.heap.get id).LengthInOrder)
    (noAccessor : ∀ g s a,
      w.heap.inherited? id (.ofWord (w.heap.get id).length) ≠ some (.accessor g s a)) (v : Value) :
    (w.heap.AcceptsPush id → ∃ (room : (w.heap.get id).length < maxLength) (after : World σ),
        (push run id v).outcome w = (.ok ((w.heap.get id).length + 1), after)
          ∧ (w.heap.get id).ElementDefined ⟨(w.heap.get id).length, room⟩ (.data v .all)
            (after.heap.get id)
          ∧ (after.heap.get id).length = (w.heap.get id).length + 1
          ∧ w.SameOutside after id
          ∧ ∃ restored, (pop run id).outcome after = (.ok v, restored)
            ∧ (restored.heap.get id).view = (w.heap.get id).withPlainLength.view
            ∧ w.SameOutside restored id)
      ∧ (¬ w.heap.AcceptsPush id → ∃ e : Error,
        e.kind = (if (w.heap.get id).length = maxLength then .rangeError else .typeError)
          ∧ (push run id v).outcome w = (.error e, w)) := by
  refine ⟨fun accepts => ?_, outcome_push_refused run array inOrder noAccessor v⟩
  have room := accepts.room
  obtain ⟨after, hpush, hdefined, hlength, htable, hsame⟩ :=
    outcome_push_accepted run array inOrder noAccessor v accepts
  refine ⟨room, after, hpush, hdefined, hlength.length, hsame, ?_⟩
  have array' := Object.isArray_of_toClass array hdefined.toClass
  have hfound : (after.heap.get id).find? (.ofWord (w.heap.get id).length) = some (.data v .all) := by
    rw [Key.ofWord_of_lt room, Object.find?_index array']
    exact hdefined.element
  have hnearest : after.heap.property? id (.ofWord (w.heap.get id).length) = some (.data v .all) := by
    rw [Heap.property?_eq, hfound, Option.some_or]
  obtain ⟨restored, hpop, hshrunk, hrestored, hsame'⟩ :=
    outcome_pop_writable run array' hlength (by simp [hnearest]) (by simp [hfound, Property.isConfigurable,
      Property.attributes, Attributes.all])
  refine ⟨restored, ?_, ?_, hsame.trans hsame'⟩
  · rw [hpop, Heap.valueAt, hnearest]
    rfl
  · have hpresent : ((w.heap.get id).table.find? .length).isSome = true := by
      obtain ⟨v₀, hown⟩ := inOrder.own_eq
      rw [← Object.find?_length, hown]
      rfl
    rw [htable, PropertyTable.insert_insert _ _ hpresent] at hrestored
    exact Object.view_eq_iff.2
      (Object.alike_of_shrunk inOrder array accepts.writable rfl hdefined hshrunk hrestored)

/-- A value appended to an array of one element and removed again. -/
theorem push_pop_element :
    (elementWorld.heap.get ⟨0⟩).LengthInOrder ∧ elementWorld.heap.AcceptsPush ⟨0⟩
      ∧ ∃ after restored,
        (push (fun _ _ _ => pure .undefined) ⟨0⟩ .undefined).outcome elementWorld = (.ok 2, after)
          ∧ (pop (fun _ _ _ => pure .undefined) ⟨0⟩).outcome after = (.ok .undefined, restored)
          ∧ (restored.heap.get ⟨0⟩).view = (elementWorld.heap.get ⟨0⟩).view := by
  have hlength : (elementWorld.heap.get ⟨0⟩).HasLength 1 true := .arrayOf [.null]
  have hnothing : elementWorld.heap.inherited? ⟨0⟩ (.ofWord (elementWorld.heap.get ⟨0⟩).length) = none :=
    rfl
  have accepts : elementWorld.heap.AcceptsPush ⟨0⟩ := by
    refine ⟨?_, rfl, ?_, by simp [hnothing]⟩
    · rw [hlength.length]
      decide
    · rw [hlength.lengthState]
  obtain ⟨haccepted, -⟩ := push_pop (fun _ _ _ => pure .undefined) elementWorld ⟨0⟩ rfl hlength.inOrder
    (by simp [hnothing]) .undefined
  obtain ⟨-, after, hpush, -, -, -, restored, hpop, hview, -⟩ := haccepted accepts
  rw [hlength.length] at hpush
  rw [Object.withPlainLength, hlength.hasNegativeLength, if_neg Bool.false_ne_true] at hview
  exact ⟨hlength.inOrder, accepts, after, restored, hpush, hpop, hview⟩

/-- A value appended to an array whose length is negative zero and removed again leaves another length. -/
theorem push_pop_negative :
    (negativeWorld.heap.get ⟨0⟩).isArray = true
      ∧ (negativeWorld.heap.get ⟨0⟩).LengthInOrder
      ∧ (negativeWorld.heap.get ⟨0⟩).ancestors = []
      ∧ negativeWorld.heap.AcceptsPush ⟨0⟩
      ∧ (negativeWorld.heap.get ⟨0⟩).find? .length = some (.data (.number .negativeZero) .length)
      ∧ (((pop (fun _ _ _ => pure .undefined) ⟨0⟩).outcome
          ((push (fun _ _ _ => pure .undefined) ⟨0⟩ .null).outcome negativeWorld).2).2.heap.get
            ⟨0⟩).find? .length = some (.data (.ofNat 0) .length) := by
  have hnothing : negativeWorld.heap.inherited? ⟨0⟩ (.ofWord (negativeWorld.heap.get ⟨0⟩).length) = none :=
    rfl
  exact ⟨rfl, inOrder_negativeWorld, rfl,
    ⟨by decide +kernel, rfl, by decide +kernel, by simp [hnothing]⟩, by decide, by decide +kernel⟩

end Protocol

end ObjectModel
