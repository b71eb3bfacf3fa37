import ObjectModel.Proofs.Protocol.OrdinaryDefine

/-!
# Definitions of elements

ES5.1 15.4.5.1, step 4. An array whose length is read-only takes no element at or past the length. Any
other definition of an element is answered as an ordinary one, and if it is accepted the length is raised
to cover the element.

An array is then `ElementDefined`: it differs from the one that it was in that element and in the value of
its length. This says nothing of how the elements are represented, and holds whether or not the write
turns the storage sparse.
-/

namespace ObjectModel

open ObjectModel.Action

variable {σ : Type}

namespace Object

variable {o : Object} {i : Index} {d : Descriptor}

/-- The array has become another by the definition of an element. It has `p` at the index, and a length
that exceeds the index and is as writable as before. All else is as it was, the order of the properties
that are no elements included. -/
structure ElementDefined (o : Object) (i : Index) (p : Property) (o' : Object) : Prop where
  element : o'.element? i = some p
  length : o'.length = max o.length (i + 1)
  own : ∃ x a, o.find? .length = some (.data (.number x) a)
    ∧ o'.find? .length = some (.data (.number (if o.length ≤ i then .ofNat (i + 1) else x)) a)
  elements : ∀ j, j ≠ i.val → o'.element? j = o.element? j
  others : ∀ key, key.isLength = false → key.index? = none → o'.find? key = o.find? key
  order : o'.table.keys = o.table.keys
  toClass : o'.toClass = o.toClass
  ancestors : o'.ancestors = o.ancestors
  extensible : o'.extensible = o.extensible

/-- The length of an object is its own number as a 32-bit word. -/
theorem length_of_own {x : Number} {a : Attributes} (own : o.find? .length = some (.data (.number x) a)) :
    o.length = x.toUint32 := by
  rw [Object.length, lengthState, own]
  rfl

/-- An ordinary definition of an element that is accepted changes the storage at most, and there it
concerns one position. -/
theorem exists_of_accepted {e : Elements Property} {table : PropertyTable} {ancestors : List ObjectId}
    {extensible : Bool}
    (accepted : (ordinaryDefine ⟨.array e, table, ancestors, extensible⟩ (.index i) d).1 = .accepted) :
    ∃ e' p, (ordinaryDefine ⟨.array e, table, ancestors, extensible⟩ (.index i) d).2
        = ⟨.array e', table, ancestors, extensible⟩
      ∧ e'.read i = some p ∧ ∀ j, j ≠ i.val → e'.read j = e.read j := by
  rw [ordinaryDefine] at accepted ⊢
  cases hdecision : d.decide (find? ⟨.array e, table, ancestors, extensible⟩ (.index i)) extensible with
  | refuse fault =>
    rw [hdecision] at accepted
    cases accepted
  | keep =>
    obtain ⟨p, found⟩ := Descriptor.exists_of_keep hdecision
    exact ⟨e, p, rfl, found, fun _ _ => rfl⟩
  | store p =>
    refine ⟨e.write i p, p, rfl, ?_, fun j hj => ?_⟩
    · rw [Elements.read_write, if_pos rfl]
    · rw [Elements.read_write, if_neg hj.symm]

/-- An array with one position of its storage redefined, and its length raised if need be. -/
theorem elementDefined_raise {e e' : Elements Property} {table : PropertyTable}
    {ancestors : List ObjectId} {extensible : Bool} {p : Property} {x : Number} {a : Attributes}
    (own : find? ⟨.array e, table, ancestors, extensible⟩ .length = some (.data (.number x) a))
    (element : e'.read i = some p) (elements : ∀ j, j ≠ i.val → e'.read j = e.read j) :
    ElementDefined ⟨.array e, table, ancestors, extensible⟩ i p
      (if length ⟨.array e, table, ancestors, extensible⟩ ≤ i then
        setLength ⟨.array e', table, ancestors, extensible⟩ (i + 1)
      else ⟨.array e', table, ancestors, extensible⟩) := by
  have hown : find? ⟨.array e', table, ancestors, extensible⟩ .length = some (.data (.number x) a) := own
  have hlength := length_of_own own
  generalize hold : length ⟨.array e, table, ancestors, extensible⟩ = old at hlength ⊢
  by_cases past : old ≤ i
  · -- the length is stored where it was
    have hword : i.val + 1 < 2 ^ 32 := Nat.lt_of_le_of_lt i.isLt (by decide)
    have hpresent : Key.length ∈ table.keys :=
      (table.isSome_find? .length).1 (Option.isSome_of_mem own)
    rw [if_pos past, setLength_eq hown, store_length]
    have hraised : find? ⟨.array e', table.insert .length (.data (.ofNat (i + 1)) a), ancestors,
        extensible⟩ .length = some (.data (.number (.ofNat (i + 1))) a) := by
      rw [find?_length, PropertyTable.find?_insert, if_pos rfl]
      rfl
    refine ⟨element, ?_, ⟨x, a, own, ?_⟩, elements, fun key hkey hindex => ?_, ?_, rfl, rfl, rfl⟩
    · rw [length_of_own hraised, Number.toUint32_ofNat hword, hold]
      omega
    · rw [hold, if_pos past]
      exact hraised
    · have hother : key ≠ .length := fun heq => by rw [Key.isLength_iff.2 heq] at hkey; cases hkey
      cases key with
      | index j => cases hindex
      | name text notIndex => exact (PropertyTable.find?_insert ..).trans (if_neg hother.symm)
    · rw [PropertyTable.keys_insert, if_pos hpresent]
  · rw [if_neg past]
    refine ⟨element, ?_, ⟨x, a, own, ?_⟩, elements, fun key _ hindex => ?_, rfl, rfl, rfl, rfl⟩
    · rw [length_of_own hown, ← hlength, hold]
      omega
    · rw [hold, if_neg past]
      exact hown
    · cases key with
      | index j => cases hindex
      | name text notIndex => rfl

/-- At or past a length that is read-only the definition of an element is refused. -/
theorem defineIndex_of_frozen (frozen : o.length ≤ i ∧ o.lengthState.2 = false) :
    o.defineIndex i d = (.refused (.frozenLength o.length), o) := by
  rw [defineIndex]
  dsimp only
  rw [frozen.2, if_pos ⟨frozen.1, rfl⟩]
  rfl

/-- Any other definition of an element is an ordinary one. After it, the length is raised if need be. -/
theorem defineIndex_of_not_frozen (allowed : ¬ (o.length ≤ i ∧ o.lengthState.2 = false)) :
    o.defineIndex i d = match o.ordinaryDefine (.index i) d with
      | (.refused r, p) => (.refused r, p)
      | (.accepted, p) => (.accepted, if o.length ≤ i then p.setLength (i + 1) else p) := by
  have hallowed : ¬ (o.lengthState.1 ≤ i.val ∧ (!o.lengthState.2) = true) := by
    rwa [Bool.not_eq_true']
  rw [defineIndex]
  exact if_neg hallowed

/-- A definition of an element that is let pass is refused with the ordinary one and changes nothing, or
accepted with it and defines the element. -/
theorem defineIndex_cases (array : o.isArray = true) (inOrder : o.LengthInOrder)
    (allowed : ¬ (o.length ≤ i ∧ o.lengthState.2 = false)) :
    (∃ r, o.ordinaryDefine (.index i) d = (.refused r, o) ∧ o.defineIndex i d = (.refused r, o))
      ∨ ∃ p o₁ o', o.ordinaryDefine (.index i) d = (.accepted, o₁) ∧ o.defineIndex i d = (.accepted, o')
        ∧ o₁.element? i = some p ∧ o.ElementDefined i p o' := by
  rw [defineIndex_of_not_frozen allowed]
  obtain ⟨x, a, own, -⟩ := inOrder.own
  obtain ⟨e, table, ancestors, extensible, rfl⟩ := exists_of_isArray array
  cases hverdict : (ordinaryDefine ⟨.array e, table, ancestors, extensible⟩ (.index i) d).1 with
  | refused r =>
    rcases ordinaryDefine_cases ⟨.array e, table, ancestors, extensible⟩ (.index i) d with
      ⟨r, hr⟩ | hkeep | ⟨p, -, hstore⟩
    · rw [hr]
      exact .inl ⟨r, rfl, rfl⟩
    · rw [hkeep] at hverdict
      cases hverdict
    · rw [hstore] at hverdict
      cases hverdict
  | accepted =>
    obtain ⟨e', p, hdefined, helement, helements⟩ := exists_of_accepted hverdict
    have hordinary : ordinaryDefine ⟨.array e, table, ancestors, extensible⟩ (.index i) d
        = (.accepted, ⟨.array e', table, ancestors, extensible⟩) := Prod.ext hverdict hdefined
    rw [hordinary]
    exact .inr ⟨p, _, _, rfl, rfl, helement, elementDefined_raise own helement helements⟩

end Object

namespace Protocol

/-- The definition of an array's element, by any definition and at any index.

At or past a length that is read-only it is refused, and nothing changes. Otherwise it is answered as an
ordinary definition of the element would be. If the answer is not `true`, nothing changes. If it is, the
element is what the ordinary definition makes of it, the length is raised to cover it, and nothing else
changes: no other property of the array, no other object, and not the host. -/
theorem define_element (run : Callback σ) (w : World σ) (id : ObjectId)
    (array : (w.heap.get id).isArray = true) (inOrder : (w.heap.get id).LengthInOrder) (i : Index)
    (d : Descriptor) (strict : Bool) :
    ((w.heap.get id).length ≤ i ∧ (w.heap.get id).lengthState.2 = false →
        (define run id (.index i) d strict).outcome w
          = (if strict then .error (.refused (.frozenLength (w.heap.get id).length)) else .ok false, w))
      ∧ (¬ ((w.heap.get id).length ≤ i ∧ (w.heap.get id).lengthState.2 = false) →
        ((define run id (.index i) d strict).outcome w).1
            = ((ordinaryDefine id (.index i) d strict).outcome w).1
          ∧ (((define run id (.index i) d strict).outcome w).1 ≠ .ok true →
            ((define run id (.index i) d strict).outcome w).2 = w)
          ∧ (((define run id (.index i) d strict).outcome w).1 = .ok true → ∃ p,
            (((ordinaryDefine id (.index i) d strict).outcome w).2.heap.get id).element? i = some p
              ∧ (w.heap.get id).ElementDefined i p
                (((define run id (.index i) d strict).outcome w).2.heap.get id)
              ∧ (∀ other, other ≠ id → ((define run id (.index i) d strict).outcome w).2.heap.get other
                = w.heap.get other)
              ∧ ((define run id (.index i) d strict).outcome w).2.heap.objects.size
                = w.heap.objects.size
              ∧ ((define run id (.index i) d strict).outcome w).2.host = w.host)) := by
  have inHeap := Heap.has_of_isArray array
  have hdefine : (w.heap.get id).define (.index i) d = (w.heap.get id).defineIndex i d := by
    obtain ⟨e, table, ancestors, extensible, heq⟩ := Object.exists_of_isArray array
    rw [heq]
    rfl
  have houtcome : (define run id (.index i) d strict).outcome w
      = (((w.heap.get id).defineIndex i d).1.answer strict, w.edit id (.define (.index i) d)) := by
    rw [outcome_define run (converts_index ..), hdefine]
  have hordinary : (ordinaryDefine id (.index i) d strict).outcome w
      = (((w.heap.get id).ordinaryDefine (.index i) d).1.answer strict,
        w.edit id (.ordinaryDefine (.index i) d)) :=
    outcome_attempt strict id (·.ordinaryDefine (.index i) d) w
  have happly : (Edit.define (.index i) d).apply (w.heap.get id) = ((w.heap.get id).defineIndex i d).2 := by
    rw [Edit.apply, Edit.act, hdefine]
  rw [houtcome, hordinary]
  refine ⟨fun frozen => ?_, fun allowed => ?_⟩
  · have hrefused := Object.defineIndex_of_frozen (d := d) frozen
    rw [World.edit_of_same (by rw [happly, hrefused]), hrefused]
    rfl
  rcases Object.defineIndex_cases (d := d) array inOrder allowed with
    ⟨r, hr, hrefused⟩ | ⟨p, o₁, o', ho₁, ho', helement, hdefined⟩
  · rw [World.edit_of_same (by rw [happly, hrefused]), hr, hrefused]
    refine ⟨rfl, fun _ => rfl, fun haccepted => ?_⟩
    cases strict <;> cases haccepted
  · rw [ho₁, ho']
    refine ⟨rfl, fun hrefused => absurd rfl hrefused, fun _ => ⟨p, ?_, ?_, ?_, ?_, rfl⟩⟩
    · rw [World.edit, w.heap.get_edit id _ inHeap, if_pos rfl, Edit.apply, Edit.act, ho₁]
      exact helement
    · rw [World.edit, w.heap.get_edit id _ inHeap, if_pos rfl, happly, ho']
      exact hdefined
    · intro other hother
      rw [World.edit, w.heap.get_edit id _ inHeap, if_neg hother.symm]
    · exact w.heap.size_edit id _

/-- A position that is a long way past a single element. -/
def farIndex : Index := ⟨1000, by decide⟩

/-- The definition of an element a long way past the others turns the storage sparse. The element that was
there stays, and the length is raised to cover the new one. -/
theorem define_element_far :
    (elementWorld.heap.get ⟨0⟩).LengthInOrder
      ∧ ((define (fun _ _ _ => pure .undefined) ⟨0⟩ (.index farIndex) finalGetter true).outcome
          elementWorld).1 = .ok true
      ∧ (elementWorld.heap.get ⟨0⟩).ElementDefined farIndex
          (.accessor (some (.object ⟨0⟩)) none ⟨false, false, false⟩)
          (((define (fun _ _ _ => pure .undefined) ⟨0⟩ (.index farIndex) finalGetter true).outcome
            elementWorld).2.heap.get ⟨0⟩)
      ∧ (elementWorld.heap.get ⟨0⟩).elements?.map (·.isDense) = some true
      ∧ (((define (fun _ _ _ => pure .undefined) ⟨0⟩ (.index farIndex) finalGetter true).outcome
          elementWorld).2.heap.get ⟨0⟩).elements?.map (·.isDense) = some false := by
  have inOrder : (elementWorld.heap.get ⟨0⟩).LengthInOrder := (Object.HasLength.arrayOf [.null]).inOrder
  have hanswer : ((ordinaryDefine ⟨0⟩ (.index farIndex) finalGetter true).outcome elementWorld).1
      = .ok true := rfl
  have helement : (((ordinaryDefine ⟨0⟩ (.index farIndex) finalGetter true).outcome
      elementWorld).2.heap.get ⟨0⟩).element? farIndex
        = some (.accessor (some (.object ⟨0⟩)) none ⟨false, false, false⟩) := by decide
  obtain ⟨hordinary, -, haccepted⟩ := (define_element (fun _ _ _ => pure .undefined) elementWorld ⟨0⟩
    rfl inOrder farIndex finalGetter true).2 (by decide)
  rw [hanswer] at hordinary
  obtain ⟨p, hp, hdefined, -⟩ := haccepted hordinary
  obtain rfl := Option.some.inj (helement.symm.trans hp)
  exact ⟨inOrder, hordinary, hdefined, by decide, by decide⟩

end Protocol

end ObjectModel
