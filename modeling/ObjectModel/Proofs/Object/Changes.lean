import ObjectModel.Proofs.Object.Listing

/-!
# What edits come down to

Whatever is done to an object, asked or not, it comes down to four changes: a property that a definition
decided on is stored, a value is stored, a property is taken away, or extensions end. `Edit.changes` says
so of every edit and for every object, also for one whose `length` has been tampered with; and new objects
are made by such changes from a `Blank` one (`Fresh.changes`).

What the four changes keep therefore holds of all objects there are. Two such laws are here. Every property
is where it belongs. And every property is `Canonical`: an accessor has no function that is `undefined`,
and its `writable`, which has no meaning, is off.
-/

namespace ObjectModel

/-! ## Canonical properties -/

/-- The property has one form only: a function that is missing is left out, and an accessor is not
writable. -/
structure Property.Canonical (p : Property) : Prop where
  clean : p.Clean
  unwritable : p.isAccessor = true → p.attributes.writable = false

/-- Every value is canonical. -/
theorem Property.Canonical.data (v : Value) (a : Attributes) : (Property.data v a).Canonical where
  clean := trivial
  unwritable := nofun

namespace Descriptor

variable {d : Descriptor} {p : Property}

/-- A new property is canonical. -/
theorem toProperty_canonical : d.toProperty.Canonical := by
  refine ⟨toProperty_clean, fun accessor => ?_⟩
  rw [toProperty] at accessor ⊢
  split
  · rfl
  · next hdata =>
    rw [if_neg hdata] at accessor
    cases accessor

/-- A canonical property turned into one of the other kind is canonical. -/
theorem convert_canonical (canonical : p.Canonical) : (d.convert p).Canonical := by
  refine ⟨convert_clean canonical.clean, fun accessor => ?_⟩
  cases p with
  | data v a =>
    rw [convert] at accessor ⊢
    split
    · rfl
    · next hdata =>
      rw [if_neg hdata] at accessor
      cases accessor
  | accessor get set a =>
    rw [convert] at accessor ⊢
    split
    · rfl
    · exact canonical.unwritable rfl

/-- Overwriting fields leaves a canonical property canonical. -/
theorem applyTo_canonical (canonical : p.Canonical) : (d.applyTo p).Canonical := by
  refine ⟨applyTo_clean canonical.clean, fun accessor => ?_⟩
  cases p with
  | data v a => cases accessor
  | accessor get set a => exact canonical.unwritable rfl

/-- What a definition stores is canonical. -/
theorem canonical_of_decide {current : Option Property} {extensible : Bool}
    (canonical : ∀ q, current = some q → q.Canonical) (h : d.decide current extensible = .store p) :
    p.Canonical := by
  rcases stored_of_decide h with ⟨-, rfl⟩ | ⟨q, hq, rfl⟩
  · exact toProperty_canonical
  · exact applyTo_canonical (convert_canonical (canonical q hq))

end Descriptor

namespace Object

variable {o o' : Object}

/-! ## Changes -/

/-- A change of an object, whether the rules allow it or not. -/
inductive Change : Object → Object → Prop
  /-- A property that a definition decided on is stored. -/
  | define {o : Object} {key : Key} {d : Descriptor} {p : Property}
      (decided : d.decide (o.find? key) o.extensible = .store p) : Change o (o.store key p)
  /-- A value is stored. -/
  | value (o : Object) (key : Key) (v : Value) (a : Attributes) : Change o (o.store key (.data v a))
  /-- A property is taken away. -/
  | erase (o : Object) (key : Key) : Change o (o.erase key)
  /-- Extensions end. -/
  | preventExtensions (o : Object) : Change o o.preventExtensions

/-- Changes one after the other. -/
abbrev Changes : Object → Object → Prop := Relation.ReflTransGen Change

/-- What every change keeps is kept by changes one after the other. -/
theorem Changes.preserve {P : Object → Prop} (keep : ∀ {o o'}, Change o o' → P o → P o')
    (h : o.Changes o') (hold : P o) : P o' := by
  induction h with
  | refl => exact hold
  | tail _ change ih => exact keep change ih

/-- What an edit can make of an object. Only the definitions of an element and of a length are more than
one change. -/
inductive Edited (o : Object) : Object → Prop
  | same : Edited o o
  | change {o' : Object} (change : Change o o') : Edited o o'
  | element (array : o.isArray = true) (i : Index) (d : Descriptor) : Edited o (o.defineIndex i d).2
  | length (n : Nat) (d : Descriptor) : Edited o (o.defineLength n d).2

/-- An ordinary definition changes nothing, or is one change. -/
theorem change_ordinaryDefine (o : Object) (key : Key) (d : Descriptor) :
    (o.ordinaryDefine key d).2 = o ∨ Change o (o.ordinaryDefine key d).2 := by
  rcases o.ordinaryDefine_cases key d with ⟨r, hr⟩ | hkeep | ⟨p, decided, hstore⟩
  · exact .inl (congrArg Prod.snd hr)
  · exact .inl (congrArg Prod.snd hkeep)
  · rw [hstore]
    exact .inr (.define decided)

/-- An ordinary definition makes of an object what an edit can. -/
theorem edited_ordinaryDefine (o : Object) (key : Key) (d : Descriptor) :
    o.Edited (o.ordinaryDefine key d).2 := by
  rcases o.change_ordinaryDefine key d with hsame | change
  · rw [hsame]
    exact .same
  · exact .change change

end Object

/-- An edit makes of an object what an edit can. -/
theorem Edit.edited (e : Edit) (o : Object) : o.Edited (e.apply o) := by
  cases e with
  | define key d =>
    obtain ⟨kind, table, ancestors, extensible⟩ := o
    cases kind with
    | ordinary | function => exact Object.edited_ordinaryDefine ..
    | array elements =>
      cases key with
      | index i => exact .element rfl i d
      | name => exact Object.edited_ordinaryDefine ..
  | defineLength n d => exact .length n d
  | ordinaryDefine key d => exact Object.edited_ordinaryDefine ..
  | delete key =>
    rw [apply, act, Object.delete]
    split
    · exact .same
    · split
      · exact .change (.erase o key)
      · exact .same
  | erase key => exact .change (.erase o key)
  | preventExtensions => exact .change (.preventExtensions o)
  | overwrite value key =>
    rw [apply, act, Protocol.overwrite]
    split
    · split
      · exact .change (.value o key value _)
      · exact .same
    · exact .same
  | overwriteElement value i =>
    rw [apply, act, Protocol.overwriteElement]
    split
    · split
      · exact .change (.value o (.ofWord i) value _)
      · exact .same
    · exact .same

namespace Object

variable {o o' : Object}

/-- An ordinary definition is made of changes. -/
theorem changes_ordinaryDefine (o : Object) (key : Key) (d : Descriptor) :
    o.Changes (o.ordinaryDefine key d).2 := by
  rcases o.change_ordinaryDefine key d with hsame | change
  · rw [hsame]
  · exact .single change

/-- The deletion of elements one after the other is made of changes. -/
theorem changes_deleteUntilFixed (positions : List Nat) (below : ∀ i ∈ positions, i < maxLength)
    (e : Elements Property) (table : PropertyTable) (ancestors : List ObjectId) (extensible : Bool) :
    Changes ⟨.array e, table, ancestors, extensible⟩
      ⟨.array (Elements.deleteUntilFixed (!·.isConfigurable) positions e).2, table, ancestors,
        extensible⟩ := by
  induction positions generalizing e with
  | nil => exact .refl
  | cons i rest ih =>
    have hnext := ih (fun j hj => below j (List.mem_cons_of_mem _ hj)) (e.delete i).2
    rw [Elements.deleteUntilFixed]
    split
    · exact .refl
    · exact .head (.erase ⟨.array e, table, ancestors, extensible⟩
        (.index ⟨i, below i List.mem_cons_self⟩)) hnext

/-- A truncation of positions that are indices is made of changes. -/
theorem changes_truncate (o : Object) (first : Nat) {bound : Nat} (le : bound ≤ maxLength) :
    o.Changes (o.truncate first bound).2 := by
  obtain ⟨kind, table, ancestors, extensible⟩ := o
  cases kind with
  | ordinary | function => exact .refl
  | array e =>
    refine changes_deleteUntilFixed _ (fun i hi => ?_) e table ancestors extensible
    exact Nat.lt_of_lt_of_le (Elements.mem_range_of_mem_removalOrder hi).2 le

/-- Overwriting the length is a change. -/
theorem change_setLength (o : Object) (n : Nat) : Change o (o.setLength n) := .value o .length _ _

/-- The definition of a length is made of changes. -/
theorem changes_defineLength (o : Object) (n : Nat) (d : Descriptor) :
    o.Changes (o.defineLength n d).2 := by
  refine defineLength_induction (motive := o.Changes) n d .refl ?define ?truncate
  case define =>
    intro p e hp
    exact hp.trans (changes_ordinaryDefine ..)
  case truncate =>
    intro p hp
    exact hp.trans (changes_truncate p n o.lengthState_le)

/-- The definition of an element is made of changes. -/
theorem changes_defineIndex (o : Object) (i : Index) (d : Descriptor) :
    o.Changes (o.defineIndex i d).2 := by
  simp only [defineIndex]
  split
  · exact .refl
  · have hdefined := changes_ordinaryDefine o (.index i) d
    generalize o.ordinaryDefine (.index i) d = defined at hdefined ⊢
    obtain ⟨_ | _, p⟩ := defined
    · dsimp only
      split
      · exact hdefined.tail (change_setLength p _)
      · exact hdefined
    · exact hdefined

/-- Whatever an edit makes of an object is made by changes. -/
theorem Edited.changes (edited : o.Edited o') : o.Changes o' := by
  cases edited with
  | same => exact .refl
  | change change => exact .single change
  | element _ i d => exact o.changes_defineIndex i d
  | length n d => exact o.changes_defineLength n d

end Object

/-- Every edit of every object is made of changes. -/
theorem Edit.changes (e : Edit) (o : Object) : o.Changes (e.apply o) := (e.edited o).changes

namespace Object

variable {o o' : Object}

/-! ## New objects -/

/-- An object without properties. -/
structure Blank (o : Object) : Prop where
  table : o.table = .empty
  elements : ∀ i, o.element? i = none

/-- An array with the given storage and nothing in its table. -/
def blankArray (ancestors : List ObjectId) (elements : Elements Property) : Object where
  kind := .array elements
  ancestors := ancestors

/-- An array with an empty storage and nothing in its table has no properties. -/
theorem Blank.blankArray (ancestors : List ObjectId) (capacity : Nat) (limits : Limits) :
    (blankArray ancestors (.withLimits capacity limits)).Blank where
  table := rfl
  elements i := Elements.read_withLimits capacity limits i

/-- A new array is made by giving one without properties its length. -/
theorem change_array (ancestors : List ObjectId) (capacity : Nat) (limits : Limits) :
    Change (blankArray ancestors (.withLimits capacity limits)) (array ancestors capacity limits) :=
  .value _ .length (.ofNat 0) .length

/-- Values are written one after the other by changes. -/
theorem changes_fill (values : List Value) {start : Nat} (le : start + values.length ≤ maxLength)
    (e : Elements Property) (table : PropertyTable) (ancestors : List ObjectId) (extensible : Bool) :
    Changes ⟨.array e, table, ancestors, extensible⟩
      ⟨.array ((values.zipIdx start).foldl (fun e (v, j) => e.write j (.data v .all)) e), table,
        ancestors, extensible⟩ := by
  induction values generalizing start e with
  | nil => exact .refl
  | cons v rest ih =>
    rw [List.length_cons] at le
    rw [List.zipIdx_cons, List.foldl_cons]
    refine .head (.value ⟨.array e, table, ancestors, extensible⟩ (.index ⟨start, by omega⟩) v .all) ?_
    exact ih (by omega) _

/-- An array of values is made by writing them to one without properties. -/
theorem changes_arrayOf (values : List Value) :
    Changes (blankArray [] (.withCapacity (values.take maxLength).length)) (arrayOf values) := by
  have hle : 0 + (values.take maxLength).length ≤ maxLength := by
    rw [Nat.zero_add]
    exact List.length_take_le _ _
  rw [arrayOf]
  refine .tail ?_ (change_setLength _ _)
  exact .head (.value _ .length (.ofNat 0) .length) (changes_fill _ hle _ _ _ _)

/-- Every new object is made by changes from one without properties. -/
theorem Fresh.changes (fresh : o.Fresh) : ∃ b : Object, b.Blank ∧ b.Changes o := by
  cases fresh with
  | ordinary | function => exact ⟨_, ⟨rfl, fun _ => rfl⟩, .refl⟩
  | array ancestors capacity limits =>
    exact ⟨_, .blankArray ancestors capacity limits, .single (change_array ancestors capacity limits)⟩
  | arrayOf values => exact ⟨_, .blankArray [] _ {}, changes_arrayOf values⟩

/-! ## Laws of element storages -/

/-- The element storage, if the object has one, is of a kind. -/
def StorageIs (P : Elements Property → Prop) (o : Object) : Prop := ∀ e, o.elements? = some e → P e

section

variable {P : Elements Property → Prop} (write : ∀ e i p, P e → P (e.write i p))
  (delete : ∀ e i, P e → P (e.delete i).2)

include write in
/-- What a write keeps is kept by storing a property. -/
theorem StorageIs.store (h : o.StorageIs P) (key : Key) (p : Property) : (o.store key p).StorageIs P := by
  obtain ⟨kind, table, ancestors, extensible⟩ := o
  cases kind with
  | ordinary | function => exact nofun
  | array e =>
    cases key with
    | name => exact h
    | index i =>
      rintro _ ⟨⟩
      exact write e i p (h e rfl)

include delete in
/-- What a deletion keeps is kept by taking a property away. -/
theorem StorageIs.erase (h : o.StorageIs P) (key : Key) : (o.erase key).StorageIs P := by
  obtain ⟨kind, table, ancestors, extensible⟩ := o
  cases kind with
  | ordinary | function => exact nofun
  | array e =>
    cases key with
    | name => exact h
    | index i =>
      rintro _ ⟨⟩
      exact delete e i (h e rfl)

include write delete in
/-- What writes and deletions keep is kept by a change. -/
theorem Change.storageIs (change : Change o o') (h : o.StorageIs P) : o'.StorageIs P := by
  cases change with
  | define | value => exact h.store write _ _
  | erase => exact h.erase delete _
  | preventExtensions => exact h

include write delete in
/-- A new object has a storage of a kind if the storages that arrays are made with are of it. -/
theorem Fresh.storageIs (new : ∀ capacity limits, P (.withLimits capacity limits)) (fresh : o.Fresh) :
    o.StorageIs P := by
  have hblank : ∀ ancestors capacity limits,
      (blankArray ancestors (.withLimits capacity limits)).StorageIs P := by
    rintro ancestors capacity limits _ ⟨⟩
    exact new capacity limits
  cases fresh with
  | ordinary | function => exact nofun
  | array ancestors capacity limits =>
    exact (change_array ancestors capacity limits).storageIs write delete (hblank ancestors capacity limits)
  | arrayOf values =>
    exact (changes_arrayOf values).preserve (Change.storageIs write delete) (hblank [] _ {})

end

/-! ## Laws of all objects -/

/-- An object without properties finds none. -/
theorem Blank.find? (blank : o.Blank) (key : Key) : o.find? key = none := by
  obtain ⟨kind, table, ancestors, extensible⟩ := o
  obtain ⟨rfl : table = .empty, helements⟩ := blank
  cases kind with
  | ordinary | function => rfl
  | array e =>
    cases key with
    | index i => exact helements i
    | name => rfl

/-- Every property is where it belongs, and canonical. -/
structure WellFormed (o : Object) : Prop extends o.Placed where
  canonical : ∀ key p, o.find? key = some p → p.Canonical

/-- An object without properties is well-formed. -/
theorem Blank.wellFormed (blank : o.Blank) : o.WellFormed where
  indices i hi := by
    rw [blank.elements i] at hi
    cases hi
  table _ i := by
    rw [blank.table]
    rfl
  canonical key p found := by
    rw [blank.find? key] at found
    cases found

/-- A canonical property stored leaves an object well-formed. -/
theorem WellFormed.store (h : o.WellFormed) (key : Key) {p : Property} (canonical : p.Canonical) :
    (o.store key p).WellFormed where
  indices i hi := by
    rcases isSome_element?_store hi with hi | ⟨j, -, rfl⟩
    · exact h.indices i hi
    · exact j.isLt
  table array i := by
    have harray : o.isArray = true := by rwa [isArray, toClass_store] at array
    rw [find?_table_store harray, h.table harray]
  canonical other q found := by
    rw [find?_store] at found
    split at found
    · cases found
      exact canonical
    · exact h.canonical other q found

/-- A property taken away leaves an object well-formed. -/
theorem WellFormed.erase (h : o.WellFormed) (key : Key) : (o.erase key).WellFormed where
  indices i hi := h.indices i (isSome_element?_erase hi)
  table array i := by
    have harray : o.isArray = true := by rwa [isArray, toClass_erase] at array
    rw [find?_table_erase harray, h.table harray]
  canonical other q found := by
    rw [find?_erase] at found
    split at found
    · cases found
    · exact h.canonical other q found

/-- A change leaves an object well-formed. -/
theorem Change.wellFormed (change : Change o o') (h : o.WellFormed) : o'.WellFormed := by
  cases change with
  | @define key d p decided =>
    exact h.store key (Descriptor.canonical_of_decide (fun q hq => h.canonical key q hq) decided)
  | value key v a => exact h.store key (.data v a)
  | erase key => exact h.erase key
  | preventExtensions =>
    refine ⟨⟨h.indices, h.table⟩, fun key p found => h.canonical key p ?_⟩
    obtain ⟨kind, table, ancestors, extensible⟩ := o
    exact found

/-- Every new object is well-formed. -/
theorem Fresh.wellFormed (fresh : o.Fresh) : o.WellFormed := by
  obtain ⟨b, blank, changes⟩ := fresh.changes
  exact changes.preserve Change.wellFormed blank.wellFormed

end Object

/-- Every edit leaves an object well-formed. -/
theorem Edit.wellFormed (e : Edit) {o : Object} (h : o.WellFormed) : (e.apply o).WellFormed :=
  (e.changes o).preserve Object.Change.wellFormed h

end ObjectModel
