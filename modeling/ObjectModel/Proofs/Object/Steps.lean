import ObjectModel.Proofs.Object.ArrayLength
import ObjectModel.Proofs.Object.View
import Mathlib.Logic.Relation

/-!
# The steps of an edit

An edit comes about in steps, each of which the rules allow by itself: a definition of one property, a
writable value overwritten, a configurable property deleted, the end of extensions, or something that
nobody can see. `Edit.steps` takes every edit apart into such steps, the removal that asks nothing
excepted.

What holds of the steps one by one then holds of edits of all kinds. Two such laws are here. Objects stay
`Regular`, which is what the edits themselves rely on. And a property that is not configurable stays
where it is and is at most hardened (`Steps.hardens`).
-/

namespace ObjectModel

namespace Object

/-! ## Regular objects -/

/-- What all objects have in common: elements are at indices, no function is `undefined`, and an array
has a length of its own that is a value and cannot be deleted. -/
structure Regular (o : Object) : Prop where
  indices : ∀ i, (o.element? i).isSome = true → i < maxLength
  clean : ∀ key p, o.find? key = some p → p.Clean
  length : o.isArray = true → ∃ v a, o.find? .length = some (.data v a) ∧ a.configurable = false

end Object

namespace Descriptor

variable {d : Descriptor}

/-- A function that is asked for as `undefined` is left out. -/
private theorem applied_ne_undefined (asked stored : Option Value) :
    stored ≠ some .undefined →
      (match asked with
        | some f => if f.isUndefined then none else some f
        | none => stored) ≠ some .undefined := by
  intro hstored
  cases asked with
  | none => exact hstored
  | some f => cases f <;> simp [Value.isUndefined]

/-- Overwriting fields makes no function `undefined`. -/
theorem applyTo_clean {p : Property} (clean : p.Clean) : (d.applyTo p).Clean := by
  cases p with
  | data => trivial
  | accessor get set a =>
    exact ⟨applied_ne_undefined d.get get clean.1, applied_ne_undefined d.set set clean.2⟩

/-- Turning a property into one of the other kind makes no function `undefined`. -/
theorem convert_clean {p : Property} (clean : p.Clean) : (d.convert p).Clean := by
  cases p with
  | data =>
    rw [convert]
    split
    · exact ⟨by simp, by simp⟩
    · trivial
  | accessor =>
    rw [convert]
    split
    · trivial
    · exact clean

/-- A new property has no function that is `undefined`. -/
theorem toProperty_clean : d.toProperty.Clean := by
  rw [toProperty]
  split
  · constructor <;> simp [Option.filter_eq_some_iff, Value.isUndefined]
  · trivial

/-- What a definition stores is a new property, or the one that is there turned into the kind that is asked
for and overwritten. -/
theorem stored_of_decide {current : Option Property} {extensible : Bool} {p : Property}
    (h : d.decide current extensible = .store p) :
    current = none ∧ p = d.toProperty ∨ ∃ q, current = some q ∧ p = d.applyTo (d.convert q) := by
  cases current with
  | none =>
    rw [decide] at h
    split at h
    · cases h
      exact .inl ⟨rfl, rfl⟩
    · cases h
  | some q =>
    rw [decide] at h
    split at h
    · cases h
    · split at h
      · cases h
      · cases h
        exact .inr ⟨q, rfl, rfl⟩

/-- What a definition stores has no function that is `undefined`. -/
theorem clean_of_decide {current : Option Property} {extensible : Bool} {p : Property}
    (clean : ∀ q, current = some q → q.Clean) (h : d.decide current extensible = .store p) :
    p.Clean := by
  rcases stored_of_decide h with ⟨-, rfl⟩ | ⟨q, hq, rfl⟩
  · exact toProperty_clean
  · exact applyTo_clean (convert_clean (clean q hq))

end Descriptor

namespace Object

/-! ## Steps -/

/-- A change of an object that the rules allow by itself, or that nobody can see. -/
inductive Step : Object → Object → Prop
  | define {o : Object} {key : Key} {d : Descriptor} {p : Property}
      (decided : d.decide (o.find? key) o.extensible = .store p) : Step o (o.store key p)
  | overwrite {o : Object} {key : Key} {v : Value} {a : Attributes} (value : Value)
      (found : o.find? key = some (.data v a)) (writable : a.writable = true) :
    Step o (o.store key (.data value a))
  | delete {o : Object} {key : Key} {p : Property} (found : o.find? key = some p)
      (configurable : p.isConfigurable = true) : Step o (o.erase key)
  | preventExtensions (o : Object) : Step o o.preventExtensions
  | alike {o o' : Object} (same : o.Alike o') : Step o o'

/-- Steps one after the other. -/
abbrev Steps : Object → Object → Prop := Relation.ReflTransGen Step

variable {o o' : Object}

/-- Alike objects have the same elements. -/
theorem Alike.element? (h : o.Alike o') (i : Nat) : o.element? i = o'.element? i := by
  cases h with
  | refl => rfl
  | array same => exact same i

/-- No step changes the class of an object. -/
theorem Step.toClass (h : Step o o') : o'.toClass = o.toClass := by
  cases h with
  | define | overwrite => exact toClass_store ..
  | delete => exact toClass_erase ..
  | preventExtensions => rfl
  | alike same => exact same.toClass.symm

/-- A property that is not configurable stays, and a step at most hardens it. -/
theorem Step.hardens (h : Step o o') (regular : o.Regular) {key : Key} {p : Property}
    (found : o.find? key = some p) (fixed : p.isConfigurable = false) :
    ∃ q, o'.find? key = some q ∧ p.Hardens q := by
  cases h with
  | @define key' d q decided =>
    rw [find?_store]
    split
    · next hkey =>
      subst hkey
      rw [found] at decided
      have clean := regular.clean key' p found
      -- a definition that stores something was not refused, so it respects the property
      rcases Descriptor.decide_fixed (d := d) fixed o.extensible with ⟨fault, hfault⟩ | respects
      · rw [hfault] at decided
        cases decided
      · rcases respects.decide clean o.extensible with ⟨hkeep, -⟩ | hstore
        · rw [hkeep] at decided
          cases decided
        · rw [hstore] at decided
          cases decided
          exact ⟨_, rfl, respects.hardens fixed clean⟩
    · exact ⟨p, found, .refl fixed⟩
  | @overwrite key' v a value found' writable =>
    rw [find?_store]
    split
    · next hkey =>
      subst hkey
      rw [found] at found'
      cases found'
      exact ⟨_, rfl, .data fixed fixed rfl fun hreadOnly => by rw [writable] at hreadOnly; cases hreadOnly⟩
    · exact ⟨p, found, .refl fixed⟩
  | @delete key' q found' configurable =>
    have hkey : key' ≠ key := by
      rintro rfl
      rw [found] at found'
      cases found'
      rw [fixed] at configurable
      cases configurable
    rw [find?_erase, if_neg hkey]
    exact ⟨p, found, .refl fixed⟩
  | preventExtensions =>
    refine ⟨p, ?_, .refl fixed⟩
    obtain ⟨kind, table, ancestors, extensible⟩ := o
    exact found
  | alike same => exact ⟨p, (same.find? key).symm.trans found, .refl fixed⟩

/-- A step leaves an object regular. -/
theorem Step.regular (h : Step o o') (regular : o.Regular) : o'.Regular := by
  have hclass := h.toClass
  have hardens : ∀ key p, o.find? key = some p → p.isConfigurable = false →
      ∃ q, o'.find? key = some q ∧ p.Hardens q := fun _ _ => h.hardens regular
  refine ⟨?_, ?_, fun array => ?_⟩
  · intro i hi
    cases h with
    | define | overwrite =>
      rcases isSome_element?_store hi with hi | ⟨j, -, rfl⟩
      · exact regular.indices i hi
      · exact j.isLt
    | delete => exact regular.indices i (isSome_element?_erase hi)
    | preventExtensions => exact regular.indices i hi
    | alike same => exact regular.indices i (same.element? i ▸ hi)
  · intro key p found
    cases h with
    | @define key' d q decided =>
      rw [find?_store] at found
      split at found
      · cases found
        exact Descriptor.clean_of_decide (fun q hq => regular.clean key' q hq) decided
      · exact regular.clean key p found
    | overwrite =>
      rw [find?_store] at found
      split at found
      · cases found
        trivial
      · exact regular.clean key p found
    | delete =>
      rw [find?_erase] at found
      split at found
      · cases found
      · exact regular.clean key p found
    | preventExtensions =>
      refine regular.clean key p ?_
      obtain ⟨kind, table, ancestors, extensible⟩ := o
      exact found
    | alike same => exact regular.clean key p ((same.find? key).trans found)
  · -- the length is not configurable, so it is still there, and hardening makes it no accessor
    have harray : o.isArray = true := by rwa [Object.isArray, ← hclass]
    obtain ⟨v, a, found, fixed⟩ := regular.length harray
    obtain ⟨q, found', hardened⟩ := hardens .length _ found fixed
    cases hardened with
    | data _ stillFixed => exact ⟨_, _, found', stillFixed⟩

namespace Steps

/-- Steps leave an object regular. -/
theorem regular (h : Steps o o') (regular : o.Regular) : o'.Regular := by
  induction h with
  | refl => exact regular
  | tail _ step ih => exact step.regular ih

/-- A property that is not configurable stays, and steps at most harden it. -/
theorem hardens (h : Steps o o') (regular : o.Regular) {key : Key} {p : Property}
    (found : o.find? key = some p) (fixed : p.isConfigurable = false) :
    ∃ q, o'.find? key = some q ∧ p.Hardens q := by
  induction h with
  | refl => exact ⟨p, found, .refl fixed⟩
  | tail steps step ih =>
    obtain ⟨q, hq, hardened⟩ := ih
    obtain ⟨r, hr, hardened'⟩ := step.hardens (Steps.regular steps regular) hq hardened.isConfigurable
    exact ⟨r, hr, hardened.trans hardened'⟩

end Steps

/-! ## Edits in steps -/

/-- An ordinary definition is a step, or changes nothing. -/
theorem steps_ordinaryDefine (o : Object) (key : Key) (d : Descriptor) :
    Steps o (o.ordinaryDefine key d).2 := by
  rcases o.ordinaryDefine_cases key d with ⟨r, hr⟩ | hkeep | ⟨p, decided, hstore⟩
  · rw [hr]
  · rw [hkeep]
  · rw [hstore]
    exact .single (.define decided)

/-- The deletion of elements one after the other is made of steps. -/
theorem steps_deleteUntilFixed (positions : List Nat) (below : ∀ i ∈ positions, i < maxLength)
    (e : Elements Property) (table : PropertyTable) (ancestors : List ObjectId) (extensible : Bool) :
    Steps ⟨.array e, table, ancestors, extensible⟩
      ⟨.array (Elements.deleteUntilFixed (!·.isConfigurable) positions e).2, table, ancestors,
        extensible⟩ := by
  induction positions generalizing e with
  | nil => exact .refl
  | cons i rest ih =>
    have hnext := ih (fun j hj => below j (List.mem_cons_of_mem _ hj)) (e.delete i).2
    rw [Elements.deleteUntilFixed]
    split
    · exact .refl
    · next hfree =>
      refine .head ?_ hnext
      cases hread : e.read i with
      | none =>
        -- nothing was there, so nobody can see that it was deleted
        refine .alike (.array (fun j => ?_) ..)
        rw [Elements.read_delete]
        split
        · next hij => rw [← hij, hread]
        · rfl
      | some p =>
        have hconfigurable : p.isConfigurable = true := by
          rw [hread] at hfree
          simpa using hfree
        have hi : i < maxLength := below i List.mem_cons_self
        have found : find? ⟨.array e, table, ancestors, extensible⟩ (.index ⟨i, hi⟩) = some p := hread
        exact .delete found hconfigurable

/-- A truncation of positions that are indices is made of steps. -/
theorem steps_truncate (o : Object) (first : Nat) {bound : Nat} (le : bound ≤ maxLength) :
    Steps o (o.truncate first bound).2 := by
  obtain ⟨kind, table, ancestors, extensible⟩ := o
  cases kind with
  | ordinary | function => exact .refl
  | array e =>
    refine steps_deleteUntilFixed _ (fun i hi => ?_) e table ancestors extensible
    exact Nat.lt_of_lt_of_le (Elements.mem_range_of_mem_removalOrder hi).2 le

/-- The definition of a length is made of steps. -/
theorem steps_defineLength (o : Object) (n : Nat) (d : Descriptor) :
    Steps o (o.defineLength n d).2 := by
  refine defineLength_induction (motive := Steps o) n d .refl ?define ?truncate
  case define =>
    intro p e hp
    exact hp.trans (steps_ordinaryDefine ..)
  case truncate =>
    intro p hp
    exact hp.trans (steps_truncate p n o.lengthState_le)

/-- The definition of an element is made of steps. A length that is raised is a writable one. -/
theorem steps_defineIndex (regular : o.Regular) (array : o.isArray = true) (i : Index)
    (d : Descriptor) : Steps o (o.defineIndex i d).2 := by
  obtain ⟨v, a, hown, -⟩ := regular.length array
  have hwritable : o.lengthState.2 = a.writable := by rw [lengthState, hown]
  simp only [defineIndex]
  split
  · exact .refl
  · next hallowed =>
    have hdefined := steps_ordinaryDefine o (.index i) d
    have hlength : (o.ordinaryDefine (.index i) d).2.find? .length = some (.data v a) := by
      rw [find?_ordinaryDefine_of_ne o (by simp [Key.length]) d, hown]
    generalize o.ordinaryDefine (.index i) d = defined at hdefined hlength ⊢
    obtain ⟨_ | _, p⟩ := defined
    · dsimp only at hlength ⊢
      split
      · next hraise =>
        -- the index is at or past the length, and was let pass because the length is writable
        rw [setLength_eq hlength]
        refine hdefined.tail (.overwrite _ hlength ?_)
        rw [hwritable] at hallowed
        simpa [hraise] using hallowed
      · exact hdefined
    · exact hdefined

end Object

/-- Every edit but a removal that asks nothing is made of steps. -/
theorem Edit.steps (e : Edit) {o : Object} (regular : o.Regular) (asks : ∀ key, e ≠ .erase key) :
    o.Steps (e.apply o) := by
  cases e with
  | define key d =>
    obtain ⟨kind, table, ancestors, extensible⟩ := o
    cases kind with
    | ordinary | function => exact Object.steps_ordinaryDefine ..
    | array elements =>
      cases key with
      | index i => exact Object.steps_defineIndex regular rfl i d
      | name => exact Object.steps_ordinaryDefine ..
  | defineLength n d => exact Object.steps_defineLength ..
  | ordinaryDefine key d => exact Object.steps_ordinaryDefine ..
  | delete key =>
    rw [apply, act, Object.delete]
    split
    · exact .refl
    · next p found =>
      split
      · next configurable => exact .single (.delete found configurable)
      · exact .refl
  | erase key => exact absurd rfl (asks key)
  | preventExtensions => exact .single (.preventExtensions o)
  | overwrite value key =>
    rw [apply, act, Protocol.overwrite]
    split
    · next v a found =>
      split
      · next writable => exact .single (.overwrite value found writable)
      · exact .refl
    · exact .refl
  | overwriteElement value i =>
    rw [apply, act, Protocol.overwriteElement]
    split
    · next v a found =>
      split
      · next writable =>
        -- the position is that of an element, so its word names an index
        have hi : i < maxLength := regular.indices i (Option.isSome_of_mem found)
        rw [Key.ofWord_of_lt hi]
        have array : o.isArray = true := by
          obtain ⟨kind, table, ancestors, extensible⟩ := o
          cases kind with
          | array => rfl
          | ordinary | function => cases found
        exact .single (.overwrite value ((Object.find?_index array ⟨i, hi⟩).trans found) writable)
      · exact .refl
    · exact .refl

/-! ## New objects -/

namespace Object.Regular

/-- An object without properties is regular. -/
theorem ordinary (ancestors : List ObjectId) : (Object.ordinary ancestors).Regular where
  indices _ hi := by cases hi
  clean _ _ found := by cases found
  length array := by cases array

/-- A function object is regular. -/
theorem function : Object.function.Regular where
  indices _ hi := by cases hi
  clean _ _ found := by cases found
  length array := by cases array

/-- An object with a length of its own that covers the elements is regular if no function among its
properties is `undefined`. -/
theorem of_hasLength {o : Object} {n : Nat} {w : Bool} (h : o.HasLength n w)
    (clean : ∀ key p, o.find? key = some p → p.Clean) : o.Regular where
  indices i hi := Nat.lt_of_lt_of_le (h.covers i hi) h.le_maxLength
  clean := clean
  length _ := ⟨_, _, h.own, rfl⟩

/-- An empty array is regular. -/
theorem array (ancestors : List ObjectId) (capacity : Nat) (limits : Limits) :
    (Object.array ancestors capacity limits).Regular := by
  refine .of_hasLength (.array ancestors capacity limits) fun key p found => ?_
  cases key with
  | index i =>
    have hread : (Elements.withLimits capacity limits).read i = some p := found
    rw [Elements.read_withLimits] at hread
    cases hread
  | name text notIndex =>
    have hfind : (PropertyTable.empty.insert .length (.data (.ofNat 0) .length)).find?
        (.name text notIndex) = some p := found
    rw [PropertyTable.find?_insert] at hfind
    split at hfind
    · cases hfind
      trivial
    · cases hfind

/-- Values written one after the other are stored as values. -/
theorem clean_of_read_foldl (values : List Value) (start : Nat) (e : Elements Property) {i : Nat}
    {p : Property} (clean : ∀ p, e.read i = some p → p.Clean)
    (h : ((values.zipIdx start).foldl (fun e (v, j) => e.write j (.data v .all)) e).read i = some p) :
    p.Clean := by
  induction values generalizing start e with
  | nil => exact clean p h
  | cons v rest ih =>
    rw [List.zipIdx_cons, List.foldl_cons] at h
    refine ih _ _ (fun q hq => ?_) h
    rw [Elements.read_write] at hq
    split at hq
    · cases hq
      trivial
    · exact clean q hq

/-- An array of values is regular. -/
theorem arrayOf (values : List Value) : (Object.arrayOf values).Regular := by
  refine .of_hasLength (.arrayOf values) fun key p found => ?_
  have hown : ∀ elements, ({ Object.array [] 0 {} with kind := .array elements } : Object).find? .length
      = some (.data (.ofNat 0) .length) := fun _ => (HasLength.array [] 0 {}).own
  rw [Object.arrayOf] at found
  dsimp only at found
  rw [setLength_eq (hown _), find?_store] at found
  split at found
  · cases found
    trivial
  · cases key with
    | index i =>
      refine clean_of_read_foldl _ 0 _ (fun q hq => ?_) found
      rw [Elements.withCapacity, Elements.read_withLimits] at hq
      cases hq
    | name text notIndex => exact (array [] 0 {}).clean (.name text notIndex) p found

/-- Every new object is regular. -/
theorem of_fresh {o : Object} (fresh : o.Fresh) : o.Regular := by
  cases fresh with
  | ordinary ancestors => exact ordinary ancestors
  | array ancestors capacity limits => exact array ancestors capacity limits
  | arrayOf values => exact arrayOf values
  | function => exact function

/-- A property taken away without asking leaves an object regular, unless it is the length of an
array. -/
theorem erase {o : Object} (regular : o.Regular) {key : Key}
    (kept : o.isArray = true → key ≠ .length) : (o.erase key).Regular := by
  refine ⟨fun i hi => regular.indices i (isSome_element?_erase hi), fun other p found => ?_,
    fun array => ?_⟩
  · rw [find?_erase] at found
    split at found
    · cases found
    · exact regular.clean other p found
  · have harray : o.isArray = true := by rwa [isArray, toClass_erase] at array
    rw [find?_erase, if_neg (kept harray)]
    exact regular.length harray

end Object.Regular

end ObjectModel
