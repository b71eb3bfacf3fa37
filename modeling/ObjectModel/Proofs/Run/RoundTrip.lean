import ObjectModel.Proofs.Protocol.Appending
import ObjectModel.Proofs.Protocol.Repetition
import ObjectModel.Proofs.Run.IndexedRead

/-!
# Stored properties as definitions

`Descriptor.ofProperty` asks for a property as it is stored. Where that property is, the definition asks for
nothing new, so it is accepted and changes nothing, even if the object allows no change at all. Where there
is no property, it makes the same property again (`Host.define_stored`). Getters and setters that are missing
are asked for as `undefined` on the way, and writability, which means nothing for an accessor, is not asked
for; since stored properties are canonical, nothing is lost by it.

The length of an array is the one property that is converted before it is compared. A length of negative zero
is not what it is asked for: it becomes zero, or is refused if it is read-only.
-/

namespace ObjectModel

open ObjectModel.Action

variable {σ τ α : Type}

namespace Descriptor

variable {p : Property}

/-- A property has every field with which it is asked for. -/
theorem isSatisfiedBy_ofProperty (p : Property) : (ofProperty p).isSatisfiedBy p = true := by
  cases p with
  | data v a => simp [ofProperty, data, isSatisfiedBy, isAccessor, Property.attributes, Value.same]
  | accessor get set a =>
    have hfunction : ∀ f : Option Value, sameFunction (f.getD .undefined) f = true := by
      rintro (_ | f)
      · rfl
      · exact Value.same_iff.2 rfl
    simp [ofProperty, isSatisfiedBy, isData, Property.attributes, hfunction]

/-- A definition that asks for a property as it is stored keeps it. -/
theorem decide_ofProperty (p : Property) (extensible : Bool) :
    (ofProperty p).decide (some p) extensible = .keep := by
  rw [decide, isSatisfiedBy_ofProperty, Bool.or_true, if_pos rfl]

/-- A definition that asks for a canonical property makes that property where there is none. -/
theorem toProperty_ofProperty (canonical : p.Canonical) : (ofProperty p).toProperty = p := by
  cases p with
  | data v a => rfl
  | accessor get set a =>
    have hfunction : ∀ f : Option Value, f ≠ some .undefined →
        (some (f.getD .undefined)).filter (!·.isUndefined) = f := by
      rintro (_ | f) hf
      · rfl
      · cases f with
        | undefined => exact absurd rfl hf
        | null | boolean _ | number _ | string _ | object _ => rfl
    have hwritable : a.writable = false := canonical.unwritable rfl
    rw [ofProperty, toProperty, isAccessor]
    simp only [Option.isSome_some, Bool.or_true, if_true, Option.getD_some,
      hfunction get canonical.clean.1, hfunction set canonical.clean.2, ← hwritable]

end Descriptor

namespace Object

variable {o : Object} {key : Key} {p : Property}

/-- The definition of a property as it is stored is accepted and changes nothing. -/
theorem define_ofProperty (inOrder : o.isArray = true → o.LengthInOrder) (stored : o.find? key = some p) :
    o.define key (.ofProperty p) = (.accepted, o) := by
  have hbelow : o.isArray = true → ∀ i, key = .index i → i.val < o.lengthState.1 := by
    rintro array i rfl
    exact (inOrder array).lt_of_find? array stored
  rw [define_eq_ordinaryDefine o key _ hbelow, ordinaryDefine, stored, Descriptor.decide_ofProperty]

/-- The definition of a length as it is stored, from where its value has been converted, is accepted and
makes the length plain, unless the length is negative zero and read-only. -/
theorem defineLength_ofProperty (inOrder : o.LengthInOrder) (stored : o.find? .length = some p) :
    o.defineLength o.length (.ofProperty p)
      = if o.hasNegativeLength && !o.lengthState.2 then (.refused (.readOnlyDefinition .length), o)
        else (.accepted, o.withPlainLength) := by
  rw [defineLength_of_le (Nat.le_refl _)]
  rcases inOrder.hasLength_or_negative with hlength | ⟨hzero, hown⟩
  · -- the number is the one that is stored
    obtain rfl := Option.some.inj (stored.symm.trans hlength.own)
    have hasked : ({ Descriptor.ofProperty (.data (.ofNat o.length) ⟨o.lengthState.2, false, false⟩) with
        value := some (.ofNat o.length) } : Descriptor)
        = .ofProperty (.data (.ofNat o.length) ⟨o.lengthState.2, false, false⟩) := rfl
    rw [hasked, ordinaryDefine, hlength.own, Descriptor.decide_ofProperty, withPlainLength,
      hlength.hasNegativeLength]
    rfl
  · obtain rfl := Option.some.inj (stored.symm.trans hown)
    have hnegative : o.hasNegativeLength = true := by
      rw [hasNegativeLength, hown]
      rfl
    rw [withPlainLength, hnegative, setLength_eq hown, hzero]
    cases hwritable : o.lengthState.2 with
    | true =>
      rw [hwritable] at hown
      have hfits : ({ Descriptor.ofProperty (.data (.number .negativeZero) ⟨true, false, false⟩) with
          value := some (.ofNat 0) } : Descriptor).FitsLength := ⟨rfl, rfl, by decide, by decide⟩
      rw [ordinaryDefine_of_respects hown (hfits.respects _)]
      rfl
    | false =>
      rw [hwritable] at hown
      have hrefused : ({ Descriptor.ofProperty (.data (.number .negativeZero) ⟨false, false, false⟩) with
          value := some (.ofNat 0) } : Descriptor).decide
            (some (.data (.number .negativeZero) ⟨false, false, false⟩)) o.extensible
          = .refuse .readOnly := by
        cases o.extensible <;> decide
      rw [ordinaryDefine, hown, hrefused]
      rfl

/-- Where there is no property, and one may be added, the definition of a property makes it. On an array this
holds of every key but that of the length, and of an index only below the length unless the length is
writable. -/
theorem define_absent_key {d : Descriptor} (absent : o.find? key = none) (extensible : o.extensible = true)
    (room : o.isArray = true → ∀ i : Index, key = .index i → i.val < o.length ∨ o.lengthState.2 = true) :
    (o.define key d).1 = .accepted ∧ (o.define key d).2.find? key = some d.toProperty := by
  have hordinary : o.ordinaryDefine key d = (.accepted, o.store key d.toProperty) := by
    rw [ordinaryDefine, absent, extensible]
    rfl
  by_cases hraised : o.isArray = true ∧ ∃ i : Index, key = .index i ∧ o.length ≤ i
  · obtain ⟨array, i, rfl, hpast⟩ := hraised
    have hwritable := (room array i rfl).resolve_left (Nat.not_lt_of_le hpast)
    rw [define_index array, defineIndex_of_not_frozen (by simp [hwritable]), hordinary]
    dsimp only
    rw [if_pos hpast, setLength, find?_store, if_neg (by simp [Key.length]), find?_store, if_pos rfl]
    exact ⟨rfl, rfl⟩
  · rw [define_eq_ordinaryDefine o key d fun array i hi => ?_, hordinary]
    · exact ⟨rfl, by rw [find?_store, if_pos rfl]⟩
    · by_contra hlt
      exact hraised ⟨array, i, hi, Nat.le_of_not_lt hlt⟩

end Object

namespace Protocol

variable {w : World σ} {id : ObjectId} {key : Key} {d : Descriptor} {p : Property}

/-- Nothing but the length of an array is converted. -/
theorem converts_eq_none (other : (w.heap.get id).isArray = true → key ≠ .length) :
    converts w.heap id key d = none := by
  rw [converts, if_neg]
  rw [Bool.and_eq_true, Key.isLength_iff]
  exact fun hlength => other hlength.1 hlength.2

/-- The definition of a length in order as it is stored is that of a length. -/
theorem outcome_define_ofProperty_length (run : Callback σ) (array : (w.heap.get id).isArray = true)
    (inOrder : (w.heap.get id).LengthInOrder) (stored : (w.heap.get id).find? .length = some p)
    (strict : Bool) :
    (define run id .length (.ofProperty p) strict).outcome w
      = (((w.heap.get id).defineLength (w.heap.get id).length (.ofProperty p)).1.answer strict,
          w.edit id (.defineLength (w.heap.get id).length (.ofProperty p))) := by
  obtain ⟨x, a, hown, -, -, hinteger⟩ := inOrder.own
  obtain rfl := Option.some.inj (stored.symm.trans hown)
  exact outcome_define_length run array rfl hinteger inOrder.lt strict

/-- The definition of a property as it is stored is answered by `true` and changes nothing, unless it is of an
array's length that is negative zero. -/
theorem outcome_define_ofProperty (run : Callback σ)
    (inOrder : (w.heap.get id).isArray = true → (w.heap.get id).LengthInOrder)
    (stored : (w.heap.get id).find? key = some p)
    (plain : (w.heap.get id).isArray = true → key = .length → (w.heap.get id).hasNegativeLength = false)
    (strict : Bool) : (define run id key (.ofProperty p) strict).outcome w = (.ok true, w) := by
  by_cases hlength : (w.heap.get id).isArray = true ∧ key = .length
  · obtain ⟨array, rfl⟩ := hlength
    have hdefine := Object.defineLength_ofProperty (inOrder array) stored
    rw [Object.withPlainLength, plain array rfl, Bool.false_and, if_neg Bool.false_ne_true,
      if_neg Bool.false_ne_true] at hdefine
    have hsame : w.edit id (.defineLength (w.heap.get id).length (.ofProperty p)) = w :=
      World.edit_of_same (congrArg Prod.snd hdefine)
    rw [outcome_define_ofProperty_length run array (inOrder array) stored, hdefine, hsame]
    rfl
  · have hdefine := Object.define_ofProperty inOrder stored
    have hsame : w.edit id (.define key (.ofProperty p)) = w :=
      World.edit_of_same (congrArg Prod.snd hdefine)
    rw [outcome_define run (converts_eq_none fun array hkey => hlength ⟨array, hkey⟩), hdefine, hsame]
    rfl

end Protocol

/-- Whenever a run lets anyone see the objects, a property may be defined as it is stored. On the object that
has it, the answer is `true` and nothing changes, even if nothing may change. There is one exception: an
array's length of negative zero becomes zero, or stays if it is read-only, and then the definition is refused.
Under any key without a property, of any object that takes new ones, the answer is `true` and the property
is there, the same in all fields. For an array the key must not be that of the length, and an index must be
below the length unless the length is writable. -/
theorem Host.define_stored (host : Host σ) (depth : Nat) (r : Routine σ α) (s : σ) {h : Heap}
    (visited : host.Visits depth r ⟨{}, s⟩ h) {id : ObjectId} {key : Key} {p : Property}
    (inOrder : (h.get id).isArray = true → (h.get id).LengthInOrder)
    (stored : (h.get id).find? key = some p) (run : Callback τ) (strict : Bool) :
    (∀ s' : τ, ((h.get id).isArray = true → key = .length → (h.get id).hasNegativeLength = false) →
        ((Operation.define id key (.ofProperty p) strict).perform run).outcome ⟨h, s'⟩
          = (.ok true, ⟨h, s'⟩))
      ∧ (∀ s' : τ, (h.get id).isArray = true → key = .length → (h.get id).hasNegativeLength = true →
        ((h.get id).lengthState.2 = true → ∃ after,
          ((Operation.define id key (.ofProperty p) strict).perform run).outcome ⟨h, s'⟩ = (.ok true, after)
            ∧ after.heap.get id = (h.get id).withPlainLength
            ∧ World.SameOutside ⟨h, s'⟩ after id)
        ∧ ((h.get id).lengthState.2 = false → ∃ e : Error, e.kind = .typeError
          ∧ ((Operation.define id key (.ofProperty p) strict).perform run).outcome ⟨h, s'⟩
            = (if strict then .error e else .ok false, ⟨h, s'⟩)))
      ∧ ∀ (w : World τ) (target : ObjectId) (other : Key), w.heap.Has target →
        (w.heap.get target).find? other = none → (w.heap.get target).extensible = true →
        ((w.heap.get target).isArray = true → other ≠ .length ∧ ∀ i : Index, other = .index i →
          i.val < (w.heap.get target).length ∨ (w.heap.get target).lengthState.2 = true) →
        ∃ after, ((Operation.define target other (.ofProperty p) strict).perform run).outcome w
            = (.ok true, after)
          ∧ (after.heap.get target).find? other = some p := by
  have canonical : p.Canonical := (visited.wellFormed id).canonical key p stored
  refine ⟨fun s' plain => ?_, fun s' array hkey negative => ?_,
    fun w target other inHeap absent extensible fits => ?_⟩
  · exact Protocol.outcome_define_ofProperty run (w := ⟨h, s'⟩) inOrder stored plain strict
  · subst hkey
    have hdefine := Object.defineLength_ofProperty (inOrder array) stored
    have houtcome := Protocol.outcome_define_ofProperty_length run (w := ⟨h, s'⟩) array (inOrder array)
      stored strict
    have inHeap : h.Has id := Heap.has_of_isArray array
    rw [negative, Bool.true_and] at hdefine
    constructor
    · intro writable
      rw [writable, Bool.not_true, if_neg Bool.false_ne_true] at hdefine
      dsimp only at houtcome
      rw [hdefine] at houtcome
      refine ⟨_, houtcome, ?_, .edit inHeap _⟩
      exact (World.get_edit (w := ⟨h, s'⟩) inHeap _).trans (congrArg Prod.snd hdefine)
    · intro readOnly
      rw [readOnly, Bool.not_false, if_pos rfl] at hdefine
      have hsame : World.edit (⟨h, s'⟩ : World τ) id (.defineLength (h.get id).length (.ofProperty p))
          = ⟨h, s'⟩ := World.edit_of_same (congrArg Prod.snd hdefine)
      dsimp only at houtcome
      rw [hdefine, hsame] at houtcome
      exact ⟨_, rfl, houtcome⟩
  · obtain ⟨haccepted, hstored⟩ := Object.define_absent_key (d := .ofProperty p) absent extensible
      fun array => (fits array).2
    have houtcome := Protocol.outcome_define run
      (Protocol.converts_eq_none (d := .ofProperty p) fun array => (fits array).1) strict
    rw [haccepted] at houtcome
    refine ⟨_, houtcome, ?_⟩
    rw [World.get_edit inHeap]
    exact hstored.trans (congrArg some (Descriptor.toProperty_ofProperty canonical))

/-- A getter that may not be redefined is defined once more, and then on an array that has nothing under the
index. -/
theorem Host.define_stored_getter :
    let h := (idle.run 1 inheriting ⟨{}, ()⟩).2.heap
    idle.Visits 1 inheriting ⟨{}, ()⟩ h
      ∧ (h.get ⟨1⟩).find? (.ofWord 0) = some (.accessor (some (.object ⟨0⟩)) none .none)
      ∧ ((Operation.define ⟨1⟩ (.ofWord 0) (.ofProperty (.accessor (some (.object ⟨0⟩)) none .none)) true).perform
          (idle.call 1)).outcome ⟨h, ()⟩ = (.ok true, ⟨h, ()⟩)
      ∧ ∃ after, ((Operation.define ⟨2⟩ (.ofWord 0)
          (.ofProperty (.accessor (some (.object ⟨0⟩)) none .none)) true).perform (idle.call 1)).outcome ⟨h, ()⟩
            = (.ok true, after)
        ∧ (after.heap.get ⟨2⟩).find? (.ofWord 0) = some (.accessor (some (.object ⟨0⟩)) none .none) := by
  intro h
  have visited : idle.Visits 1 inheriting ⟨{}, ()⟩ h := .inl rfl
  have plain : (h.get ⟨1⟩).isArray = false := by decide +kernel
  have stored : (h.get ⟨1⟩).find? (.ofWord 0) = some (.accessor (some (.object ⟨0⟩)) none .none) := by
    decide +kernel
  obtain ⟨hsame, -, hmade⟩ := define_stored idle 1 inheriting () visited (by simp [plain]) stored
    (idle.call 1) true
  refine ⟨visited, stored, hsame () (by simp [plain]), ?_⟩
  have array : (h.get ⟨2⟩).isArray = true := rfl
  refine hmade ⟨h, ()⟩ ⟨2⟩ (.ofWord 0) (Heap.has_of_isArray array) (by decide +kernel) rfl
    fun _ => ⟨by decide, fun _ _ => .inr ?_⟩
  decide +kernel

/-- Makes an array whose length is negative zero, and read-only. -/
def Host.negating : Routine Unit (Except Error Bool) :=
  .perform (.newArray none 0 {}) fun _ =>
    .perform (.ordinaryDefine ⟨0⟩ .length
      { value := some (.number .negativeZero), writable := some false } true) .finish

/-- The definition of such a length as it is stored is refused. -/
theorem Host.define_stored_negative :
    let h := (idle.run 1 negating ⟨{}, ()⟩).2.heap
    idle.Visits 1 negating ⟨{}, ()⟩ h
      ∧ (h.get ⟨0⟩).isArray = true
      ∧ (h.get ⟨0⟩).LengthInOrder
      ∧ (h.get ⟨0⟩).find? .length = some (.data (.number .negativeZero) .none)
      ∧ (((Operation.define ⟨0⟩ .length (.ofProperty (.data (.number .negativeZero) .none)) false).perform
          (idle.call 1)).outcome ⟨h, ()⟩).1 = .ok false := by
  intro h
  have hown : (h.get ⟨0⟩).find? .length = some (.data (.number .negativeZero) .none) := by decide +kernel
  have hrefused : ((Protocol.define (idle.call 1) ⟨0⟩ .length
      (.ofProperty (.data (.number .negativeZero) .none)) false).outcome ⟨h, ()⟩).1 = .ok false := by
    decide +kernel
  exact ⟨.inl rfl, rfl, .of_negative hown (Elements.read_withLimits 0 {}), hown, hrefused⟩

end ObjectModel
