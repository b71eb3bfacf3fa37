import ObjectModel.Proofs.Protocol.ElementDefinition
import ObjectModel.Proofs.Protocol.LengthValidation

/-!
# Definitions made twice

A definition that was accepted asks for nothing more: made again at once, it is accepted and changes
nothing, whatever it was and whatever was there before. The one exception is a definition that names
fields of both kinds. It turns a property of either kind into one of the other, so it is never satisfied,
and a second time it is refused or turns the property back.

What an accepted definition can leave behind is `Descriptor.Yields`. Both halves are facts about such
properties; the rest is to see that every way to define a property ends in one.
-/

namespace ObjectModel

open ObjectModel.Action

variable {σ : Type}

namespace Descriptor

variable {d : Descriptor} {p q : Property} {current : Option Property} {extensible : Bool}

/-- The property may be left behind by the definition: it was stored, or it was there and is kept. -/
def Yields (d : Descriptor) (p : Property) : Prop :=
  (∃ current extensible, d.decide current extensible = .store p)
    ∨ ∃ extensible, d.decide (some p) extensible = .keep

/-! ## Definitions of one kind -/

/-- A value that is overwritten has the fields that were named. -/
theorem isSatisfiedBy_applyTo_data (h : d.isAccessor = false) (v : Value) (a : Attributes) :
    d.isSatisfiedBy (d.applyTo (.data v a)) = true := by
  obtain ⟨value, writable, get, set, enumerable, configurable⟩ := d
  simp only [isSatisfiedBy, applyTo, Property.attributes, h]
  cases value <;> cases writable <;> cases enumerable <;> cases configurable <;> simp [Value.same]

/-- A function that is stored as asked for, or left out if it is `undefined`, is the one asked for. -/
theorem sameFunction_stored (f : Value) :
    sameFunction f (if f.isUndefined then none else some f) = true := by
  cases f <;> simp [sameFunction, Value.isUndefined, Value.same]

/-- An accessor that is overwritten has the fields that were named. -/
theorem isSatisfiedBy_applyTo_accessor (h : d.isData = false) (get set : Option Value) (a : Attributes) :
    d.isSatisfiedBy (d.applyTo (.accessor get set a)) = true := by
  obtain ⟨value, writable, get', set', enumerable, configurable⟩ := d
  simp only [isSatisfiedBy, applyTo, Property.attributes, h]
  cases get' <;> cases set' <;> cases enumerable <;> cases configurable <;> simp [sameFunction_stored]

/-- Whatever it was before, a property that is turned into one of the definition's kind and overwritten has
the fields that were named. -/
theorem isSatisfiedBy_applyTo_convert (unmixed : ¬ d.IsMixed) (p : Property) :
    d.isSatisfiedBy (d.applyTo (d.convert p)) = true := by
  cases p with
  | data v a =>
    rcases kinds unmixed with haccessor | ⟨haccessor, hdata⟩
    · rw [convert_data_self haccessor]
      exact isSatisfiedBy_applyTo_data haccessor v a
    · rw [convert_data haccessor]
      exact isSatisfiedBy_applyTo_accessor hdata ..
  | accessor get set a =>
    cases hdata : d.isData with
    | true =>
      have haccessor : d.isAccessor = false := Bool.eq_false_iff.2 fun h => unmixed ⟨hdata, h⟩
      rw [convert_accessor hdata]
      exact isSatisfiedBy_applyTo_data haccessor ..
    | false =>
      rw [convert_accessor_self hdata]
      exact isSatisfiedBy_applyTo_accessor hdata ..

/-- A new property has the fields that were named. -/
theorem isSatisfiedBy_toProperty (unmixed : ¬ d.IsMixed) : d.isSatisfiedBy d.toProperty = true := by
  rw [toProperty_eq_applyTo]
  rcases kinds unmixed with haccessor | ⟨haccessor, hdata⟩
  · rw [haccessor, if_neg Bool.false_ne_true]
    exact isSatisfiedBy_applyTo_data haccessor ..
  · rw [haccessor, if_pos rfl]
    exact isSatisfiedBy_applyTo_accessor hdata ..

/-- What a definition stores is a new property or one that was there, turned into one of the definition's
kind and overwritten. -/
theorem eq_of_store (stored : d.decide current extensible = .store p) :
    current = none ∧ p = d.toProperty ∨ ∃ q, current = some q ∧ p = d.applyTo (d.convert q) := by
  cases current with
  | none =>
    rw [decide] at stored
    cases extensible with
    | false => cases stored
    | true => exact .inl ⟨rfl, (Decision.store.inj stored).symm⟩
  | some q =>
    rw [decide] at stored
    split at stored
    · cases stored
    · cases hconflict : d.conflict q with
      | some fault => rw [hconflict] at stored; cases stored
      | none =>
        rw [hconflict] at stored
        exact .inr ⟨q, rfl, (Decision.store.inj stored).symm⟩

/-- A definition of one kind is satisfied by what it leaves behind. -/
theorem Yields.decide_eq_keep (yields : d.Yields p) (unmixed : ¬ d.IsMixed) (extensible : Bool) :
    d.decide (some p) extensible = .keep := by
  have hkeep : (d.isEmpty || d.isSatisfiedBy p) = true := by
    rcases yields with ⟨current, extensible', stored⟩ | ⟨extensible', kept⟩
    · rw [Bool.or_eq_true_iff]
      rcases eq_of_store stored with ⟨-, rfl⟩ | ⟨q, -, rfl⟩
      · exact .inr (isSatisfiedBy_toProperty unmixed)
      · exact .inr (isSatisfiedBy_applyTo_convert unmixed q)
    · by_contra hchange
      rw [decide, if_neg hchange] at kept
      split at kept <;> cases kept
  rw [decide, if_pos hkeep]

/-! ## Definitions of both kinds -/

/-- A definition of both kinds is satisfied by no property. -/
theorem IsMixed.decide_ne_keep (mixed : d.IsMixed) (p : Property) (extensible : Bool) :
    d.decide (some p) extensible ≠ .keep := by
  have hchange : (d.isEmpty || d.isSatisfiedBy p) = false := by
    rw [isEmpty, isGeneric, isSatisfiedBy.eq_def, mixed.1, mixed.2]
    cases p <;> simp
  rw [decide, hchange, if_neg Bool.false_ne_true]
  split <;> simp

/-- A definition of both kinds stores a property of the other kind. -/
theorem IsMixed.ne_of_store (mixed : d.IsMixed) (stored : d.decide (some p) extensible = .store q) :
    q ≠ p := by
  rcases eq_of_store stored with ⟨hnone, -⟩ | ⟨p', hp', rfl⟩
  · cases hnone
  · cases hp'
    cases p with
    | data v a => rw [convert_data mixed.2]; nofun
    | accessor get set a => rw [convert_accessor mixed.1]; nofun

/-- A definition that fits a length names no function. -/
theorem FitsLength.isAccessor (fits : d.FitsLength) : d.isAccessor = false := by
  rw [Descriptor.isAccessor, fits.get, fits.set]
  rfl

end Descriptor

namespace Object

variable {o : Object} {key : Key} {d : Descriptor} {p : Property} {n : Nat}

/-- An ordinary definition that is accepted leaves behind a property that it yields. -/
theorem yields_of_accepted (accepted : (o.ordinaryDefine key d).1 = .accepted) :
    ∃ p, (o.ordinaryDefine key d).2.find? key = some p ∧ d.Yields p := by
  rw [ordinaryDefine] at accepted ⊢
  cases hdecision : d.decide (o.find? key) o.extensible with
  | refuse fault =>
    rw [hdecision] at accepted
    cases accepted
  | keep =>
    obtain ⟨p, found⟩ := Descriptor.exists_of_keep hdecision
    exact ⟨p, found, .inr ⟨o.extensible, found ▸ hdecision⟩⟩
  | store p => exact ⟨p, by rw [find?_store, if_pos rfl], .inl ⟨_, _, hdecision⟩⟩

/-- Where a property is that a definition yields, the ordinary definition is accepted without a change
exactly if it is not of both kinds. -/
theorem ordinaryDefine_eq_self_iff (found : o.find? key = some p) (yields : d.Yields p) :
    o.ordinaryDefine key d = (.accepted, o) ↔ ¬ d.IsMixed := by
  rw [ordinaryDefine, found]
  constructor
  · intro hsame mixed
    cases hdecision : d.decide (some p) o.extensible with
    | refuse fault => rw [hdecision] at hsame; cases hsame
    | keep => exact mixed.decide_ne_keep p o.extensible hdecision
    | store q =>
      rw [hdecision] at hsame
      have hq : (o.store key q).find? key = some p := (congrArg (·.2.find? key) hsame).trans found
      rw [find?_store, if_pos rfl] at hq
      exact mixed.ne_of_store hdecision (Option.some.inj hq)
  · intro unmixed
    rw [yields.decide_eq_keep unmixed]

/-- A definition that is accepted leaves behind a property that it yields. From then on it is an ordinary
definition, on an array too: the length covers the element. -/
theorem define_yields (inOrder : o.isArray = true → o.LengthInOrder)
    (accepted : (o.define key d).1 = .accepted) :
    ∃ p, (o.define key d).2.find? key = some p ∧ d.Yields p
      ∧ (o.define key d).2.define key d = (o.define key d).2.ordinaryDefine key d := by
  have hordinary : o.define key d = o.ordinaryDefine key d → (∀ i, key ≠ .index i) ∨ o.isArray = false →
      ∃ p, (o.define key d).2.find? key = some p ∧ d.Yields p
        ∧ (o.define key d).2.define key d = (o.define key d).2.ordinaryDefine key d := by
    intro heq hplain
    rw [heq] at accepted ⊢
    obtain ⟨p, found, yields⟩ := yields_of_accepted accepted
    refine ⟨p, found, yields, define_eq_ordinaryDefine _ _ _ fun array i hi => ?_⟩
    rw [isArray, toClass_ordinaryDefine] at array
    rcases hplain with hkey | hclass
    · exact absurd hi (hkey i)
    · exact absurd array (Bool.eq_false_iff.1 hclass)
  rcases Bool.eq_false_or_eq_true o.isArray with array | plain
  · cases key with
    | name text notIndex =>
      exact hordinary (define_eq_ordinaryDefine _ _ _ fun _ i hi => by cases hi) (.inl fun _ h => by cases h)
    | index i =>
      have hdefine : o.define (.index i) d = o.defineIndex i d := by
        obtain ⟨elements, table, ancestors, extensible, rfl⟩ := exists_of_isArray array
        rfl
      rw [hdefine] at accepted ⊢
      by_cases frozen : o.length ≤ i ∧ o.lengthState.2 = false
      · rw [defineIndex_of_frozen frozen] at accepted
        cases accepted
      rcases defineIndex_cases array (inOrder array) (d := d) frozen with
        ⟨r, -, hrefused⟩ | ⟨p, o₁, o', hordinary, hdefined, helement, hframe⟩
      · rw [hrefused] at accepted
        cases accepted
      have array₁ : o₁.isArray = true := by
        have hclass := o.toClass_ordinaryDefine (.index i) d
        rw [hordinary] at hclass
        rwa [isArray, hclass]
      have array' : o'.isArray = true := by rwa [isArray, hframe.toClass]
      have haccepted : (o.ordinaryDefine (.index i) d).1 = .accepted := by rw [hordinary]
      obtain ⟨q, hq, yields⟩ := yields_of_accepted haccepted
      rw [hordinary, find?_index array₁, helement] at hq
      cases hq
      rw [hdefined]
      refine ⟨p, ?_, yields, define_eq_ordinaryDefine _ _ _ fun _ j hj => ?_⟩
      · rw [find?_index array', hframe.element]
      · cases hj
        have hlength : o'.lengthState.1 = max o.length (i + 1) := hframe.length
        show i.val < o'.lengthState.1
        omega
  · exact hordinary (define_eq_ordinaryDefine _ _ _ fun array => by rw [plain] at array; cases array)
      (.inr plain)

/-- A definition that fits a length is satisfied by the length that it stores. -/
theorem isSatisfiedBy_of_fitsLength (fits : d.FitsLength) (v : Value) (w : Bool) :
    ({ d with value := some v } : Descriptor).isSatisfiedBy (.data v ⟨d.writable.getD w, false, false⟩)
      = true := by
  obtain ⟨value, writable, get, set, enumerable, configurable⟩ := d
  obtain ⟨hget, hset, henumerable, hconfigurable⟩ := fits
  dsimp only at hget hset henumerable hconfigurable
  subst hget hset
  have hflag : ∀ b : Option Bool, b ≠ some true → b.all (· == false) = true := by
    rintro (_ | _ | _) hb
    · rfl
    · rfl
    · exact absurd rfl hb
  simp only [Descriptor.isSatisfiedBy, Property.attributes, hflag _ henumerable, hflag _ hconfigurable]
  cases writable <;> simp [Descriptor.isAccessor, Value.same]

/-- The definition of a length that was accepted is accepted again, and changes nothing. -/
theorem defineLength_again (inOrder : o.LengthInOrder) (word : n < 2 ^ 32)
    (accepted : (o.defineLength n d).1 = .accepted) :
    (o.defineLength n d).2.defineLength n d = (.accepted, (o.defineLength n d).2) := by
  obtain ⟨fits, hown⟩ := inOrder.of_accepted accepted
  have hlength := (holdsLength_of_own word hown).length
  have hsatisfied := isSatisfiedBy_of_fitsLength fits (.ofNat n) o.lengthState.2
  rw [defineLength_of_le (Nat.le_of_eq hlength), ordinaryDefine, hown, Descriptor.decide, hsatisfied,
    Bool.or_true, if_pos rfl]

end Object

/-- A world is left as it is by an edit exactly if the object is. -/
theorem World.edit_eq_self_iff {w : World σ} {id : ObjectId} (inHeap : w.heap.Has id) (e : Edit) :
    w.edit id e = w ↔ e.apply (w.heap.get id) = w.heap.get id := by
  constructor
  · intro hsame
    rw [← World.get_edit inHeap]
    exact congrArg (·.heap.get id) hsame
  · exact World.edit_of_same

namespace Protocol

variable {w : World σ} {id : ObjectId} {key : Key} {d : Descriptor}

/-- A definition that converts nothing is answered by `true` and changes nothing exactly if it does so on
the object. -/
theorem outcome_define_eq_self_iff (run : Callback σ) (inHeap : w.heap.Has id)
    (plain : converts w.heap id key d = none) (strict : Bool) :
    (define run id key d strict).outcome w = (.ok true, w)
      ↔ (w.heap.get id).define key d = (.accepted, w.heap.get id) := by
  rw [outcome_define run plain, Prod.ext_iff, Prod.ext_iff, World.edit_eq_self_iff inHeap]
  refine and_congr ⟨Verdict.accepted_of_answer, fun haccepted => ?_⟩ Iff.rfl
  rw [show ((w.heap.get id).define key d).1 = .accepted from haccepted]
  rfl

/-- An edit leaves it open to the key and the definition alone whether something is converted. -/
theorem converts_edit (w : World σ) (id : ObjectId) (e : Edit) (key : Key) (d : Descriptor) :
    converts (w.edit id e).heap id key d = converts w.heap id key d := by
  have hclass : ((w.edit id e).heap.get id).isArray = (w.heap.get id).isArray :=
    congrArg (· == .array) (w.heap.classOf_edit id e id)
  rw [converts, hclass, converts]

/-- A value is converted only on an array. -/
theorem isArray_of_converts {h : Heap} {value : Value} (converting : converts h id key d = some value) :
    (h.get id).isArray = true := by
  rw [converts, Option.ite_none_right_eq_some, Bool.and_eq_true] at converting
  exact converting.1.1

/-- A definition that converts nothing and is answered by `true` is answered so again and changes nothing
exactly if it is not of both kinds. -/
theorem define_again_of_plain (run : Callback σ) (inHeap : w.heap.Has id)
    (inOrder : (w.heap.get id).isArray = true → (w.heap.get id).LengthInOrder)
    (plain : converts w.heap id key d = none) {strict : Bool}
    (accepted : ((define run id key d strict).outcome w).1 = .ok true) :
    (define run id key d strict).outcome ((define run id key d strict).outcome w).2
        = (.ok true, ((define run id key d strict).outcome w).2)
      ↔ ¬ d.IsMixed := by
  rw [outcome_define run plain] at accepted ⊢
  have inHeap' := World.has_edit inHeap (.define key d)
  have hplain := (converts_edit w id (.define key d) key d).trans plain
  have hget : (w.edit id (.define key d)).heap.get id = ((w.heap.get id).define key d).2 :=
    World.get_edit inHeap _
  obtain ⟨p, found, yields, hordinary⟩ := Object.define_yields inOrder (Verdict.accepted_of_answer accepted)
  rw [outcome_define_eq_self_iff run inHeap' hplain, hget, hordinary,
    Object.ordinaryDefine_eq_self_iff found yields]

/-- A definition of an array's length with a primitive value that is answered by `true` is not of both
kinds. It is answered so again and changes nothing. -/
theorem define_again_of_converts (run : Callback σ) (inOrder : (w.heap.get id).LengthInOrder)
    {value : Value} (converting : converts w.heap id key d = some value)
    (primitive : value.isPrimitive = true) {strict : Bool}
    (accepted : ((define run id key d strict).outcome w).1 = .ok true) :
    (define run id key d strict).outcome ((define run id key d strict).outcome w).2
        = (.ok true, ((define run id key d strict).outcome w).2)
      ∧ ¬ d.IsMixed := by
  have inHeap : w.heap.Has id := Heap.has_of_isArray (isArray_of_converts converting)
  obtain rfl := eq_length_of_converts converting
  rw [outcome_define_primitive run converting primitive] at accepted ⊢
  obtain ⟨n, valid⟩ : ∃ n, value.primitiveNumber.IsWord n := by
    by_contra invalid
    rw [afterConversion_of_not_word invalid] at accepted
    cases accepted
  rw [afterConversion_of_word valid] at accepted ⊢
  have haccepted := Verdict.accepted_of_answer accepted
  have hagain := Object.defineLength_again inOrder valid.1 haccepted
  have hconverting := (converts_edit w id (.defineLength n d) .length d).trans converting
  have hget : (w.edit id (.defineLength n d)).heap.get id = ((w.heap.get id).defineLength n d).2 :=
    World.get_edit inHeap _
  have hsame : (w.edit id (.defineLength n d)).edit id (.defineLength n d) = w.edit id (.defineLength n d) :=
    World.edit_of_same (by rw [hget, Edit.apply, Edit.act, hagain])
  constructor
  · rw [outcome_define_primitive run hconverting primitive, afterConversion_of_word valid, hget, hagain,
      hsame]
    rfl
  · intro mixed
    obtain ⟨fits, -⟩ := inOrder.of_accepted haccepted
    exact Bool.false_ne_true (fits.isAccessor.symm.trans mixed.2)

/-- A definition that is answered by `true` is answered so again and leaves the world exactly as it is, the
representation of elements included, unless it names fields of both kinds. A definition of both kinds is
refused the second time, or changes the property again. -/
theorem define_again (run : Callback σ) (w : World σ) (id : ObjectId) (inHeap : w.heap.Has id) (key : Key)
    (d : Descriptor) (inOrder : (w.heap.get id).isArray = true → (w.heap.get id).LengthInOrder)
    (primitive : ∀ value, converts w.heap id key d = some value → value.isPrimitive = true)
    (strict : Bool) (accepted : ((define run id key d strict).outcome w).1 = .ok true) :
    (define run id key d strict).outcome ((define run id key d strict).outcome w).2
        = (.ok true, ((define run id key d strict).outcome w).2)
      ↔ ¬ d.IsMixed := by
  cases hconverts : converts w.heap id key d with
  | none => exact define_again_of_plain run inHeap inOrder hconverts accepted
  | some value =>
    have hinOrder := inOrder (isArray_of_converts hconverts)
    obtain ⟨hagain, unmixed⟩ :=
      define_again_of_converts run hinOrder hconverts (primitive value hconverts) accepted
    exact iff_of_true hagain unmixed

/-- The definition of an accessor whose getter is given as `undefined`. -/
def vacantGetter : Descriptor := { get := some .undefined, enumerable := some true }

/-- The definition of such an accessor past the end of an array raises the length the first time and does
nothing the second time. -/
theorem define_again_vacant :
    ((define (fun _ _ _ => pure .undefined) ⟨0⟩ (.ofWord 3) vacantGetter true).outcome elementWorld).1
        = .ok true
      ∧ (((define (fun _ _ _ => pure .undefined) ⟨0⟩ (.ofWord 3) vacantGetter true).outcome
          elementWorld).2.heap.get ⟨0⟩).length = 4
      ∧ (define (fun _ _ _ => pure .undefined) ⟨0⟩ (.ofWord 3) vacantGetter true).outcome
          ((define (fun _ _ _ => pure .undefined) ⟨0⟩ (.ofWord 3) vacantGetter true).outcome elementWorld).2
        = (.ok true,
          ((define (fun _ _ _ => pure .undefined) ⟨0⟩ (.ofWord 3) vacantGetter true).outcome
            elementWorld).2) := by
  have hlength : (elementWorld.heap.get ⟨0⟩).HasLength 1 true := .arrayOf [.null]
  have haccepted : ((define (fun _ _ _ => pure .undefined) ⟨0⟩ (.ofWord 3) vacantGetter true).outcome
      elementWorld).1 = .ok true := by decide +kernel
  refine ⟨haccepted, by decide +kernel, ?_⟩
  refine (define_again (fun _ _ _ => pure .undefined) elementWorld ⟨0⟩ Nat.zero_lt_one (.ofWord 3)
    vacantGetter (fun _ => hlength.inOrder) ?_ true haccepted).2 fun mixed => Bool.false_ne_true mixed.1
  intro value hvalue
  rw [Key.ofWord_of_lt (by decide), converts_index] at hvalue
  cases hvalue

/-- A world with an object that has no properties. -/
def bareWorld : World Unit := ⟨⟨#[.ordinary []]⟩, ()⟩

/-- A definition of a value and a getter. -/
def valueAndGetter : Descriptor := { value := some (.ofNat 1), get := some .undefined }

/-- A definition of a value and a getter is accepted where there is no property, and refused when it is made
again at once. -/
theorem define_again_mixed :
    ((define (fun _ _ _ => pure .undefined) ⟨0⟩ (.ofText "x") valueAndGetter false).outcome bareWorld).1
        = .ok true
      ∧ ((define (fun _ _ _ => pure .undefined) ⟨0⟩ (.ofText "x") valueAndGetter false).outcome
          ((define (fun _ _ _ => pure .undefined) ⟨0⟩ (.ofText "x") valueAndGetter false).outcome
            bareWorld).2).1 = .ok false := by
  decide +kernel

end Protocol

end ObjectModel
