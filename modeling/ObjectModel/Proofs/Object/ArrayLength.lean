import ObjectModel.Object.Laws
import ObjectModel.Proofs.Elements.Truncation
import ObjectModel.Proofs.Number.Integers
import ObjectModel.Proofs.Object.Edit
import ObjectModel.Proofs.Object.Fixed
import ObjectModel.Proofs.PropertyTable

/-!
# The length of an array

`HasLength` says that an object's own `length` is a number, neither enumerable nor configurable, that
exceeds every position at which the object has an element. This module follows it through each edit that
the protocol makes of an array (`HasLength.apply`).

The definition of a length is the one edit with several steps. It stores the new length, removes
elements, and may store a length again. `defineLength_shrink` gives what these steps come to: the
elements are truncated, and one length is stored, which is the new value or one above the element that
stopped the truncation, and which is writable as the definition asks.
-/

namespace ObjectModel

/-- The key of a word that is an index. -/
theorem Key.ofWord_of_lt {i : Nat} (h : i < maxLength) : Key.ofWord i = .index ⟨i, h⟩ := dif_pos h

namespace Object

variable {o : Object} {n : Nat} {w : Bool}

/-! ## Elements and lengths -/

/-- The element of an array at a position. -/
def element? (o : Object) (i : Nat) : Option Property := o.elements?.bind (·.read i)

/-- An array consists of its elements and the rest. -/
theorem exists_of_isArray (h : o.isArray = true) :
    ∃ elements table ancestors extensible, o = ⟨.array elements, table, ancestors, extensible⟩ := by
  obtain ⟨kind, table, ancestors, extensible⟩ := o
  cases kind with
  | array elements => exact ⟨elements, table, ancestors, extensible, rfl⟩
  | ordinary | function => cases h

/-- An array's properties under an index are its elements. -/
theorem find?_index (h : o.isArray = true) (i : Index) : o.find? (.index i) = o.element? i := by
  obtain ⟨elements, table, ancestors, extensible, rfl⟩ := exists_of_isArray h
  rfl

/-- After a property is stored there are the elements that were there before, and perhaps that one. -/
theorem isSome_element?_store {key : Key} {p : Property} {j : Nat}
    (h : ((o.store key p).element? j).isSome = true) :
    (o.element? j).isSome = true ∨ ∃ i : Index, key = .index i ∧ i.val = j := by
  obtain ⟨kind, table, ancestors, extensible⟩ := o
  cases kind with
  | ordinary | function => exact absurd h Bool.false_ne_true
  | array elements =>
    cases key with
    | name => exact .inl h
    | index i =>
      by_cases hij : i.val = j
      · exact .inr ⟨i, rfl, hij⟩
      · refine .inl ?_
        have hread : ((elements.write i p).read j).isSome = true := h
        rwa [Elements.read_write, if_neg hij] at hread

/-- After a property is taken away there are no elements but those that were there before. -/
theorem isSome_element?_erase {key : Key} {j : Nat}
    (h : ((o.erase key).element? j).isSome = true) : (o.element? j).isSome = true := by
  obtain ⟨kind, table, ancestors, extensible⟩ := o
  cases kind with
  | ordinary | function => exact absurd h Bool.false_ne_true
  | array elements =>
    cases key with
    | name => exact h
    | index i =>
      have hread : ((elements.delete i).2.read j).isSome = true := h
      rw [Elements.read_delete] at hread
      split at hread
      · cases hread
      · exact hread

/-- After an ordinary definition there are the elements that were there before, and perhaps its own. -/
theorem isSome_element?_ordinaryDefine {key : Key} {d : Descriptor} {j : Nat}
    (h : ((o.ordinaryDefine key d).2.element? j).isSome = true) :
    (o.element? j).isSome = true ∨ ∃ i : Index, key = .index i ∧ i.val = j := by
  rcases o.ordinaryDefine_cases key d with ⟨r, hr⟩ | hkeep | ⟨p, -, hstore⟩
  · rw [hr] at h
    exact .inl h
  · rw [hkeep] at h
    exact .inl h
  · rw [hstore] at h
    exact isSome_element?_store h

/-- Every object keeps its `length` in its table. -/
theorem find?_length (o : Object) : o.find? .length = o.table.find? .length := by
  obtain ⟨kind, table, ancestors, extensible⟩ := o
  cases kind <;> rfl

/-- Storing a length changes the table alone. -/
theorem store_length (o : Object) (p : Property) :
    o.store .length p = { o with table := o.table.insert .length p } := by
  obtain ⟨kind, table, ancestors, extensible⟩ := o
  cases kind <;> rfl

/-- Storing a length concerns no element. -/
theorem element?_store_length (o : Object) (p : Property) (i : Nat) :
    (o.store .length p).element? i = o.element? i := by
  rw [store_length]
  rfl

/-- Storing the length that is there changes nothing. -/
theorem store_length_self {p : Property} (h : o.find? .length = some p) : o.store .length p = o := by
  rw [find?_length] at h
  rw [store_length, PropertyTable.insert_self h]

/-- Overwriting the length stores a number with the attributes that are there. -/
theorem setLength_eq {v : Value} {a : Attributes} (own : o.find? .length = some (.data v a)) (m : Nat) :
    o.setLength m = o.store .length (.data (.ofNat m) a) := by
  rw [setLength, own]

/-- Of two lengths stored one after the other, the second stays. -/
theorem store_length_store_length {p : Property} (q r : Property) (h : o.find? .length = some p) :
    (o.store .length q).store .length r = o.store .length r := by
  rw [find?_length] at h
  rw [store_length, store_length, store_length]
  exact congrArg (fun t => { o with table := t })
    (PropertyTable.insert_insert q r (Option.isSome_of_mem h))

/-! ## The invariant -/

/-- The own `length` is a number that covers every element. -/
structure HasLength (o : Object) (n : Nat) (writable : Bool) : Prop where
  own : o.find? .length = some (.data (.ofNat n) ⟨writable, false, false⟩)
  le_maxLength : n ≤ maxLength
  covers : ∀ i, (o.element? i).isSome = true → i < n

namespace HasLength

/-- The own length and its writability are what the object reads as its own. -/
theorem lengthState (h : o.HasLength n w) : o.lengthState = (n, w) := by
  have hn : n < 2 ^ 32 := Nat.lt_of_le_of_lt h.le_maxLength (by decide)
  rw [Object.lengthState, h.own]
  show ((Number.ofNat n).toUint32, w) = (n, w)
  rw [Number.toUint32_ofNat hn]

/-- The length is the number. -/
theorem length (h : o.HasLength n w) : o.length = n := by
  rw [Object.length, h.lengthState]

/-- A property stored under another key leaves the length in order, unless it is an element past it. -/
theorem store (h : o.HasLength n w) {key : Key} (other : key ≠ .length) (p : Property)
    (below : ∀ i : Index, key = .index i → i.val < n) : (o.store key p).HasLength n w := by
  refine ⟨?_, h.le_maxLength, fun j hj => ?_⟩
  · rw [find?_store, if_neg other]
    exact h.own
  · rcases isSome_element?_store hj with hj | ⟨i, hkey, rfl⟩
    · exact h.covers j hj
    · exact below i hkey

/-- A property taken away under another key leaves the length in order. -/
theorem erase (h : o.HasLength n w) {key : Key} (other : key ≠ .length) :
    (o.erase key).HasLength n w := by
  refine ⟨?_, h.le_maxLength, fun j hj => h.covers j (isSome_element?_erase hj)⟩
  rw [find?_erase, if_neg other]
  exact h.own

/-- Another length may be stored as long as it covers the elements. -/
theorem of_store_length {m : Nat} {w' : Bool} (le : m ≤ maxLength)
    (covers : ∀ i, (o.element? i).isSome = true → i < m) :
    (o.store .length (.data (.ofNat m) ⟨w', false, false⟩)).HasLength m w' := by
  refine ⟨?_, le, fun i hi => covers i ?_⟩
  · rw [find?_store, if_pos rfl]
  · rwa [element?_store_length] at hi

end HasLength

end Object

/-! ## Definitions of a length -/

/-- The definition leaves a length what it is: a value, neither enumerable nor configurable. -/
structure Descriptor.FitsLength (d : Descriptor) : Prop where
  get : d.get = none
  set : d.set = none
  enumerable : d.enumerable ≠ some true
  configurable : d.configurable ≠ some true

/-- A definition that respects a length fits it. -/
theorem Descriptor.Respects.fitsLength {d : Descriptor} {v : Value} {w : Bool}
    (h : d.Respects (.data v ⟨w, false, false⟩)) : d.FitsLength := by
  have hkind := h.data rfl
  rw [isAccessor, Bool.or_eq_false_iff, Option.isSome_eq_false_iff, Option.isSome_eq_false_iff,
    Option.isNone_iff_eq_none, Option.isNone_iff_eq_none] at hkind
  exact ⟨hkind.1, hkind.2, fun he => Bool.noConfusion (h.enumerable true he), h.configurable⟩

/-- A definition that fits a length respects it as long as it is writable. -/
theorem Descriptor.FitsLength.respects {d : Descriptor} (h : d.FitsLength) (v : Value) :
    d.Respects (.data v ⟨true, false, false⟩) where
  configurable := h.configurable
  enumerable b hb := Bool.eq_false_iff.2 fun htrue => h.enumerable (htrue ▸ hb)
  data _ := by rw [isAccessor, h.get, h.set]; rfl
  readOnly _ _ hp hw := by cases hp; cases hw
  accessor _ _ _ hp := by cases hp

namespace Object

variable {o : Object} {n : Nat} {w : Bool}

/-- A definition that respects the own length is accepted, and stores the fields that it names. -/
theorem ordinaryDefine_of_respects {v : Value}
    (own : o.find? .length = some (.data v ⟨w, false, false⟩)) {d : Descriptor}
    (respects : d.Respects (.data v ⟨w, false, false⟩)) :
    o.ordinaryDefine .length d
      = (.accepted, o.store .length (.data (d.value.getD v) ⟨d.writable.getD w, false, false⟩)) := by
  have happlied : d.applyTo (.data v ⟨w, false, false⟩)
      = .data (d.value.getD v) ⟨d.writable.getD w, false, false⟩ := by
    have henumerable := respects.getD_enumerable
    have hconfigurable := respects.getD_configurable rfl
    simp only [Property.attributes] at henumerable hconfigurable
    rw [Descriptor.applyTo, henumerable, hconfigurable]
  rw [ordinaryDefine, own, ← happlied]
  rcases respects.decide trivial o.extensible with ⟨hkeep, hsame⟩ | hstore
  · rw [hkeep, hsame, store_length_self own]
  · rw [hstore]

/-- A definition of the own length is refused, or fits it and stores the fields that it names. -/
theorem ordinaryDefine_length {v : Value}
    (own : o.find? .length = some (.data v ⟨w, false, false⟩)) (d : Descriptor) :
    (∃ fault : DefinitionFault, o.ordinaryDefine .length d = (.refused (fault.refusal .length), o))
      ∨ d.FitsLength ∧ o.ordinaryDefine .length d
          = (.accepted, o.store .length (.data (d.value.getD v) ⟨d.writable.getD w, false, false⟩)) := by
  rcases Descriptor.decide_fixed (d := d) (p := .data v ⟨w, false, false⟩) rfl o.extensible with
    ⟨fault, hfault⟩ | respects
  · refine .inl ⟨fault, ?_⟩
    rw [ordinaryDefine, own, hfault]
  · exact .inr ⟨respects.fitsLength, ordinaryDefine_of_respects own respects⟩

/-- Removing elements concerns neither the table nor anything else. -/
theorem truncate_store_length (o : Object) (p : Property) (first bound : Nat) :
    (o.store .length p).truncate first bound
      = ((o.truncate first bound).1, (o.truncate first bound).2.store .length p) := by
  obtain ⟨kind, table, ancestors, extensible⟩ := o
  cases kind <;> rfl

/-- The own length is there after elements were removed. -/
theorem find?_length_truncate (o : Object) (first bound : Nat) :
    (o.truncate first bound).2.find? .length = o.find? .length := by
  obtain ⟨kind, table, ancestors, extensible⟩ := o
  cases kind <;> rfl

/-- Where a length that shrinks to `n` ends: there, or one above the element in the way. -/
def stop (n : Nat) (blocked : Option Nat) : Nat := blocked.elim n (· + 1)

/-- How a definition of a smaller length is answered. -/
def shrinkVerdict : Option Nat → Verdict
  | none => .accepted
  | some b => .refused (.frozenLength (b + 1))

/-- A length stays writable unless the definition says otherwise. -/
private theorem getD_of_ne {writable : Option Bool} (h : writable ≠ some false) :
    writable.getD true = true := by
  cases writable with
  | none => rfl
  | some b => exact Bool.eq_true_of_not_eq_false fun hb => h (hb ▸ rfl)

/-- A definition of a length that does not shrink it is an ordinary one. -/
theorem defineLength_of_le {m : Nat} (grows : o.length ≤ m) (d : Descriptor) :
    o.defineLength m d = o.ordinaryDefine .length { d with value := some (.ofNat m) } := by
  rw [defineLength]
  exact if_pos grows

/-- A length that is read-only does not shrink. -/
theorem defineLength_readOnly (readOnly : o.lengthState.2 = false) {m : Nat} (smaller : m < o.length)
    (d : Descriptor) : o.defineLength m d = (.refused (.frozenLength o.length), o) := by
  have hsmaller : ¬ o.lengthState.1 ≤ m := Nat.not_le_of_lt smaller
  simp only [defineLength, if_neg hsmaller, readOnly, Bool.not_false, if_true]
  rfl

/-- The definition of a smaller length truncates the elements, and stores the length at which that
stopped, writable as the definition asks. -/
theorem defineLength_shrink (h : o.HasLength n true) {m : Nat} (smaller : m < n) {d : Descriptor}
    (fits : d.FitsLength) :
    o.defineLength m d
      = (shrinkVerdict (o.truncate m n).1,
          (o.truncate m n).2.store .length
            (.data (.ofNat (stop m (o.truncate m n).1)) ⟨d.writable.getD true, false, false⟩)) := by
  have hfits : ∀ value writable, ({ d with value, writable } : Descriptor).FitsLength :=
    fun _ _ => ⟨fits.get, fits.set, fits.enumerable, fits.configurable⟩
  let lowered : Property := .data (.ofNat m) ⟨true, false, false⟩
  -- the length is lowered first, and kept writable whatever is asked
  have hlowered : ∀ writable, writable ≠ some false →
      o.ordinaryDefine .length { d with value := some (.ofNat m), writable }
        = (.accepted, o.store .length lowered) := by
    intro writable hwritable
    rw [ordinaryDefine_of_respects h.own ((hfits _ writable).respects _), getD_of_ne hwritable]
    rfl
  have htruncate := truncate_store_length o lowered m n
  have hown := find?_length_truncate o m n
  generalize o.truncate m n = truncated at htruncate hown ⊢
  obtain ⟨blocked, short⟩ := truncated
  -- a second definition overwrites the lowered length
  have hagain : ∀ e : Descriptor, e.FitsLength →
      (short.store .length lowered).ordinaryDefine .length e
        = (.accepted, short.store .length
            (.data (e.value.getD (.ofNat m)) ⟨e.writable.getD true, false, false⟩)) := by
    intro e he
    have hstored : (short.store .length lowered).find? .length = some lowered := by
      rw [find?_store, if_pos rfl]
    rw [ordinaryDefine_of_respects hstored (he.respects _),
      store_length_store_length _ _ (hown.trans h.own)]
  have hsmaller : ¬ n ≤ m := Nat.not_le_of_lt smaller
  simp only [defineLength, h.lengthState, if_neg hsmaller, Bool.not_true, Bool.false_eq_true, if_false]
  by_cases hfreeze : d.writable = some false
  · simp only [hfreeze, beq_self_eq_true, if_true, hlowered (some true) (by simp), htruncate]
    cases blocked with
    | some b =>
      dsimp only
      rw [hagain _ (hfits (some (.ofNat (b + 1))) (some false))]
      rfl
    | none =>
      dsimp only
      rw [hagain _ ⟨rfl, rfl, by simp, by simp⟩]
      rfl
  · simp only [beq_eq_false_iff_ne.2 hfreeze, Bool.false_eq_true, if_false, hlowered _ hfreeze,
      htruncate, getD_of_ne hfreeze]
    cases blocked with
    | some b =>
      dsimp only
      rw [hagain _ (hfits (some (.ofNat (b + 1))) d.writable), getD_of_ne hfreeze]
      rfl
    | none => rfl

/-- A definition of a smaller length that does not fit one is refused. -/
theorem defineLength_unfit (h : o.HasLength n true) {m : Nat} (smaller : m < n) {d : Descriptor}
    (unfit : ¬ d.FitsLength) :
    ∃ fault : DefinitionFault, o.defineLength m d = (.refused (fault.refusal .length), o) := by
  have hrefused : ∀ writable, ∃ fault : DefinitionFault,
      o.ordinaryDefine .length { d with value := some (.ofNat m), writable }
        = (.refused (fault.refusal .length), o) := by
    intro writable
    refine (ordinaryDefine_length h.own _).resolve_right fun haccepted => unfit ?_
    exact ⟨haccepted.1.get, haccepted.1.set, haccepted.1.enumerable, haccepted.1.configurable⟩
  have hsmaller : ¬ n ≤ m := Nat.not_le_of_lt smaller
  simp only [defineLength, h.lengthState, if_neg hsmaller, Bool.not_true, Bool.false_eq_true, if_false]
  by_cases hfreeze : d.writable = some false
  · obtain ⟨fault, hfault⟩ := hrefused (some true)
    exact ⟨fault, by simp only [hfreeze, beq_self_eq_true, if_true, hfault]⟩
  · obtain ⟨fault, hfault⟩ := hrefused d.writable
    exact ⟨fault, by simp only [beq_eq_false_iff_ne.2 hfreeze, Bool.false_eq_true, if_false, hfault]⟩

/-- What is left of a truncated region ends where the truncation stopped. -/
theorem lt_stop_of_cleared {fixed : Property → Bool} {m : Nat} {e after : Elements Property}
    {blocked : Option Nat}
    (h : Elements.Cleared fixed (fun i => m ≤ i ∧ i < n) e blocked after)
    (covers : ∀ i, (e.read i).isSome = true → i < n) {i : Nat}
    (occupied : (after.read i).isSome = true) : i < stop m blocked := by
  by_contra hstop
  cases h with
  | complete _ gone kept =>
    have hi : m ≤ i := Nat.le_of_not_lt hstop
    by_cases hin : i < n
    · rw [gone i ⟨hi, hin⟩] at occupied
      cases occupied
    · rw [kept i fun h => hin h.2] at occupied
      exact hin (covers i occupied)
  | @blocked b _ inside _ _ gone kept =>
    have hi : b < i := Nat.lt_of_succ_le (Nat.le_of_not_lt hstop)
    by_cases hin : i < n
    · rw [gone i ⟨Nat.le_trans inside.1 (Nat.le_of_lt hi), hin⟩ hi] at occupied
      cases occupied
    · rw [kept i fun h => hin h.1.2] at occupied
      exact hin (covers i occupied)

/-- A truncation stops below the length. -/
theorem stop_le_of_cleared {fixed : Property → Bool} {m : Nat} {e after : Elements Property}
    {blocked : Option Nat} (h : Elements.Cleared fixed (fun i => m ≤ i ∧ i < n) e blocked after)
    (smaller : m < n) : stop m blocked ≤ n := by
  cases h with
  | complete => exact Nat.le_of_lt smaller
  | blocked inside => exact inside.2

/-! ## The invariant is kept -/

namespace HasLength

/-- A truncation stops at a length that covers what is left. -/
theorem truncate (h : o.HasLength n w) {m : Nat} (smaller : m < n) :
    stop m (o.truncate m n).1 ≤ n
      ∧ ∀ i, ((o.truncate m n).2.element? i).isSome = true → i < stop m (o.truncate m n).1 := by
  obtain ⟨kind, table, ancestors, extensible⟩ := o
  cases kind with
  | ordinary | function => exact ⟨Nat.le_of_lt smaller, fun i hi => by cases hi⟩
  | array e =>
    have hcleared := Elements.truncate_spec (!·.isConfigurable) m n e
    exact ⟨stop_le_of_cleared hcleared smaller, fun i hi => lt_stop_of_cleared hcleared h.covers hi⟩

/-- The definition of a length leaves a length in order. -/
theorem defineLength (h : o.HasLength n w) {m : Nat} (word : m < 2 ^ 32) (d : Descriptor) :
    ∃ n' w', (o.defineLength m d).2.HasLength n' w' := by
  have hlength : o.length = n := by rw [Object.length, h.lengthState]
  by_cases hgrow : n ≤ m
  · rw [defineLength_of_le (hlength.trans_le hgrow)]
    rcases ordinaryDefine_length h.own { d with value := some (.ofNat m) } with ⟨r, hr⟩ | ⟨-, hstored⟩
    · rw [hr]
      exact ⟨n, w, h⟩
    · rw [hstored]
      have hm : m ≤ maxLength := Nat.le_of_lt_succ word
      exact ⟨m, _, .of_store_length hm fun i hi => Nat.lt_of_lt_of_le (h.covers i hi) hgrow⟩
  have hsmaller : m < n := Nat.lt_of_not_le hgrow
  cases w with
  | false =>
    rw [defineLength_readOnly (by rw [h.lengthState]) (hsmaller.trans_eq hlength.symm)]
    exact ⟨n, false, h⟩
  | true =>
    by_cases hfits : d.FitsLength
    · rw [defineLength_shrink h hsmaller hfits]
      obtain ⟨hstop, hcovers⟩ := h.truncate hsmaller
      exact ⟨_, _, of_store_length (Nat.le_trans hstop h.le_maxLength) hcovers⟩
    · obtain ⟨r, hr⟩ := defineLength_unfit h hsmaller hfits
      rw [hr]
      exact ⟨n, true, h⟩

/-- An ordinary definition leaves the length in order under another key, unless it is of an element
past the length, and under the key of the length if it names no value. -/
theorem ordinaryDefine (h : o.HasLength n w) (key : Key) (d : Descriptor)
    (below : ∀ i : Index, key = .index i → i.val < n) (noValue : key = .length → d.value = none) :
    ∃ w', (o.ordinaryDefine key d).2.HasLength n w' := by
  by_cases hkey : key = .length
  · subst hkey
    rcases ordinaryDefine_length h.own d with ⟨r, hr⟩ | ⟨-, hstored⟩
    · rw [hr]
      exact ⟨w, h⟩
    · rw [hstored, noValue rfl]
      exact ⟨_, .of_store_length h.le_maxLength h.covers⟩
  · rw [Object.ordinaryDefine]
    split
    · exact ⟨w, h⟩
    · exact ⟨w, h⟩
    · exact ⟨w, h.store hkey _ below⟩

/-- An element at any index leaves a length in order if the length is raised to cover it. -/
theorem raise (h : o.HasLength n w) {o' : Object} {i : Index}
    (own : o'.find? .length = o.find? .length)
    (elements : ∀ j, (o'.element? j).isSome = true → (o.element? j).isSome = true ∨ j = i.val) :
    ∃ n' w', (if n ≤ i.val then o'.setLength (i + 1) else o').HasLength n' w' := by
  split
  · next hi =>
    rw [setLength_eq (own.trans h.own)]
    refine ⟨i + 1, w, of_store_length i.isLt fun j hj => ?_⟩
    rcases elements j hj with hj | rfl
    · exact Nat.lt_succ_of_lt (Nat.lt_of_lt_of_le (h.covers j hj) hi)
    · exact Nat.lt_succ_self _
  · next hi =>
    refine ⟨n, w, own.trans h.own, h.le_maxLength, fun j hj => ?_⟩
    rcases elements j hj with hj | rfl
    · exact h.covers j hj
    · exact Nat.lt_of_not_le hi

/-- The definition of an element leaves a length in order. -/
theorem defineIndex (h : o.HasLength n w) (i : Index) (d : Descriptor) :
    ∃ n' w', (o.defineIndex i d).2.HasLength n' w' := by
  rw [Object.defineIndex, h.lengthState]
  dsimp only
  split
  · exact ⟨n, w, h⟩
  rcases o.ordinaryDefine_cases (.index i) d with ⟨r, hr⟩ | hkeep | ⟨p, -, hstore⟩
  · rw [hr]
    exact ⟨n, w, h⟩
  · rw [hkeep]
    exact h.raise rfl fun j hj => .inl hj
  · rw [hstore]
    refine h.raise ?_ fun j hj => ?_
    · rw [find?_store, if_neg (by simp [Key.length])]
    · rcases isSome_element?_store hj with hj | ⟨k, hk, hkj⟩
      · exact .inl hj
      · cases hk
        exact .inr hkj.symm

/-- The deletion of a property leaves a length in order. -/
theorem delete (h : o.HasLength n w) (key : Key) : (o.delete key).2.HasLength n w := by
  by_cases hkey : key = .length
  · subst hkey
    rw [Object.delete, h.own]
    exact h
  · rw [Object.delete]
    split
    · exact h
    · split
      · exact h.erase hkey
      · exact h

/-- An element overwritten in place leaves a length in order. -/
theorem overwriteElement (h : o.HasLength n w) (value : Value) (i : Nat) :
    (Protocol.overwriteElement value i o).2.HasLength n w := by
  rw [Protocol.overwriteElement]
  split
  · next v a helement =>
    split
    · have hi : i < n := h.covers i (Option.isSome_of_mem helement)
      rw [Key.ofWord_of_lt (Nat.lt_of_lt_of_le hi h.le_maxLength)]
      refine h.store (by simp [Key.length]) _ fun j hj => ?_
      cases hj
      exact hi
    · exact h
  · exact h

/-- Every edit by the rules leaves an array's length in order. -/
theorem apply (h : o.HasLength n w) (array : o.isArray = true) (e : Edit) (ruled : e.Ruled o) :
    ∃ n' w', (e.apply o).HasLength n' w' := by
  cases e with
  | define key d =>
    obtain ⟨elements, table, ancestors, extensible, rfl⟩ := exists_of_isArray array
    cases key with
    | index i => exact h.defineIndex i d
    | name text notIndex =>
      obtain ⟨w', h'⟩ := h.ordinaryDefine (.name text notIndex) d (fun _ hkey => by cases hkey)
        fun hkey => ruled array (Key.isLength_iff.2 hkey)
      exact ⟨n, w', h'⟩
  | defineLength m d => exact h.defineLength ruled d
  | ordinaryDefine | erase => cases ruled
  | delete key => exact ⟨n, w, h.delete key⟩
  | preventExtensions =>
    obtain ⟨elements, table, ancestors, extensible, rfl⟩ := exists_of_isArray array
    exact ⟨n, w, h.own, h.le_maxLength, h.covers⟩
  | overwrite value key => exact absurd array (Bool.eq_false_iff.1 ruled)
  | overwriteElement value i => exact ⟨n, w, h.overwriteElement value i⟩

/-! ## New arrays -/

/-- An empty array has a length of zero. -/
theorem array (ancestors : List ObjectId) (capacity : Nat) (limits : Limits) :
    (Object.array ancestors capacity limits).HasLength 0 true := by
  refine ⟨?_, Nat.zero_le _, fun i hi => ?_⟩
  · rw [find?_length]
    exact (PropertyTable.find?_insert ..).trans (if_pos rfl)
  · have hread : ((Elements.withLimits capacity limits : Elements Property).read i).isSome = true := hi
    rw [Elements.read_withLimits] at hread
    cases hread

/-- Values written one after the other fill as many positions. -/
theorem lt_of_read_foldl (values : List Value) (start : Nat) (e : Elements Property) {i : Nat}
    (h : (((values.zipIdx start).foldl (fun e (v, j) => e.write j (.data v .all)) e).read i).isSome
      = true) : (e.read i).isSome = true ∨ i < start + values.length := by
  induction values generalizing start e with
  | nil => exact .inl h
  | cons v rest ih =>
    rw [List.zipIdx_cons, List.foldl_cons] at h
    rw [List.length_cons]
    rcases ih _ _ h with hread | hlt
    · rw [Elements.read_write] at hread
      split at hread
      · exact .inr (by omega)
      · exact .inl hread
    · exact .inr (by omega)

/-- An array of values is as long as there are values. -/
theorem arrayOf (values : List Value) :
    (Object.arrayOf values).HasLength (values.take maxLength).length true := by
  have hown : ∀ elements, ({ Object.array [] 0 {} with kind := .array elements } : Object).find? .length
      = some (.data (.ofNat 0) .length) := fun _ => (array [] 0 {}).own
  rw [Object.arrayOf]
  dsimp only
  rw [setLength_eq (hown _)]
  refine of_store_length (List.length_take_le _ _) fun i hi => ?_
  rcases lt_of_read_foldl _ 0 _ hi with hread | hlt
  · rw [Elements.withCapacity, Elements.read_withLimits] at hread
    cases hread
  · rwa [Nat.zero_add] at hlt

/-- Every new array has its length in order. -/
theorem of_fresh (fresh : o.Fresh) (isArray : o.isArray = true) : ∃ n w, o.HasLength n w := by
  cases fresh with
  | ordinary | function => cases isArray
  | array ancestors capacity limits => exact ⟨0, true, .array ancestors capacity limits⟩
  | arrayOf values => exact ⟨_, true, .arrayOf values⟩

end HasLength

end Object

/-! ## A read-only length -/

namespace Object

/-- Every length is a 32-bit word. -/
theorem lengthState_le (o : Object) : o.lengthState.1 ≤ maxLength := by
  rw [lengthState]
  split
  · next v a _ =>
    cases v.number? with
    | none => exact Nat.zero_le _
    | some x => exact Nat.le_of_lt_succ x.toUint32_lt
  · exact Nat.zero_le _

/-- The definition of an element makes none at or past a length that is read-only. -/
theorem isSome_element?_defineIndex {o : Object} {n : Nat} (readOnly : o.lengthState = (n, false))
    {i : Index} {d : Descriptor} {j : Nat}
    (h : ((o.defineIndex i d).2.element? j).isSome = true) :
    (o.element? j).isSome = true ∨ j < n := by
  rw [defineIndex, readOnly] at h
  dsimp only at h
  split at h
  · exact .inl h
  · next hallowed =>
    have hi : i.val < n := Nat.lt_of_not_le fun hi => hallowed ⟨hi, rfl⟩
    have hdefined : ((o.ordinaryDefine (.index i) d).2.element? j).isSome = true := by
      generalize o.ordinaryDefine (.index i) d = result at h ⊢
      obtain ⟨_ | _, p⟩ := result
      · -- the length is above the index, so it is not raised
        dsimp only at h
        rwa [if_neg (Nat.not_le_of_lt hi)] at h
      · exact h
    rcases isSome_element?_ordinaryDefine hdefined with hj | ⟨k, hk, hkj⟩
    · exact .inl hj
    · cases hk
      exact .inr (hkj ▸ hi)

/-- No edit but an ordinary definition makes an element at or past a length that is read-only. -/
theorem covers_of_readOnly {o : Object} {n : Nat} (readOnly : o.lengthState = (n, false))
    (covers : ∀ i, (o.element? i).isSome = true → i < n) (array : o.isArray = true) {e : Edit}
    (byRules : ∀ key d, e ≠ .ordinaryDefine key d) {j : Nat}
    (occupied : ((e.apply o).element? j).isSome = true) : j < n := by
  -- an element is old, or it is the one under the key at hand, and then that key is below the length
  have old_or_at : ∀ key : Key, (∀ i : Index, key = .index i → i.val < n) →
      ((o.element? j).isSome = true ∨ ∃ i : Index, key = .index i ∧ i.val = j) → j < n := by
    rintro key below (hj | ⟨i, hi, rfl⟩)
    · exact covers j hj
    · exact below i hi
  cases e with
  | define key d =>
    obtain ⟨elements, table, ancestors, extensible, rfl⟩ := exists_of_isArray array
    cases key with
    | name text notIndex =>
      have hdefined : ((ordinaryDefine _ (.name text notIndex) d).2.element? j).isSome = true := occupied
      exact old_or_at _ (fun i hi => by cases hi) (isSome_element?_ordinaryDefine hdefined)
    | index i =>
      rcases isSome_element?_defineIndex readOnly (i := i) (d := d) occupied with hj | hlt
      · exact covers j hj
      · exact hlt
  | defineLength m d =>
    rw [Edit.apply, Edit.act, defineLength, readOnly] at occupied
    dsimp only at occupied
    split at occupied
    · exact old_or_at .length (fun i hi => by cases hi) (isSome_element?_ordinaryDefine occupied)
    · exact covers j occupied
  | ordinaryDefine key d => exact absurd rfl (byRules key d)
  | delete key =>
    rw [Edit.apply, Edit.act, delete] at occupied
    split at occupied
    · exact covers j occupied
    · split at occupied
      · exact covers j (isSome_element?_erase occupied)
      · exact covers j occupied
  | erase key => exact covers j (isSome_element?_erase occupied)
  | preventExtensions => exact covers j occupied
  | overwrite value key =>
    rw [Edit.apply, Edit.act, Protocol.overwrite] at occupied
    split at occupied
    · next v a found =>
      split at occupied
      · refine old_or_at key (fun i hi => covers i ?_) (isSome_element?_store occupied)
        rw [← find?_index array, ← hi, found]
        rfl
      · exact covers j occupied
    · exact covers j occupied
  | overwriteElement value i =>
    rw [Edit.apply, Edit.act, Protocol.overwriteElement] at occupied
    split at occupied
    · next v a found =>
      split at occupied
      · have hi : i < n := covers i (Option.isSome_of_mem found)
        have hn : n ≤ maxLength := by
          have hstate := o.lengthState_le
          rwa [readOnly] at hstate
        rw [Key.ofWord_of_lt (Nat.lt_of_lt_of_le hi hn)] at occupied
        refine old_or_at _ (fun k hk => ?_) (isSome_element?_store occupied)
        cases hk
        exact hi
      · exact covers j occupied
    · exact covers j occupied

end Object

/-! ## The invariant as it can be seen -/

/-- The length of an array is in order. -/
structure Object.LengthInOrder (o : Object) : Prop where
  /-- It is an own property, neither enumerable nor configurable, and its value is a number and the
  length. -/
  own : ∃ x a, o.find? .length = some (.data (.number x) a) ∧ a.enumerable = false
    ∧ a.configurable = false ∧ x.toInt? = some (o.length : Int)
  /-- It is a 32-bit word. -/
  lt : o.length < 2 ^ 32
  /-- It exceeds the position of every element. -/
  covers : ∀ elements, o.elements? = some elements → ∀ i ∈ elements.indices, i < o.length

/-- An own length that covers every element is in order. -/
theorem Object.HasLength.inOrder {o : Object} {n : Nat} {w : Bool} (h : o.HasLength n w) :
    o.LengthInOrder := by
  have hword : n < 2 ^ 32 := Nat.lt_of_le_of_lt h.le_maxLength (by decide)
  constructor
  · rw [h.length]
    exact ⟨.ofNat n, ⟨w, false, false⟩, h.own, rfl, rfl,
      Number.toInt?_ofNat (Nat.lt_of_lt_of_le hword (by decide))⟩
  · rwa [h.length]
  · intro elements helements i hi
    rw [h.length]
    refine h.covers i ?_
    rw [Object.element?, helements]
    exact Elements.mem_indices.1 hi

/-- A length in order exceeds the position of every element. -/
theorem Object.LengthInOrder.lt_of_element? {o : Object} (h : o.LengthInOrder) {i : Nat}
    (occupied : (o.element? i).isSome = true) : i < o.length := by
  rw [Object.element?] at occupied
  cases helements : o.elements? with
  | none =>
    rw [helements] at occupied
    cases occupied
  | some elements =>
    rw [helements] at occupied
    exact h.covers elements helements i (Elements.mem_indices.2 occupied)

/-- A length in order covers the elements, and its value is the number itself, unless it is zero. -/
theorem Object.LengthInOrder.hasLength {o : Object} (h : o.LengthInOrder) (pos : 0 < o.length) :
    ∃ w, o.HasLength o.length w := by
  obtain ⟨x, ⟨w, enumerable, configurable⟩, hown, henumerable, hconfigurable, hx⟩ := h.own
  obtain rfl : enumerable = false := henumerable
  obtain rfl : configurable = false := hconfigurable
  have hsafe : o.length < 2 ^ 53 := Nat.lt_of_lt_of_le h.lt (by decide)
  rw [Number.eq_ofNat_of_toInt? pos hsafe hx] at hown
  exact ⟨w, hown, Nat.le_of_lt_succ h.lt, fun i => h.lt_of_element?⟩

/-- An array whose length is in order has no element past it. -/
theorem Object.LengthInOrder.lt_of_find? {o : Object} (h : o.LengthInOrder) (array : o.isArray = true)
    {i : Index} {p : Property} (found : o.find? (.index i) = some p) : i.val < o.lengthState.1 := by
  obtain ⟨elements, table, ancestors, extensible, rfl⟩ := exists_of_isArray array
  exact h.covers elements rfl i (Elements.mem_indices.2 (Option.isSome_of_mem found))

/-- A length in order is writable as the object reads it, neither enumerable nor configurable. -/
theorem Object.LengthInOrder.own_eq {o : Object} (h : o.LengthInOrder) :
    ∃ v, o.find? .length = some (.data v ⟨o.lengthState.2, false, false⟩) := by
  obtain ⟨x, ⟨w, enumerable, configurable⟩, hown, henumerable, hconfigurable, -⟩ := h.own
  obtain rfl : enumerable = false := henumerable
  obtain rfl : configurable = false := hconfigurable
  refine ⟨.number x, ?_⟩
  rw [Object.lengthState, hown]

/-- A definition of a length that is accepted fits it, and stores the number that it is given, writable as
it asks. -/
theorem Object.LengthInOrder.of_accepted {o : Object} (h : o.LengthInOrder) {n : Nat} {d : Descriptor}
    (accepted : (o.defineLength n d).1 = .accepted) :
    d.FitsLength ∧ (o.defineLength n d).2.find? .length
      = some (.data (.ofNat n) ⟨d.writable.getD o.lengthState.2, false, false⟩) := by
  rcases Nat.lt_or_ge n o.length with hsmaller | hgrow
  · obtain ⟨w, hlength⟩ := h.hasLength (Nat.zero_lt_of_lt hsmaller)
    have hwritable : o.lengthState.2 = w := by rw [hlength.lengthState]
    cases w with
    | false =>
      rw [defineLength_readOnly hwritable hsmaller] at accepted
      cases accepted
    | true =>
      by_cases hfits : d.FitsLength
      · rw [defineLength_shrink hlength hsmaller hfits] at accepted ⊢
        refine ⟨hfits, ?_⟩
        generalize o.truncate n o.length = truncated at accepted ⊢
        obtain ⟨_ | b, short⟩ := truncated
        · rw [find?_store, if_pos rfl, hwritable]
          rfl
        · cases accepted
      · obtain ⟨fault, hrefused⟩ := defineLength_unfit hlength hsmaller hfits
        rw [hrefused] at accepted
        cases accepted
  · obtain ⟨v, hown⟩ := h.own_eq
    rw [defineLength_of_le hgrow] at accepted ⊢
    rcases ordinaryDefine_length hown { d with value := some (.ofNat n) } with
      ⟨fault, hrefused⟩ | ⟨hfits, hstored⟩
    · rw [hrefused] at accepted
      cases accepted
    · refine ⟨⟨hfits.get, hfits.set, hfits.enumerable, hfits.configurable⟩, ?_⟩
      rw [hstored, find?_store, if_pos rfl]
      rfl

end ObjectModel
