import ObjectModel.Object.Define

/-!
# Definitions of properties that are not configurable

What a definition may ask of a property that is not configurable: `Respects` says it field by field. A
definition that respects the property is accepted and overwrites the fields that it names
(`Respects.decide`); any other is refused (`decide_fixed`).

Of a value, such a definition may change the value itself, and take its writability away, as long as it
is writable. Of a pair of functions it changes nothing. `Hardens` sums this up as a relation between a
property and what may come of it. It is reflexive and transitive, so it also says what may come of the
property in the long run.
-/

namespace ObjectModel

/-- The functions of an accessor are not `undefined`: one that is missing is left out instead. -/
def Property.Clean : Property → Prop
  | data .. => True
  | accessor get set _ => get ≠ some .undefined ∧ set ≠ some .undefined

namespace Descriptor

/-- The definition asks nothing that a property which is not configurable forbids. -/
structure Respects (d : Descriptor) (p : Property) : Prop where
  /-- It does not make the property configurable. -/
  configurable : d.configurable ≠ some true
  /-- It does not change whether the property is enumerable. -/
  enumerable : ∀ b, d.enumerable = some b → b = p.attributes.enumerable
  /-- It does not turn a value into functions. -/
  data : p.isData = true → d.isAccessor = false
  /-- It changes a value that may not be assigned to neither in value nor in writability. -/
  readOnly : ∀ v a, p = .data v a → a.writable = false →
    d.writable ≠ some true ∧ ∀ x, d.value = some x → x = v
  /-- It neither turns functions into a value nor exchanges them. -/
  accessor : ∀ get set a, p = .accessor get set a →
    d.isData = false ∧ (∀ g, d.get = some g → sameFunction g get = true)
      ∧ ∀ s, d.set = some s → sameFunction s set = true

variable {d : Descriptor} {p : Property}

/-- A definition without any field is the one with all fields missing. -/
theorem eq_of_isEmpty (h : d.isEmpty = true) : d = {} := by
  obtain ⟨value, writable, get, set, enumerable, configurable⟩ := d
  simpa [isEmpty, isGeneric, isAccessor, isData, and_assoc, and_left_comm] using h

/-- A definition that is satisfied already respects the property. -/
theorem respects_of_isSatisfiedBy (fixed : p.isConfigurable = false)
    (h : d.isSatisfiedBy p = true) : d.Respects p := by
  obtain ⟨value, writable, get, set, enumerable, configurable⟩ := d
  unfold isSatisfiedBy at h
  -- each field of the descriptor is compared with the attribute that it would overwrite
  cases p <;> constructor <;>
    grind [isAccessor, isData, Property.attributes, Property.isData, Property.isConfigurable,
      Value.same_iff]

/-- A definition without a conflict respects the property. -/
theorem respects_of_conflict (fixed : p.isConfigurable = false) (h : d.conflict p = none) :
    d.Respects p := by
  obtain ⟨value, writable, get, set, enumerable, configurable⟩ := d
  unfold Descriptor.conflict at h
  cases p <;> constructor <;>
    grind [isGeneric, isAccessor, isData, Property.attributes, Property.isData,
      Property.isConfigurable, Value.same_iff]

/-- A definition that respects the property has no conflict with it. -/
theorem Respects.conflict (h : d.Respects p) : d.conflict p = none := by
  have hkept : (d.configurable == some true
      || d.enumerable.any (· != p.attributes.enumerable)) = false := by
    rw [beq_eq_false_iff_ne.2 h.configurable, Bool.false_or]
    exact (Option.any_eq_false _ _).2 fun b hb => by rw [h.enumerable b hb, bne_self_eq_false]
  simp only [Descriptor.conflict, hkept, Bool.and_false, Bool.false_eq_true, if_false]
  split
  · rfl
  cases p with
  | data v a =>
    have hchange : (!a.writable && (d.writable == some true || d.value.any (!·.same v))) = false := by
      cases hwritable : a.writable with
      | true => rfl
      | false =>
        obtain ⟨hw, hvalue⟩ := h.readOnly v a rfl hwritable
        rw [beq_eq_false_iff_ne.2 hw, Bool.false_or, Bool.not_false, Bool.true_and]
        refine (Option.any_eq_false _ _).2 fun x hx => ?_
        rw [hvalue x hx, Value.same_iff.2 rfl, Bool.not_true]
    simp only [h.data rfl, Bool.and_assoc, hchange, Bool.and_false, Bool.false_eq_true, if_false]
  | accessor get set a =>
    obtain ⟨hdata, hget, hset⟩ := h.accessor get set a rfl
    have hsame : (d.set.any (!sameFunction · set) || d.get.any (!sameFunction · get)) = false := by
      rw [Bool.or_eq_false_iff, Option.any_eq_false, Option.any_eq_false]
      exact ⟨fun s hs => by rw [hset s hs, Bool.not_true], fun g hg => by rw [hget g hg, Bool.not_true]⟩
    simp only [hdata, hsame, Bool.and_false, Bool.false_eq_true, if_false]

/-- A definition that respects the property does not turn it into one of the other kind. -/
theorem Respects.convert (h : d.Respects p) : d.convert p = p := by
  cases p with
  | data => rw [Descriptor.convert, if_neg (Bool.not_eq_true _ ▸ h.data rfl)]
  | accessor get set a =>
    rw [Descriptor.convert, if_neg (Bool.not_eq_true _ ▸ (h.accessor get set a rfl).1)]

/-- Asking for a function that is there already changes nothing. -/
private theorem applied_function {asked stored : Option Value} :
    (match asked with
      | some f => if f.isUndefined then none else some f
      | none => stored) = stored
      ↔ ∀ f, asked = some f → (if f.isUndefined then none else some f) = stored := by
  cases asked <;> simp

/-- A function that is there already would be stored as it is. -/
private theorem stored_eq_of_same {stored : Option Value} (clean : stored ≠ some .undefined)
    {f : Value} (same : sameFunction f stored = true) :
    (if f.isUndefined then none else some f) = stored := by
  cases stored with
  | none => exact if_pos same
  | some g =>
    obtain rfl : f = g := Value.same_iff.1 same
    cases f <;> first | rfl | exact absurd rfl clean

/-- A definition that respects a property does not change whether it is enumerable. -/
theorem Respects.getD_enumerable (h : d.Respects p) :
    d.enumerable.getD p.attributes.enumerable = p.attributes.enumerable := by
  cases hd : d.enumerable with
  | none => rfl
  | some b => exact h.enumerable b hd

/-- A definition that respects a property does not make it configurable. -/
theorem Respects.getD_configurable (h : d.Respects p) (fixed : p.isConfigurable = false) :
    d.configurable.getD p.attributes.configurable = false := by
  cases hd : d.configurable with
  | none => exact fixed
  | some b => exact Bool.eq_false_iff.2 fun hb => h.configurable (hb ▸ hd)

/-- A definition that respects an accessor leaves it as it is. -/
theorem Respects.applyTo_accessor {get set : Option Value} {a : Attributes}
    (h : d.Respects (.accessor get set a)) (fixed : a.configurable = false)
    (clean : (Property.accessor get set a).Clean) :
    d.applyTo (.accessor get set a) = .accessor get set a := by
  obtain ⟨-, hget, hset⟩ := h.accessor get set a rfl
  have hconfigurable := h.getD_configurable fixed
  rw [applyTo, Property.accessor.injEq, Attributes.mk.injEq]
  refine ⟨applied_function.2 fun g hg => ?_, applied_function.2 fun s hs => ?_, rfl,
    h.getD_enumerable, hconfigurable.trans fixed.symm⟩
  · exact stored_eq_of_same clean.1 (hget g hg)
  · exact stored_eq_of_same clean.2 (hset s hs)

/-- An attribute that is asked for as it is stays as it is. -/
private theorem getD_of_all {asked : Option Bool} {stored : Bool}
    (h : asked.all (· == stored) = true) : asked.getD stored = stored := by
  cases asked with
  | none => rfl
  | some b => exact beq_iff_eq.1 h

/-- A definition that is satisfied already would overwrite nothing. -/
theorem applyTo_of_keep (clean : p.Clean) (h : (d.isEmpty || d.isSatisfiedBy p) = true) :
    d.applyTo p = p := by
  rcases Bool.or_eq_true_iff.1 h with h | h
  · obtain rfl := eq_of_isEmpty h
    cases p <;> rfl
  · cases p with
    | data v a =>
      simp only [isSatisfiedBy, Property.attributes, Bool.and_eq_true] at h
      obtain ⟨⟨henumerable, hconfigurable⟩, ⟨-, hwritable⟩, hvalue⟩ := h
      have hv : d.value.getD v = v := by
        cases hd : d.value with
        | none => rfl
        | some x => exact Value.same_iff.1 ((Option.all_eq_true _ _).1 hvalue x hd)
      rw [applyTo, hv, getD_of_all hwritable, getD_of_all henumerable, getD_of_all hconfigurable]
    | accessor get set a =>
      simp only [isSatisfiedBy, Property.attributes, Bool.and_eq_true] at h
      obtain ⟨⟨henumerable, hconfigurable⟩, ⟨-, hget⟩, hset⟩ := h
      rw [applyTo, getD_of_all henumerable, getD_of_all hconfigurable, Property.accessor.injEq]
      refine ⟨applied_function.2 fun g hg => ?_, applied_function.2 fun s hs => ?_, rfl⟩
      · exact stored_eq_of_same clean.1 ((Option.all_eq_true _ _).1 hget g hg)
      · exact stored_eq_of_same clean.2 ((Option.all_eq_true _ _).1 hset s hs)

/-! ## What becomes of the property -/

/-- A definition that respects the property is accepted, and makes of the property what the fields
say. -/
theorem Respects.decide (h : d.Respects p) (clean : p.Clean) (extensible : Bool) :
    d.decide (some p) extensible = .keep ∧ d.applyTo p = p
      ∨ d.decide (some p) extensible = .store (d.applyTo p) := by
  rw [Descriptor.decide]
  split
  · next hkeep => exact .inl ⟨rfl, applyTo_of_keep clean hkeep⟩
  · rw [h.conflict, h.convert]
    exact .inr rfl

/-- A definition of a property that is not configurable is refused, or respects it. -/
theorem decide_fixed (fixed : p.isConfigurable = false) (extensible : Bool) :
    (∃ fault, d.decide (some p) extensible = .refuse fault) ∨ d.Respects p := by
  rw [Descriptor.decide]
  split
  · next hkeep =>
    rcases Bool.or_eq_true_iff.1 hkeep with h | h
    · obtain rfl := eq_of_isEmpty h
      exact .inr ⟨by simp, by simp, fun _ => rfl, by simp, fun _ _ _ _ => ⟨rfl, by simp, by simp⟩⟩
    · exact .inr (respects_of_isSatisfiedBy fixed h)
  · cases hconflict : d.conflict p with
    | some fault => exact .inl ⟨fault, rfl⟩
    | none => exact .inr (respects_of_conflict fixed hconflict)

end Descriptor

namespace Property

/-- What may come of a property that is not configurable. A value may be changed and made read-only as
long as it is writable; functions stay as they are. -/
inductive Hardens : Property → Property → Prop
  | data {v v' : Value} {a a' : Attributes} (fixed : a.configurable = false)
      (stillFixed : a'.configurable = false) (enumerable : a'.enumerable = a.enumerable)
      (readOnly : a.writable = false → a'.writable = false ∧ v' = v) :
    Hardens (.data v a) (.data v' a')
  | accessor (get set : Option Value) {a : Attributes} (fixed : a.configurable = false) :
    Hardens (.accessor get set a) (.accessor get set a)

namespace Hardens

variable {p q r : Property}

/-- The property may stay as it is. -/
theorem refl (fixed : p.isConfigurable = false) : p.Hardens p := by
  cases p with
  | data => exact .data fixed fixed rfl fun h => ⟨h, rfl⟩
  | accessor => exact .accessor _ _ fixed

/-- What may come of what may come of a property may come of it. -/
theorem trans (h : p.Hardens q) (h' : q.Hardens r) : p.Hardens r := by
  cases h with
  | data fixed _ enumerable readOnly =>
    cases h' with
    | data _ fixed' enumerable' readOnly' =>
      refine .data fixed fixed' (enumerable'.trans enumerable) fun hw => ?_
      obtain ⟨hw', hv⟩ := readOnly hw
      obtain ⟨hw'', hv'⟩ := readOnly' hw'
      exact ⟨hw'', hv'.trans hv⟩
  | accessor => exact h'

/-- What comes of the property is not configurable. -/
theorem isConfigurable (h : p.Hardens q) : q.isConfigurable = false := by
  cases h <;> assumption

end Hardens

end Property

/-- A definition that respects a property hardens it. -/
theorem Descriptor.Respects.hardens {d : Descriptor} {p : Property} (h : d.Respects p)
    (fixed : p.isConfigurable = false) (clean : p.Clean) : p.Hardens (d.applyTo p) := by
  cases p with
  | data v a =>
    refine .data fixed (h.getD_configurable fixed) h.getD_enumerable fun hw => ?_
    obtain ⟨hwritable, hvalue⟩ := h.readOnly v a rfl hw
    constructor
    · cases hd : d.writable with
      | none => exact hw
      | some b => exact Bool.eq_false_iff.2 fun hb => hwritable (hb ▸ hd)
    · cases hd : d.value with
      | none => rfl
      | some x => exact hvalue x hd
  | accessor get set a =>
    rw [h.applyTo_accessor fixed clean]
    exact .accessor get set fixed

end ObjectModel
