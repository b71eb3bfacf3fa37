import ObjectModel.Proofs.Object.Revaluation

/-!
# Lengths of negative zero

A length in order is a number whose exact value is the length. One number says so for every length but zero,
for which there are two. No operation of arrays stores negative zero, but an ordinary definition of an
array's length can. From then on the array behaves as any other of length zero, and the next time that its
length is stored, it is stored as zero.

`withPlainLength` is what the array is then. It is the array itself unless its length is negative zero.
-/

namespace ObjectModel

namespace Number

/-- Negative zero. -/
def negativeZero : Number := finite true .zero

/-- A natural number is the exact value of the number made from it, and zero is that of negative zero too. -/
theorem eq_ofNat_or_negativeZero {x : Number} {n : Nat} (safe : n < 2 ^ 53)
    (integer : x.toInt? = some (n : Int)) : x = ofNat n ∨ n = 0 ∧ x = negativeZero := by
  rcases Nat.eq_zero_or_pos n with rfl | pos
  · cases x with
    | nan | infinite _ => cases integer
    | finite negative m =>
      obtain ⟨hvalue, -⟩ := (toInt?_finite_iff negative m 0).1 integer
      obtain ⟨rank, hrank⟩ := m
      obtain rfl : rank = 0 := (Magnitude.rank_eq_zero_iff _).2 hvalue
      cases negative with
      | false => exact .inl rfl
      | true => exact .inr ⟨rfl, rfl⟩
  · exact .inl (eq_ofNat_of_toInt? pos safe integer)

/-- Negative zero is not the number made from a natural number. -/
theorem negativeZero_ne_ofNat {n : Nat} (safe : n < 2 ^ 53) : negativeZero ≠ ofNat n := by
  obtain ⟨m, hm, -⟩ := ofNat_eq_finite safe
  rw [hm]
  nofun

end Number

namespace Object

variable {o : Object} {n : Nat} {w : Bool}

/-- The object's own length is stored as negative zero. -/
def hasNegativeLength (o : Object) : Bool :=
  (o.find? .length).any fun p => p.value? == some (.number .negativeZero)

/-- The object with a length of zero in the place of negative zero. -/
def withPlainLength (o : Object) : Object := if o.hasNegativeLength then o.setLength 0 else o

/-- A length that covers the elements is not negative zero. -/
theorem HasLength.hasNegativeLength (h : o.HasLength n w) : o.hasNegativeLength = false := by
  have hsafe : n < 2 ^ 53 := Nat.lt_of_le_of_lt h.le_maxLength (by decide)
  rw [Object.hasNegativeLength, h.own, Option.any_some, Property.value?, beq_eq_false_iff_ne]
  intro hvalue
  exact Number.negativeZero_ne_ofNat hsafe (Value.number.inj (Option.some.inj hvalue)).symm

/-- Overwriting a length that covers the elements with itself changes nothing. -/
theorem HasLength.setLength_self (h : o.HasLength n w) : o.setLength n = o := by
  rw [setLength_eq h.own, store_length_self h.own]

namespace LengthInOrder

/-- A length of negative zero is in order if there are no elements. -/
theorem of_negative (own : o.find? .length = some (.data (.number .negativeZero) ⟨w, false, false⟩))
    (empty : ∀ i, o.element? i = none) : o.LengthInOrder := by
  have hinteger : Number.negativeZero.toInt? = some ((0 : Nat) : Int) := by decide +kernel
  have hzero : o.length = 0 := by
    rw [Object.length, lengthState, own]
    simp [Value.number?, Number.toUint32_of_toInt? hinteger]
  refine ⟨⟨.negativeZero, _, own, rfl, rfl, ?_⟩, ?_, fun elements helements i hi => ?_⟩
  · rw [hzero, hinteger]
  · rw [hzero]
    decide
  · have hread : elements.read i = none := by
      have hnone := empty i
      rwa [element?, helements] at hnone
    rw [Elements.mem_indices, hread] at hi
    cases hi

variable (h : o.LengthInOrder)
include h

/-- A length in order is the number itself, and covers the elements, or it is negative zero. -/
theorem hasLength_or_negative :
    o.HasLength o.length o.lengthState.2 ∨ o.length = 0 ∧ o.find? .length
      = some (.data (.number .negativeZero) ⟨o.lengthState.2, false, false⟩) := by
  obtain ⟨x, ⟨w, enumerable, configurable⟩, hown, rfl, rfl, hx⟩ := h.own
  have hwritable : o.lengthState.2 = w := by rw [lengthState, hown]
  have hsafe : o.length < 2 ^ 53 := Nat.lt_of_lt_of_le h.lt (by decide)
  rw [hwritable]
  rcases Number.eq_ofNat_or_negativeZero hsafe hx with rfl | ⟨hzero, rfl⟩
  · exact .inl ⟨hown, Nat.le_of_lt_succ h.lt, fun i => h.lt_of_element?⟩
  · exact .inr ⟨hzero, hown⟩

/-- Overwriting the length with the number that it is makes negative zero plain, and nothing else. -/
theorem setLength_length : o.setLength o.length = o.withPlainLength := by
  rw [withPlainLength]
  rcases h.hasLength_or_negative with hlength | ⟨hzero, hown⟩
  · rw [hlength.hasNegativeLength, if_neg Bool.false_ne_true, hlength.setLength_self]
  · rw [if_pos, hzero]
    rw [hasNegativeLength, hown]
    rfl

/-- The definition of a length with the number that it is, by its value alone, is accepted if the length is
writable, and makes negative zero plain. -/
theorem defineLength_self (writable : o.lengthState.2 = true) (v : Value) :
    o.defineLength o.length (.ofValue v) = (.accepted, o.withPlainLength) := by
  obtain ⟨v₀, hown⟩ := h.own_eq
  have hordinary := ordinaryDefine_ofValue hown (.ofNat o.length)
  rw [writable, Bool.or_true, if_pos rfl] at hordinary
  rw [defineLength_of_le (Nat.le_refl _)]
  refine hordinary.trans ?_
  rw [← h.setLength_length, setLength_eq hown, writable]
  split
  · next hsame =>
    rw [Value.same_iff.1 hsame, store_length_self (writable ▸ hown)]
  · rfl

end LengthInOrder

end Object

end ObjectModel
