import ObjectModel.Proofs.Number.Exact
import ObjectModel.Proofs.Protocol.Put
import ObjectModel.Proofs.Protocol.Shrink

/-!
# The validation of a length

The definition of an array's length with a primitive value is decided on in two steps. The number of the
value has to be a 32-bit word, negative zero being the word zero; if it is not, the answer is an invalid
length for every caller, before anything else is looked at. From there on the definition goes by the word,
and if it is accepted, the array has that length. An assignment to a length that is writable is no
different.
-/

namespace ObjectModel

open ObjectModel.Action

variable {σ : Type}

/-- An operation is accepted if the answer is `true`. -/
theorem Verdict.accepted_of_answer {verdict : Verdict} {strict : Bool}
    (answer : verdict.answer strict = .ok true) : verdict = .accepted := by
  cases verdict with
  | accepted => rfl
  | refused r => cases strict <;> cases answer

/-- A verdict is never answered by an invalid length. -/
theorem Verdict.answer_ne_invalidLength (verdict : Verdict) (strict : Bool) (x : Number) :
    verdict.answer strict ≠ .error (.invalidLength x) := by
  cases verdict with
  | accepted => nofun
  | refused r => cases strict <;> nofun

namespace Object

variable {o : Object} {d : Descriptor} {n : Nat}

/-- The object's length is stored as a number that is not negative, not even as a zero, and whose exact
value is `n`. -/
structure HoldsLength (o : Object) (n : Nat) : Prop where
  own : ∃ m a, o.find? .length = some (.data (.number (.finite false m)) a) ∧ m.rational = n
  length : o.length = n

/-- A stored word is held as the length. -/
theorem holdsLength_of_own (word : n < 2 ^ 32) {a : Attributes}
    (own : o.find? .length = some (.data (.ofNat n) a)) : o.HoldsLength n := by
  obtain ⟨m, hm, hvalue⟩ := Number.ofNat_eq_finite (Nat.lt_trans word (by decide))
  refine ⟨⟨m, a, ?_, (m.rational_eq_natCast_iff n).2 hvalue⟩, ?_⟩
  · rw [own, Value.ofNat, hm]
  · rw [length, lengthState, own]
    exact Number.toUint32_ofNat word

/-- A definition of a smaller length is accepted if it fits the length, which is writable, and no element
is in the way. -/
theorem accepted_of_unpinned (inOrder : o.LengthInOrder) (writable : o.lengthState.2 = true)
    (smaller : n < o.length) (fits : d.FitsLength) (free : ∀ i, ¬ o.Pinned n i) :
    (o.defineLength n d).1 = .accepted := by
  obtain ⟨w, hlength⟩ := inOrder.hasLength (Nat.zero_lt_of_lt smaller)
  obtain rfl : w = true := by rwa [hlength.lengthState] at writable
  rw [defineLength_shrink hlength smaller fits]
  rcases truncate_cases (n := n) hlength with ⟨hstop, -⟩ | ⟨b, -, hb⟩
  · rw [hstop]
    rfl
  · exact absurd hb.1 (free b)

/-- A definition of a length by its value alone is accepted if the length is writable and does not shrink,
or no element is in the way. -/
theorem accepted_defineLength_ofValue (inOrder : o.LengthInOrder) (writable : o.lengthState.2 = true)
    (unblocked : o.length ≤ n ∨ ∀ i, ¬ o.Pinned n i) (v : Value) :
    (o.defineLength n (.ofValue v)).1 = .accepted := by
  rcases Nat.lt_or_ge n o.length with hsmaller | hgrow
  · have hfits : (Descriptor.ofValue v).FitsLength := ⟨rfl, rfl, nofun, nofun⟩
    exact accepted_of_unpinned inOrder writable hsmaller hfits
      (unblocked.resolve_left (Nat.not_le_of_lt hsmaller))
  · obtain ⟨v₀, hown⟩ := inOrder.own_eq
    have hordinary := ordinaryDefine_ofValue hown (.ofNat n)
    rw [writable, Bool.or_true, if_pos rfl] at hordinary
    rw [defineLength_of_le hgrow]
    refine (congrArg Prod.fst hordinary).trans ?_
    split <;> rfl

end Object

namespace Protocol

variable {w : World σ} {id : ObjectId} {d : Descriptor} {value : Value} {n : Nat}

/-- A number whose exact value is no word is an invalid length, and nothing happens. -/
theorem afterConversion_of_not_word {x : Number} (invalid : ¬ ∃ n, x.IsWord n) (strict : Bool) :
    afterConversion id d strict x w = (.error (.invalidLength x), w) := by
  rw [afterConversion, if_neg (mt x.equals_toUint32_iff.1 invalid)]

/-- A number whose exact value is a word is a length to define. -/
theorem afterConversion_of_word {x : Number} (valid : x.IsWord n) (strict : Bool) :
    afterConversion id d strict x w
      = (((w.heap.get id).defineLength n d).1.answer strict, w.edit id (.defineLength n d)) := by
  rw [afterConversion, if_pos (x.equals_toUint32_iff.2 ⟨n, valid⟩), valid.toUint32]

/-- An assignment to a length in order that is writable defines the value alone. -/
theorem outcome_put_length (run : Callback σ) (inOrder : (w.heap.get id).LengthInOrder)
    (writable : (w.heap.get id).lengthState.2 = true) (v : Value) (strict : Bool) :
    (put run id .length v strict).outcome w
      = (discard (define run id .length (.ofValue v) strict)).outcome w := by
  obtain ⟨v₀, hown⟩ := inOrder.own_eq
  have hallowed : ¬ w.heap.RefusesPut id .length := by
    rw [Heap.refusesPut_iff, Heap.canPut, hown]
    exact Bool.not_eq_false _ ▸ writable
  rw [outcome_put_of_not_refuses run hallowed, hown]

/-- The definition of a word as the length of an array leaves that length if it is accepted. -/
theorem holdsLength_of_accepted (inHeap : w.heap.Has id) (inOrder : (w.heap.get id).LengthInOrder)
    (word : n < 2 ^ 32) (accepted : ((w.heap.get id).defineLength n d).1 = .accepted) :
    ((w.edit id (.defineLength n d)).heap.get id).HoldsLength n := by
  rw [World.get_edit inHeap]
  exact Object.holdsLength_of_own word (inOrder.of_accepted accepted).2

/-- The definition of an array's length with a primitive value, and the assignment of one to a length that
is writable.

If the exact value of its number is a 32-bit word `n`, the length is not invalid. If the definition is
accepted, the array's length is `n`, and a definition of a smaller length is accepted as soon as it fits
the length, the length is writable, and no element that may not be deleted is in the way. An assignment is
accepted, and the length is `n`, if the length does not shrink or no such element is in the way.

If the exact value is no 32-bit word, or there is none, both answer that the number is an invalid length,
whether the caller is strict or not and whatever else the definition asks for, and nothing changes. -/
theorem length_validated (run : Callback σ) (w : World σ) (id : ObjectId) (d : Descriptor) (value : Value)
    (array : (w.heap.get id).isArray = true) (inOrder : (w.heap.get id).LengthInOrder)
    (named : d.value = some value) (primitive : value.isPrimitive = true) (strict : Bool) :
    (∀ n, value.primitiveNumber.IsWord n →
        (∀ x, ((define run id .length d strict).outcome w).1 ≠ .error (.invalidLength x))
        ∧ (((define run id .length d strict).outcome w).1 = .ok true →
            (((define run id .length d strict).outcome w).2.heap.get id).HoldsLength n)
        ∧ (n < (w.heap.get id).length → (w.heap.get id).lengthState.2 = true → d.FitsLength →
            (∀ i, ¬ (w.heap.get id).Pinned n i) →
            ((define run id .length d strict).outcome w).1 = .ok true)
        ∧ ((w.heap.get id).lengthState.2 = true →
            (∀ x, ((put run id .length value strict).outcome w).1 ≠ .error (.invalidLength x))
            ∧ ((w.heap.get id).length ≤ n ∨ (∀ i, ¬ (w.heap.get id).Pinned n i) →
              ((put run id .length value strict).outcome w).1 = .ok ()
                ∧ (((put run id .length value strict).outcome w).2.heap.get id).HoldsLength n)))
      ∧ ((¬ ∃ n, value.primitiveNumber.IsWord n) →
        (define run id .length d strict).outcome w
            = (.error (.invalidLength value.primitiveNumber), w)
          ∧ ((w.heap.get id).lengthState.2 = true →
            (put run id .length value strict).outcome w
              = (.error (.invalidLength value.primitiveNumber), w))) := by
  have inHeap : w.heap.Has id := Heap.has_of_isArray array
  have hdefine := outcome_define_primitive run (converts_length array named) primitive strict
  -- an assignment is the definition of the value alone
  have hput : (w.heap.get id).lengthState.2 = true → (put run id .length value strict).outcome w
      = ((afterConversion id (.ofValue value) strict value.primitiveNumber w).1.map fun _ => (),
          (afterConversion id (.ofValue value) strict value.primitiveNumber w).2) := by
    intro writable
    rw [outcome_put_length run inOrder writable, outcome_discard,
      outcome_define_primitive run (converts_length array rfl) primitive]
  constructor
  · intro n valid
    rw [afterConversion_of_word valid] at hdefine hput
    rw [hdefine]
    refine ⟨Verdict.answer_ne_invalidLength _ strict, fun answer => ?_, fun smaller writable fits free => ?_,
      fun writable => ⟨fun x => ?_, fun unblocked => ?_⟩⟩
    · exact holdsLength_of_accepted inHeap inOrder valid.1 (Verdict.accepted_of_answer answer)
    · rw [Object.accepted_of_unpinned inOrder writable smaller fits free]
      rfl
    · rw [hput writable]
      intro hinvalid
      cases hverdict : ((w.heap.get id).defineLength n (.ofValue value)).1 with
      | accepted => rw [hverdict] at hinvalid; cases hinvalid
      | refused r => rw [hverdict] at hinvalid; cases strict <;> cases hinvalid
    · have haccepted := Object.accepted_defineLength_ofValue inOrder writable unblocked value
      rw [hput writable]
      refine ⟨?_, holdsLength_of_accepted inHeap inOrder valid.1 haccepted⟩
      rw [haccepted]
      rfl
  · intro invalid
    rw [afterConversion_of_not_word invalid] at hdefine hput
    exact ⟨hdefine, hput⟩

/-- The definition of a length that is read-only, and zero if read as a number. -/
def closing : Descriptor := { value := some (.string "-0"), writable := some false }

/-- The definition of a getter and of a length that is one too large. -/
def overlong : Descriptor := { value := some (.string "4294967296"), get := some .undefined }

/-- Negative zero is the length zero, and is stored as positive zero. A number that is one too large is an
invalid length, although the definition has a getter and would be refused anyway. -/
theorem length_validated_zero :
    Number.ofText "-0" = .finite true .zero
      ∧ ((define (fun _ _ _ => pure .undefined) ⟨0⟩ .length closing true).outcome elementWorld).1 = .ok true
      ∧ (((define (fun _ _ _ => pure .undefined) ⟨0⟩ .length closing true).outcome
          elementWorld).2.heap.get ⟨0⟩).HoldsLength 0
      ∧ (define (fun _ _ _ => pure .undefined) ⟨0⟩ .length overlong false).outcome elementWorld
        = (.error (.invalidLength (.ofNat 4294967296)), elementWorld) := by
  have hlength : (elementWorld.heap.get ⟨0⟩).HasLength 1 true := .arrayOf [.null]
  have hzero : Number.ofText "-0" = .finite true .zero := by decide +kernel
  have hlarge : Number.ofText "4294967296" = .ofNat 4294967296 := by decide +kernel
  have valid : (Number.ofText "-0").IsWord 0 := by
    refine ⟨by decide, (Number.toInt?_eq_natCast_iff _ 0).1 ?_⟩
    rw [hzero]
    decide +kernel
  have invalid : ¬ ∃ n, (Number.ofText "4294967296").IsWord n := by
    rw [← Number.equals_toUint32_iff, hlarge]
    decide +kernel
  have free : ∀ i, ¬ (elementWorld.heap.get ⟨0⟩).Pinned 0 i := by
    rintro i ⟨-, p, hp, hfixed⟩
    obtain rfl : i = 0 := Nat.lt_one_iff.1 (hlength.covers i (Option.isSome_of_mem hp))
    obtain rfl : p = .data .null .all := Option.some.inj (hp.symm.trans (by decide))
    cases hfixed
  obtain ⟨hvalid, -⟩ := length_validated (fun _ _ _ => pure .undefined) elementWorld ⟨0⟩ closing
    (.string "-0") rfl hlength.inOrder rfl rfl true
  obtain ⟨-, hinvalid⟩ := length_validated (fun _ _ _ => pure .undefined) elementWorld ⟨0⟩ overlong
    (.string "4294967296") rfl hlength.inOrder rfl rfl false
  obtain ⟨-, hholds, haccepted, -⟩ := hvalid 0 valid
  have hanswer := haccepted (by rw [hlength.length]; decide) (by rw [hlength.lengthState])
    ⟨rfl, rfl, nofun, nofun⟩ free
  exact ⟨hzero, hanswer, hholds hanswer, hlarge ▸ (hinvalid invalid).1⟩

end Protocol

end ObjectModel
