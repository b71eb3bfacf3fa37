import ObjectModel.Proofs.Object.ArrayLength
import ObjectModel.Proofs.Protocol.Outcome
import Mathlib.Order.Bounds.Basic

/-!
# Shrinking an array

What the definition of a smaller length does to an array whose length is in order and writable. Elements
that are not configurable are `Pinned`. Without a pinned element at or past the new length, the array is
shrunken to that length. Otherwise it is shrunken to one above the highest of them, and the definition is
refused. In both cases the length ends writable exactly if the definition does not say otherwise, and
nothing else changes: see `Shrunk` for the array itself and `Protocol.define_length_shrink` for the rest
of the world.
-/

namespace ObjectModel

variable {σ : Type}

namespace Object

/-- There is an element at the position, at or past `n`, and it may not be deleted. -/
def Pinned (o : Object) (n i : Nat) : Prop :=
  n ≤ i ∧ ∃ p, o.element? i = some p ∧ p.isConfigurable = false

/-- The object has become another with the length `n`: the elements from `n` on are gone, and the length
is as writable as said. All else is as it was, the order of the properties included. -/
structure Shrunk (o : Object) (n : Nat) (writable : Bool) (o' : Object) : Prop where
  length : o'.length = n
  own : o'.find? .length = some (.data (.ofNat n) ⟨writable, false, false⟩)
  gone : ∀ i, n ≤ i → o'.element? i = none
  kept : ∀ i, i < n → o'.element? i = o.element? i
  others : ∀ key, key.isLength = false → key.index? = none → o'.find? key = o.find? key
  order : o'.table.keys = o.table.keys
  toClass : o'.toClass = o.toClass
  ancestors : o'.ancestors = o.ancestors
  extensible : o'.extensible = o.extensible

variable {o : Object} {n L : Nat} {w : Bool}

/-- A truncation leaves the elements below where it stops. -/
theorem element?_truncate (o : Object) {i : Nat} (below : i < stop n (o.truncate n L).1) :
    (o.truncate n L).2.element? i = o.element? i := by
  obtain ⟨kind, table, ancestors, extensible⟩ := o
  cases kind with
  | ordinary | function => rfl
  | array e =>
    have hcleared := Elements.truncate_spec (!·.isConfigurable) n L e
    have hbelow : i < stop n (e.truncate (!·.isConfigurable) n L).1 := below
    show (e.truncate (!·.isConfigurable) n L).2.read i = e.read i
    generalize e.truncate (!·.isConfigurable) n L = truncated at hcleared hbelow ⊢
    obtain ⟨blocked, after⟩ := truncated
    cases hcleared with
    | complete _ _ kept => exact kept i fun h => Nat.not_le_of_lt hbelow h.1
    | blocked _ _ _ _ kept => exact kept i fun h => Nat.not_lt_of_le (Nat.le_of_lt_succ hbelow) h.2

/-- A truncation leaves the properties that are no elements. -/
theorem find?_truncate (o : Object) {key : Key} (hkey : key.index? = none) :
    (o.truncate n L).2.find? key = o.find? key := by
  obtain ⟨kind, table, ancestors, extensible⟩ := o
  cases key with
  | index i => cases hkey
  | name => cases kind <;> rfl

/-- A truncation leaves everything but the elements. -/
theorem truncate_frame (o : Object) (n L : Nat) :
    (o.truncate n L).2.table = o.table ∧ (o.truncate n L).2.ancestors = o.ancestors
      ∧ (o.truncate n L).2.extensible = o.extensible := by
  obtain ⟨kind, table, ancestors, extensible⟩ := o
  cases kind <;> exact ⟨rfl, rfl, rfl⟩

/-- An element of an array is pinned if its storage has it fixed. -/
theorem pinned_iff {e : Elements Property} {table : PropertyTable} {ancestors : List ObjectId}
    {extensible : Bool} {i : Nat} :
    Pinned ⟨.array e, table, ancestors, extensible⟩ n i
      ↔ n ≤ i ∧ Elements.IsFixed (!·.isConfigurable) e i := by
  rw [Elements.IsFixed, Option.any_eq_true]
  simp only [Bool.not_eq_true']
  rfl

/-- A truncation is stopped by the highest pinned element, or by none if there is none. -/
theorem truncate_cases (h : o.HasLength L w) :
    ((o.truncate n L).1 = none ∧ ∀ i, ¬ o.Pinned n i)
      ∨ ∃ b, (o.truncate n L).1 = some b ∧ IsGreatest {i | o.Pinned n i} b := by
  obtain ⟨kind, table, ancestors, extensible⟩ := o
  cases kind with
  | ordinary | function => exact .inl ⟨rfl, fun i ⟨_, p, hp, _⟩ => by cases hp⟩
  | array e =>
    -- the length covers every element, so nothing pinned is missed above it
    have hbelow : ∀ i, Elements.IsFixed (!·.isConfigurable) e i → i < L :=
      fun i hi => h.covers i hi.isSome
    have hcleared := Elements.truncate_spec (!·.isConfigurable) n L e
    show ((e.truncate (!·.isConfigurable) n L).1 = none ∧ _)
      ∨ ∃ b, (e.truncate (!·.isConfigurable) n L).1 = some b ∧ _
    generalize e.truncate (!·.isConfigurable) n L = truncated at hcleared ⊢
    obtain ⟨blocked, after⟩ := truncated
    cases hcleared with
    | complete free =>
      refine .inl ⟨rfl, fun i hi => ?_⟩
      obtain ⟨hn, hfixed⟩ := pinned_iff.1 hi
      exact free i ⟨hn, hbelow i hfixed⟩ hfixed
    | @blocked b _ inside stop free =>
      refine .inr ⟨b, rfl, pinned_iff.2 ⟨inside.1, stop⟩, fun i hi => Nat.le_of_not_lt fun hlt => ?_⟩
      obtain ⟨hn, hfixed⟩ := pinned_iff.1 hi
      exact free i ⟨hn, hbelow i hfixed⟩ hlt hfixed

/-- A definition of a smaller length shrinks the object to where the truncation stops. -/
theorem shrunk_defineLength (h : o.HasLength L true) (smaller : n < L) {d : Descriptor}
    (fits : d.FitsLength) :
    o.Shrunk (stop n (o.truncate n L).1) (d.writable.getD true) (o.defineLength n d).2 := by
  obtain ⟨hstop, hcovers⟩ := h.truncate smaller
  obtain ⟨htable, hancestors, hextensible⟩ := truncate_frame o n L
  have hlength : HasLength _ (stop n (o.truncate n L).1) (d.writable.getD true) :=
    .of_store_length (Nat.le_trans hstop h.le_maxLength) hcovers
  rw [defineLength_shrink h smaller fits]
  refine ⟨hlength.length, hlength.own, fun i hi => ?_, fun i hi => ?_, fun key hkey hindex => ?_, ?_,
    ?_, ?_, ?_⟩
  · rw [← Option.not_isSome_iff_eq_none]
    exact fun hocc => Nat.not_lt_of_le hi (hlength.covers i hocc)
  · rw [element?_store_length, element?_truncate o hi]
  · have hother : key ≠ .length := fun heq => by rw [Key.isLength_iff.2 heq] at hkey; cases hkey
    rw [find?_store, if_neg hother.symm, find?_truncate o hindex]
  · have hpresent : Key.length ∈ o.table.keys := by
      rw [← PropertyTable.isSome_find?, ← find?_length, h.own]
      rfl
    rw [store_length, htable, PropertyTable.keys_insert, if_pos hpresent]
  · rw [toClass_store, toClass_truncate]
  · rw [ancestors_store, hancestors]
  · rw [extensible_store, hextensible]

end Object

namespace Protocol

variable {w : World σ} {id : ObjectId} {d : Descriptor} {x : Number} {n : Nat}

/-- The definition of a length with a number that is a word calls no script code. It is one edit. -/
theorem outcome_define_length (run : Callback σ) (array : (w.heap.get id).isArray = true)
    (value : d.value = some (.number x)) (integer : x.toInt? = some (n : Int)) (word : n < 2 ^ 32)
    (strict : Bool) :
    (define run id .length d strict).outcome w
      = (((w.heap.get id).defineLength n d).1.answer strict, w.edit id (.defineLength n d)) := by
  have hword : x.toUint32 = n := by
    rw [Number.toUint32_of_toInt? integer]
    omega
  have hequals : (Number.ofNat x.toUint32).equals x = true := by
    rw [hword, Number.equals_ofNat_iff (Nat.lt_of_lt_of_le word (by decide))]
    exact integer
  rw [outcome_define_primitive run (converts_length array value) rfl, Value.primitiveNumber,
    afterConversion, if_pos hequals, hword]

/-- The definition of a smaller length, on an array whose length is in order and writable.

Without a pinned element at or past the new length `n`, the answer is `true` and the array is shrunken to
`n`. Otherwise, with `b` the highest pinned element, the definition is refused, and the array is shrunken
to `b + 1`. Either way the length ends writable unless the definition says otherwise. No other object
changes, and neither does the host: no script code is called. -/
theorem define_length_shrink (run : Callback σ) (w : World σ) (id : ObjectId) (d : Descriptor)
    (array : (w.heap.get id).isArray = true)
    (inOrder : (w.heap.get id).LengthInOrder) (writable : (w.heap.get id).lengthState.2 = true)
    (value : d.value = some (.number x)) (integer : x.toInt? = some (n : Int))
    (smaller : n < (w.heap.get id).length) (fits : d.FitsLength) (strict : Bool) :
    ((∀ i, ¬ (w.heap.get id).Pinned n i) →
        ((define run id .length d strict).outcome w).1 = .ok true
          ∧ (w.heap.get id).Shrunk n (d.writable != some false)
              (((define run id .length d strict).outcome w).2.heap.get id))
      ∧ (∀ b, IsGreatest {i | (w.heap.get id).Pinned n i} b →
        ((define run id .length d strict).outcome w).1
            = (if strict then .error (.refused (.frozenLength (b + 1))) else .ok false)
          ∧ (w.heap.get id).Shrunk (b + 1) (d.writable != some false)
              (((define run id .length d strict).outcome w).2.heap.get id))
      ∧ ((define run id .length d strict).outcome w).2.host = w.host
      ∧ ((define run id .length d strict).outcome w).2.heap.objects.size = w.heap.objects.size
      ∧ ∀ other, other ≠ id →
          ((define run id .length d strict).outcome w).2.heap.get other = w.heap.get other := by
  obtain ⟨writable', hlength⟩ := inOrder.hasLength (Nat.zero_lt_of_lt smaller)
  obtain rfl : writable' = true := by
    rw [hlength.lengthState] at writable
    exact writable
  have hword : n < 2 ^ 32 := Nat.lt_trans smaller inOrder.lt
  have inHeap : w.heap.Has id := by
    by_contra outside
    rw [Heap.get_of_not_has outside] at array
    cases array
  have hwritable : d.writable.getD true = (d.writable != some false) := by
    cases d.writable with
    | none => rfl
    | some b => cases b <;> rfl
  have hget := Heap.get_edit w.heap id (.defineLength n d) inHeap
  have hshrunk := Object.shrunk_defineLength hlength smaller fits
  have hverdict := congrArg Prod.fst (Object.defineLength_shrink hlength smaller fits)
  dsimp only at hverdict
  rw [outcome_define_length run array value integer hword, ← hwritable, hverdict]
  dsimp only [World.edit]
  -- both answers follow from where the truncation stopped
  refine ⟨fun free => ?_, fun b highest => ?_, rfl, Heap.size_edit .., fun other hother => ?_⟩
  · rcases Object.truncate_cases (n := n) hlength with ⟨hstop, -⟩ | ⟨b, -, hb⟩
    · rw [hstop] at hshrunk ⊢
      rw [hget, if_pos rfl]
      exact ⟨rfl, hshrunk⟩
    · exact absurd hb.1 (free b)
  · rcases Object.truncate_cases (n := n) hlength with ⟨-, hfree⟩ | ⟨b', hstop, hb'⟩
    · exact absurd highest.1 (hfree b)
    · obtain rfl : b' = b := hb'.unique highest
      rw [hstop] at hshrunk ⊢
      rw [hget, if_pos rfl]
      exact ⟨rfl, hshrunk⟩
  · rw [hget, if_neg hother.symm]

/-- An array of three elements, the second of which may not be deleted. -/
def pinnedArray : Object :=
  (Object.arrayOf [.null, .null, .null]).store (.index ⟨1, by decide⟩) (.data .null ⟨true, true, false⟩)

/-- A world with that array. -/
def pinnedWorld : World Unit := ⟨⟨#[pinnedArray]⟩, ()⟩

/-- The definition of a length of zero that is to be read-only. -/
def clearing : Descriptor := { value := some (.ofNat 0), writable := some false }

/-- A pinned element stops the definition of a length of zero that is to be read-only. The length ends at
two, and read-only. -/
theorem define_length_shrink_pinned :
    IsGreatest {i | pinnedArray.Pinned 0 i} 1
      ∧ ((define (fun _ _ _ => pure .undefined) ⟨0⟩ .length clearing true).outcome pinnedWorld).1
          = .error (.refused (.frozenLength 2))
      ∧ pinnedArray.Shrunk 2 false
          (((define (fun _ _ _ => pure .undefined) ⟨0⟩ .length clearing true).outcome
            pinnedWorld).2.heap.get ⟨0⟩) := by
  have hlength : pinnedArray.HasLength 3 true := by
    refine (Object.HasLength.arrayOf [.null, .null, .null]).store (by simp [Key.length]) _ fun i hi => ?_
    cases hi
    decide
  have hlast : pinnedArray.element? 2 = some (.data .null .all) := by decide
  have highest : IsGreatest {i | pinnedArray.Pinned 0 i} 1 := by
    refine ⟨⟨by decide, .data .null ⟨true, true, false⟩, by decide, by decide⟩, fun i hi => ?_⟩
    obtain ⟨-, p, hp, hfixed⟩ := hi
    have hi : i < 3 := hlength.covers i (Option.isSome_of_mem hp)
    by_contra hlt
    obtain rfl : i = 2 := by omega
    rw [hlast] at hp
    cases hp
    cases hfixed
  obtain ⟨-, hblocked, -⟩ := define_length_shrink (fun _ _ _ => pure .undefined) pinnedWorld ⟨0⟩
    clearing (by decide) hlength.inOrder (by decide) rfl (Number.toInt?_ofNat (by decide))
    (by decide +kernel) ⟨rfl, rfl, by decide, by decide⟩ true
  obtain ⟨hanswer, hshrunk⟩ := hblocked 1 highest
  exact ⟨highest, hanswer, hshrunk⟩

end Protocol

end ObjectModel
