import ObjectModel.Proofs.Protocol.Shrink
import ObjectModel.Proofs.Run.Strictness

/-!
# Refused operations

An operation that is refused leaves everything as it was: every object with its properties in their order,
its flags and the storage of its elements, and the host (`Protocol.refusal_atomic`). There is one
exception, which the standard asks for. The definition of a smaller length removes elements one by one, and
an element that may not be deleted stops it half way.

A refusal here is one by the protocol itself. If no script code has its turn, that is every answer but that
the operation was accepted. Script code has no turn if the value that is converted to an array's length is
a primitive one and no setter can be called.
-/

namespace ObjectModel

open ObjectModel.Action

variable {σ : Type}

/-! ## Refused edits -/

/-- A definition of one property is not refused for a length. -/
theorem DefinitionFault.refusal_ne_frozenLength (fault : DefinitionFault) (key : Key) (n : Nat) :
    fault.refusal key ≠ .frozenLength n := by
  cases fault <;> nofun

namespace Object

variable {o : Object} {n : Nat}

/-- If the edit with this result is refused, the object is as it was, and a length that the refusal names
is the length of the object. -/
def Spares (o : Object) (result : Verdict × Object) : Prop :=
  ∀ r, result.1 = .refused r → result.2 = o ∧ ∀ m, r = .frozenLength m → o.length = m

/-- A refused ordinary definition leaves the object as it was. -/
theorem spares_ordinaryDefine (o : Object) (key : Key) (d : Descriptor) :
    o.Spares (o.ordinaryDefine key d) := by
  rw [ordinaryDefine]
  split
  · next fault _ =>
    rintro r ⟨⟩
    exact ⟨rfl, fun m hlength => absurd hlength (fault.refusal_ne_frozenLength key m)⟩
  · rintro r ⟨⟩
  · rintro r ⟨⟩

/-- A refused deletion leaves the object as it was. -/
theorem spares_delete (o : Object) (key : Key) : o.Spares (o.delete key) := by
  rw [delete]
  split
  · rintro r ⟨⟩
  · split
    · rintro r ⟨⟩
    · rintro r ⟨⟩
      exact ⟨rfl, fun m hlength => by cases hlength⟩

/-- A refused definition of an element leaves the array as it was. -/
theorem spares_defineIndex (o : Object) (i : Index) (d : Descriptor) : o.Spares (o.defineIndex i d) := by
  simp only [defineIndex]
  split
  · rintro r ⟨⟩
    refine ⟨rfl, ?_⟩
    rintro m ⟨⟩
    rfl
  · have hspares := spares_ordinaryDefine o (.index i) d
    generalize o.ordinaryDefine (.index i) d = defined at hspares ⊢
    obtain ⟨_ | r, p⟩ := defined
    · rintro r ⟨⟩
    · exact hspares

/-- A refused definition leaves the object as it was. -/
theorem spares_define (o : Object) (key : Key) (d : Descriptor) : o.Spares (o.define key d) := by
  rw [define.eq_def]
  split
  · next i _ => exact spares_defineIndex o i d
  · exact spares_ordinaryDefine o _ d

/-- A refused definition of a length leaves the array as it was, unless it was stopped on the way: then the
array is shrunken to one above the highest element that is pinned. -/
theorem defineLength_refused (inOrder : o.LengthInOrder) (d : Descriptor) {r : Refusal}
    (refused : (o.defineLength n d).1 = .refused r) :
    ((o.defineLength n d).2 = o ∧ ∀ m, r = .frozenLength m → o.length = m)
      ∨ n < o.length ∧ ∃ b, IsGreatest {i | o.Pinned n i} b ∧ r = .frozenLength (b + 1)
        ∧ o.Shrunk (b + 1) (d.writable.getD true) (o.defineLength n d).2 := by
  rcases Nat.lt_or_ge n o.length with smaller | larger
  · obtain ⟨writable, hlength⟩ := inOrder.hasLength (Nat.zero_lt_of_lt smaller)
    cases writable with
    | false =>
      rw [defineLength_readOnly (by rw [hlength.lengthState]) smaller] at refused ⊢
      cases refused
      refine .inl ⟨rfl, ?_⟩
      rintro m ⟨⟩
      rfl
    | true =>
      by_cases fits : d.FitsLength
      · have hshrunk := shrunk_defineLength hlength smaller fits
        rw [congrArg Prod.fst (defineLength_shrink hlength smaller fits)] at refused
        rcases truncate_cases (n := n) hlength with ⟨hstop, -⟩ | ⟨b, hstop, highest⟩
        · rw [hstop] at refused
          cases refused
        · rw [hstop] at refused hshrunk
          cases refused
          exact .inr ⟨smaller, b, highest, rfl, hshrunk⟩
      · -- what does not fit a length is refused before anything is removed
        obtain ⟨fault, hfault⟩ := defineLength_unfit hlength smaller fits
        rw [hfault] at refused ⊢
        cases refused
        exact .inl ⟨rfl, fun m hm => absurd hm (fault.refusal_ne_frozenLength .length m)⟩
  · have hordinary : o.defineLength n d
        = o.ordinaryDefine .length { d with value := some (.ofNat n) } := by
      simp only [defineLength]
      exact if_pos larger
    rw [hordinary] at refused ⊢
    exact .inl (spares_ordinaryDefine _ _ _ r refused)

end Object

/-! ## Refused operations -/

/-- A strict answer that is an error comes from a refusal. -/
theorem Verdict.refused_of_answer {verdict : Verdict} {e : Error} (refused : verdict.answer true = .error e) :
    ∃ r, verdict = .refused r ∧ e = .refused r := by
  cases verdict with
  | accepted => cases refused
  | refused r =>
    cases refused
    exact ⟨r, rfl, rfl⟩

/-- No function object would be called by an assignment: the nearest property on the chain is no accessor
with a setter that can be called. -/
def Heap.NoSetter (h : Heap) (id : ObjectId) (key : Key) : Prop :=
  ∀ g f a, h.property? id key = some (.accessor g (some f) a) → f.isCallable h.classOf = false

namespace Protocol

/-- The length of an array was to become `n`, and `b` is the highest element in the way, which may not be
deleted. The array is shrunken to one above it, and everything else is as it was. -/
structure Stopped (w w' : World σ) (id : ObjectId) (n b : Nat) : Prop where
  array : (w.heap.get id).isArray = true
  smaller : n < (w.heap.get id).length
  highest : IsGreatest {i | (w.heap.get id).Pinned n i} b
  shrunk : ∃ writable, (w.heap.get id).Shrunk (b + 1) writable (w'.heap.get id)
  others : ∀ other, other ≠ id → w'.heap.get other = w.heap.get other
  size : w'.heap.objects.size = w.heap.objects.size
  host : w'.host = w.host

/-- What is left of a world by an operation on an object that is refused with the error `e`, where
`length?` is the value that the operation names for an array's length. -/
structure Leaves (w w' : World σ) (id : ObjectId) (length? : Option Value) (e : Error) : Prop where
  /-- It is the world as it was, unless a length was stopped on the way. -/
  world : w' = w ∨ ∃ (value : Value) (n b : Nat), length? = some value
    ∧ value.primitiveNumber.toInt? = some (n : Int) ∧ e = .refused (.frozenLength (b + 1))
    ∧ Stopped w w' id n b
  /-- A length that the error names is the length of the array. -/
  length : ∀ n, e = .refused (.frozenLength n) → (w'.heap.get id).length = n

variable {w : World σ} {id : ObjectId} {key : Key} {d : Descriptor}

/-- The definition of a length that shrinks an array to one above a pinned element is stopped. -/
theorem Stopped.edit {n b : Nat} {writable : Bool} (array : (w.heap.get id).isArray = true)
    (smaller : n < (w.heap.get id).length) (highest : IsGreatest {i | (w.heap.get id).Pinned n i} b)
    (shrunk : (w.heap.get id).Shrunk (b + 1) writable ((w.heap.get id).defineLength n d).2) :
    Stopped w (w.edit id (.defineLength n d)) id n b := by
  have inHeap : w.heap.Has id := by
    by_contra outside
    rw [Heap.get_of_not_has outside] at array
    cases array
  have hget := w.heap.get_edit id (.defineLength n d) inHeap
  refine ⟨array, smaller, highest, ⟨writable, ?_⟩, fun other hother => ?_, Heap.size_edit .., rfl⟩
  · rw [World.edit, hget, if_pos rfl]
    exact shrunk
  · rw [World.edit, hget, if_neg hother.symm]

namespace Leaves

variable {length? : Option Value}

/-- An error that names no length may leave the world as it was. -/
theorem same {e : Error} (other : ∀ n, e ≠ .refused (.frozenLength n)) : Leaves w w id length? e :=
  ⟨.inl rfl, fun n hn => absurd hn (other n)⟩

/-- A refused edit that leaves the object as it was leaves the world as it was. -/
theorem edit {e : Edit} {r : Refusal} (kept : e.apply (w.heap.get id) = w.heap.get id)
    (length : ∀ n, r = .frozenLength n → (w.heap.get id).length = n) :
    Leaves w (w.edit id e) id length? (.refused r) := by
  rw [World.edit_of_same kept]
  refine ⟨.inl rfl, ?_⟩
  rintro n ⟨⟩
  exact length n rfl

/-- A length that was stopped is what the refusal names. -/
theorem stopped {w' : World σ} {value : Value} {n b : Nat}
    (integer : value.primitiveNumber.toInt? = some (n : Int)) (h : Stopped w w' id n b) :
    Leaves w w' id (some value) (.refused (.frozenLength (b + 1))) := by
  refine ⟨.inr ⟨value, n, b, rfl, integer, rfl, h⟩, ?_⟩
  rintro m ⟨⟩
  obtain ⟨writable, hshrunk⟩ := h.shrunk
  exact hshrunk.length

end Leaves

/-- What is left of a refused definition of an array's length with a number. -/
theorem leaves_afterConversion {value : Value} (array : (w.heap.get id).isArray = true)
    (inOrder : (w.heap.get id).LengthInOrder) {e : Error}
    (refused : (afterConversion id d true value.primitiveNumber w).1 = .error e) :
    Leaves w (afterConversion id d true value.primitiveNumber w).2 id (some value) e := by
  rw [afterConversion] at refused ⊢
  split
  · next hequals =>
    rw [if_pos hequals] at refused
    dsimp only at refused ⊢
    have hword : value.primitiveNumber.toUint32 < 2 ^ 32 := Number.toUint32_lt _
    have hinteger := (Number.equals_ofNat_iff (Nat.lt_of_lt_of_le hword (by decide)) _).1 hequals
    generalize value.primitiveNumber.toUint32 = n at hinteger refused
    obtain ⟨r, hr, rfl⟩ := Verdict.refused_of_answer refused
    rcases Object.defineLength_refused inOrder d hr with
      ⟨hsame, hlength⟩ | ⟨smaller, b, highest, rfl, hshrunk⟩
    · exact .edit hsame hlength
    · exact .stopped hinteger (.edit array smaller highest hshrunk)
  · next hequals =>
    rw [if_neg hequals] at refused
    cases refused
    exact .same fun n hn => by cases hn

/-- What is left by a refused definition, if no value is converted but a primitive one. -/
theorem leaves_define (run : Callback σ)
    (inOrder : (w.heap.get id).isArray = true → (w.heap.get id).LengthInOrder)
    (primitive : ∀ value, converts w.heap id key d = some value → value.isPrimitive = true) {e : Error}
    (refused : ((define run id key d true).outcome w).1 = .error e) :
    Leaves w ((define run id key d true).outcome w).2 id (converts w.heap id key d) e := by
  cases hconverts : converts w.heap id key d with
  | none =>
    rw [outcome_define run hconverts] at refused ⊢
    obtain ⟨r, hr, rfl⟩ := Verdict.refused_of_answer refused
    obtain ⟨hsame, hlength⟩ := Object.spares_define _ key d r hr
    exact .edit hsame hlength
  | some value =>
    have array : (w.heap.get id).isArray = true := by
      rw [converts, Option.ite_none_right_eq_some, Bool.and_eq_true] at hconverts
      exact hconverts.1.1
    rw [outcome_define_converting run hconverts,
      outcome_toNumber run (primitive value hconverts)] at refused ⊢
    exact leaves_afterConversion array (inOrder array) refused

/-- A strict assignment that calls no setter is refused with everything as it was, or is the definition of
the value. -/
theorem outcome_put_cases (run : Callback σ) (noSetter : w.heap.NoSetter id key) (v : Value) :
    (∃ e : Error, (∀ n, e ≠ .refused (.frozenLength n))
        ∧ (put run id key v true).outcome w = (.error e, w))
      ∨ ∃ d : Descriptor, d.value = some v
        ∧ (put run id key v true).outcome w = (discard (define run id key d true)).outcome w := by
  by_cases refuses : w.heap.RefusesPut id key
  · exact .inl ⟨.refused (.readOnlyAssignment key), nofun, outcome_put_of_refuses run refuses v true⟩
  rw [outcome_put_of_not_refuses run refuses]
  split
  · exact .inr ⟨_, rfl, rfl⟩
  by_cases hsetter : ∃ g s a, w.heap.property? id key = some (.accessor g s a)
  · -- there is a setter, since the assignment is not refused, but it cannot be called
    obtain ⟨g, s, a, nearest⟩ := hsetter
    obtain ⟨f, rfl, function⟩ := exists_setter refuses nearest
    obtain ⟨what, hwhat⟩ :=
      outcome_call_of_not_callable run (noSetter g f a nearest) (.object id) [v]
    rw [outcome_putInherited_setter run nearest function, outcome_discard, hwhat]
    exact .inl ⟨.notCallable what, nofun, rfl⟩
  · refine .inr ⟨_, rfl, outcome_putInherited_new run (fun g s a nearest => ?_) v true⟩
    exact hsetter ⟨g, s, a, nearest⟩

/-- What a definition converts depends on the value that it names. -/
theorem converts_congr {d' : Descriptor} (same : d.value = d'.value) (h : Heap) :
    converts h id key d = converts h id key d' := by
  rw [converts, converts, same]

/-- What is left by a refused assignment that calls no setter, if no value is converted but a primitive
one. -/
theorem leaves_put (run : Callback σ) {v : Value}
    (inOrder : (w.heap.get id).isArray = true → (w.heap.get id).LengthInOrder)
    (primitive : ∀ value, converts w.heap id key (.ofValue v) = some value → value.isPrimitive = true)
    (noSetter : w.heap.NoSetter id key) {e : Error}
    (refused : ((put run id key v true).outcome w).1 = .error e) :
    Leaves w ((put run id key v true).outcome w).2 id (converts w.heap id key (.ofValue v)) e := by
  rcases outcome_put_cases run noSetter v with ⟨e', hlength, hput⟩ | ⟨d, hvalue, hput⟩
  · rw [hput] at refused ⊢
    cases refused
    exact .same hlength
  · rw [← converts_congr (d := d) hvalue] at primitive ⊢
    rw [hput, outcome_discard] at refused ⊢
    refine leaves_define run inOrder primitive ?_
    dsimp only at refused
    generalize ((define run id key d true).outcome w).1 = answer at refused ⊢
    cases answer with
    | ok => cases refused
    | error e' =>
      cases refused
      rfl

end Protocol

namespace Request

/-- The object that is asked. -/
def id : Request → ObjectId
  | define id _ _ | ordinaryDefine id _ _ | delete id _ => id

/-- The value that the operation converts to a number first. -/
def converts (h : Heap) : Request → Option Value
  | define id key d => Protocol.converts h id key d
  | ordinaryDefine .. | delete .. => none

/-- What is left by a refused request, if no value is converted but a primitive one. -/
theorem leaves (run : Callback σ) {w : World σ} (r : Request)
    (inOrder : (w.heap.get r.id).isArray = true → (w.heap.get r.id).LengthInOrder)
    (primitive : ∀ value, r.converts w.heap = some value → value.isPrimitive = true) {e : Error}
    (refused : ((r.perform run true).outcome w).1 = .error e) :
    Protocol.Leaves w ((r.perform run true).outcome w).2 r.id (r.converts w.heap) e := by
  cases r with
  | define id key d => exact Protocol.leaves_define run inOrder primitive refused
  | ordinaryDefine id key d =>
    rw [perform, Protocol.ordinaryDefine, outcome_attempt] at refused ⊢
    obtain ⟨r, hr, rfl⟩ := Verdict.refused_of_answer refused
    obtain ⟨hsame, hlength⟩ := Object.spares_ordinaryDefine _ key d r hr
    exact .edit (e := .ordinaryDefine key d) hsame hlength
  | delete id key =>
    rw [perform, Protocol.delete, outcome_attempt] at refused ⊢
    obtain ⟨r, hr, rfl⟩ := Verdict.refused_of_answer refused
    obtain ⟨hsame, hlength⟩ := Object.spares_delete _ key r hr
    exact .edit (e := .delete key) hsame hlength

end Request

namespace Assignment

/-- The object that is assigned to. -/
def id : Assignment → ObjectId
  | put id _ _ | setIndex id _ _ => id

/-- The key of the property that is assigned. -/
def key : Assignment → Key
  | put _ key _ => key
  | setIndex _ i _ => .ofWord i

/-- The value that is assigned. -/
def value : Assignment → Value
  | put _ _ value | setIndex _ _ value => value

/-- The value that the operation converts to a number, if it comes to that. -/
def converts (h : Heap) (a : Assignment) : Option Value :=
  Protocol.converts h a.id a.key (.ofValue a.value)

/-- What is left by a refused assignment that calls no setter, if no value is converted but a primitive
one. -/
theorem leaves (run : Callback σ) {w : World σ} (a : Assignment)
    (inOrder : (w.heap.get a.id).isArray = true → (w.heap.get a.id).LengthInOrder)
    (primitive : ∀ value, a.converts w.heap = some value → value.isPrimitive = true)
    (noSetter : w.heap.NoSetter a.id a.key) {e : Error}
    (refused : ((a.perform run true).outcome w).1 = .error e) :
    Protocol.Leaves w ((a.perform run true).outcome w).2 a.id (a.converts w.heap) e := by
  cases a with
  | put id key v => exact Protocol.leaves_put run inOrder primitive noSetter refused
  | setIndex id i v =>
    rw [perform, Protocol.outcome_setIndex] at refused ⊢
    split
    · next hdone =>
      rw [if_pos hdone] at refused
      cases refused
    · next hkept =>
      rw [if_neg hkept] at refused
      exact Protocol.leaves_put run inOrder primitive noSetter refused

end Assignment

namespace Protocol

/-- An operation that is refused by the protocol leaves everything as it was, unless it was to shrink an
array and was stopped on the way; and if the strict error names a length, that is the length of the array
afterwards.

A request is refused if its answer is not that it was accepted. An assignment is refused if it is an error
to the strict caller; the error is the protocol's own if no setter is called. The length of the array must
be in order, and the value that is converted to a number, if there is one, must be a primitive one. -/
theorem refusal_atomic (run : Callback σ) (w : World σ) (strict : Bool) :
    (∀ r : Request, ((w.heap.get r.id).isArray = true → (w.heap.get r.id).LengthInOrder) →
        (∀ value, r.converts w.heap = some value → value.isPrimitive = true) →
        ((r.perform run strict).outcome w).1 ≠ .ok true →
        ∃ e, ((r.perform run true).outcome w).1 = .error e
          ∧ Leaves w ((r.perform run strict).outcome w).2 r.id (r.converts w.heap) e)
      ∧ ∀ a : Assignment, ((w.heap.get a.id).isArray = true → (w.heap.get a.id).LengthInOrder) →
        (∀ value, a.converts w.heap = some value → value.isPrimitive = true) →
        w.heap.NoSetter a.id a.key →
        ∀ e, ((a.perform run true).outcome w).1 = .error e →
          Leaves w ((a.perform run strict).outcome w).2 a.id (a.converts w.heap) e := by
  constructor
  · intro r inOrder primitive refused
    obtain ⟨hworld, hanswers⟩ := r.dual run w
    have hsame : ((r.perform run strict).outcome w).2 = ((r.perform run true).outcome w).2 := by
      cases strict with
      | false => exact hworld.symm
      | true => rfl
    have hrefused : ((r.perform run true).outcome w).1 ≠ .ok true := by
      cases strict with
      | false => exact fun accepted => refused (hanswers.accepted.2 accepted)
      | true => exact refused
    cases hstrict : ((r.perform run true).outcome w).1 with
    | ok answer =>
      rw [hstrict] at hrefused
      cases answer with
      | false => exact absurd hstrict hanswers.ne_false
      | true => exact absurd rfl hrefused
    | error e =>
      rw [hsame]
      exact ⟨e, rfl, r.leaves run inOrder primitive hstrict⟩
  · intro a inOrder primitive noSetter e refused
    have hsame : ((a.perform run strict).outcome w).2 = ((a.perform run true).outcome w).2 := by
      cases strict with
      | false => exact (a.dual run w).1.symm
      | true => rfl
    rw [hsame]
    exact a.leaves run inOrder primitive noSetter refused

/-- A deletion that is refused leaves the world as it was. An assignment of a length of zero that is stopped
by a pinned element leaves a length of two. -/
theorem refusal_atomic_pinned :
    (((Request.delete ⟨0⟩ .length).perform (fun _ _ _ => pure .undefined) false).outcome
          pinnedWorld).2 = pinnedWorld
      ∧ (((Assignment.put ⟨0⟩ .length (.ofNat 0)).perform (fun _ _ _ => pure .undefined) true).outcome
          pinnedWorld).1 = .error (.refused (.frozenLength 2))
      ∧ ((((Assignment.put ⟨0⟩ .length (.ofNat 0)).perform (fun _ _ _ => pure .undefined) false).outcome
          pinnedWorld).2.heap.get ⟨0⟩).length = 2 := by
  have hlength : pinnedArray.HasLength 3 true := by
    refine (Object.HasLength.arrayOf [.null, .null, .null]).store (by simp [Key.length]) _ fun i hi => ?_
    cases hi
    decide
  have noSetter : pinnedWorld.heap.NoSetter ⟨0⟩ .length := by
    intro g f a nearest
    have hown : pinnedWorld.heap.property? ⟨0⟩ .length
        = some (.data (.ofNat 3) ⟨true, false, false⟩) := by
      rw [Heap.property?_eq]
      exact congrArg (Option.or · _) hlength.own
    rw [hown] at nearest
    cases nearest
  have primitive : ∀ value, converts pinnedWorld.heap ⟨0⟩ .length (.ofValue (.ofNat 0)) = some value →
      value.isPrimitive = true := by
    intro value hvalue
    rw [converts, Option.ite_none_right_eq_some] at hvalue
    rw [← Option.some.inj hvalue.2]
    rfl
  have refused : (((Assignment.put ⟨0⟩ .length (.ofNat 0)).perform (fun _ _ _ => pure .undefined)
      true).outcome pinnedWorld).1 = .error (.refused (.frozenLength 2)) := by
    decide +kernel
  obtain ⟨hrequests, hassignments⟩ :=
    refusal_atomic (fun _ _ _ => pure .undefined) pinnedWorld false
  obtain ⟨e, -, hdeletion⟩ :=
    hrequests (.delete ⟨0⟩ .length) (fun _ => hlength.inOrder) (fun _ hvalue => by cases hvalue)
      (by decide)
  have hassignment := hassignments (.put ⟨0⟩ .length (.ofNat 0)) (fun _ => hlength.inOrder)
    primitive noSetter _ refused
  refine ⟨?_, refused, hassignment.length 2 rfl⟩
  obtain hsame | ⟨value, n, b, hvalue, -⟩ := hdeletion.world
  · exact hsame
  · cases hvalue

end Protocol

end ObjectModel
