import ObjectModel.Proofs.Object.Revaluation
import ObjectModel.Proofs.Protocol.OrdinaryDefine

/-!
# Assignment

ES5.1 8.12.5 gives an assignment four ways to go. It is refused, or it redefines the value that the object
has of its own, or it calls a setter, or it defines a new property. `Heap.RefusesPut` lists the reasons for
a refusal as the standard does, and `Protocol.put_standard` says what comes of an assignment in each case.

There are two implementations. The one for arrays redefines an own value; the other one overwrites it in
place. Both come to the same for every object (`Protocol.outcome_put`), so what is proved of one holds of
the other.
-/

namespace ObjectModel

open ObjectModel.Action

variable {σ : Type}

namespace Object

/-- The definition of an element below an array's length is an ordinary one, and so are all others. -/
theorem define_eq_ordinaryDefine (o : Object) (key : Key) (d : Descriptor)
    (below : o.isArray = true → ∀ i, key = .index i → i.val < o.lengthState.1) :
    o.define key d = o.ordinaryDefine key d := by
  rw [define.eq_def]
  split
  · next elements i hkind =>
    have array : o.isArray = true := by rw [isArray, toClass, hkind]; rfl
    have hi := Nat.not_le_of_lt (below array i rfl)
    rw [defineIndex]
    dsimp only
    rw [if_neg fun h => hi h.1]
    simp only [hi, if_false]
    obtain ⟨_ | _, p⟩ := o.ordinaryDefine (.index i) d <;> rfl
  · rfl

end Object

/-! ## When an assignment is refused -/

namespace Heap

/-- There is no function: none is stored, or only `undefined`. -/
def NoFunction (f : Option Value) : Prop := ∀ v, f = some v → v = .undefined

/-- The reasons for which an assignment is refused. -/
inductive RefusesPut (h : Heap) (id : ObjectId) (key : Key) : Prop
  /-- The object has a value of its own, and it is read-only. -/
  | ownReadOnly {v a} (own : (h.get id).find? key = some (.data v a)) (readOnly : a.writable = false)
  /-- The object has an accessor of its own, without a setter. -/
  | ownWithoutSetter {g s a} (own : (h.get id).find? key = some (.accessor g s a))
    (without : NoFunction s)
  /-- The object inherits an accessor without a setter. -/
  | inheritedWithoutSetter {g s a} (own : (h.get id).find? key = none)
    (inherited : h.inherited? id key = some (.accessor g s a)) (without : NoFunction s)
  /-- The object needs a new property and takes none: it inherits nothing or a value. -/
  | notExtensible (own : (h.get id).find? key = none)
    (inherited : ∀ g s a, h.inherited? id key ≠ some (.accessor g s a))
    (closed : (h.get id).extensible = false)
  /-- The object inherits a value that is read-only. -/
  | inheritedReadOnly {v a} (own : (h.get id).find? key = none)
    (inherited : h.inherited? id key = some (.data v a)) (readOnly : a.writable = false)

variable {h : Heap} {id : ObjectId} {key : Key}

/-- An accessor does not accept an assignment if there is no function. -/
theorem acceptsPut_accessor (g s : Option Value) (a : Attributes) :
    (Property.accessor g s a).acceptsPut = false ↔ NoFunction s := by
  rw [Property.acceptsPut, NoFunction, Option.any_eq_false]
  refine forall_congr' fun v => imp_congr_right fun _ => ?_
  cases v <;> simp [Value.isUndefined]

/-- An assignment is not allowed exactly if there is a reason to refuse it. -/
theorem refusesPut_iff : h.RefusesPut id key ↔ h.canPut id key = false := by
  rw [canPut]
  constructor
  · intro hrefuses
    cases hrefuses with
    | ownReadOnly own readOnly => rw [own]; exact readOnly
    | ownWithoutSetter own without => rw [own]; exact (acceptsPut_accessor ..).2 without
    | inheritedWithoutSetter own inherited without =>
      rw [own, inherited]
      dsimp only
      rw [(acceptsPut_accessor ..).2 without, Bool.false_and]
    | notExtensible own inherited closed =>
      rw [own, closed]
      cases hinherited : h.inherited? id key with
      | none => rfl
      | some p =>
        cases p with
        | data v a => exact Bool.and_false _
        | accessor g s a => exact absurd hinherited (inherited g s a)
    | inheritedReadOnly own inherited readOnly =>
      rw [own, inherited]
      dsimp only
      rw [Property.acceptsPut, readOnly, Bool.false_and]
  · intro hcanPut
    cases hown : (h.get id).find? key with
    | some p =>
      rw [hown] at hcanPut
      cases p with
      | data v a => exact .ownReadOnly hown hcanPut
      | accessor g s a => exact .ownWithoutSetter hown ((acceptsPut_accessor ..).1 hcanPut)
    | none =>
      rw [hown] at hcanPut
      cases hinherited : h.inherited? id key with
      | none =>
        rw [hinherited] at hcanPut
        exact .notExtensible hown (by simp [hinherited]) hcanPut
      | some p =>
        rw [hinherited] at hcanPut
        cases p with
        | accessor g s a =>
          refine .inheritedWithoutSetter hown hinherited ((acceptsPut_accessor g s a).1 ?_)
          simpa [Property.isAccessor, Property.isData] using hcanPut
        | data v a =>
          cases hwritable : a.writable with
          | false => exact .inheritedReadOnly hown hinherited hwritable
          | true =>
            refine .notExtensible hown (by simp [hinherited]) ?_
            simpa [Property.acceptsPut, hwritable, Property.isAccessor, Property.isData] using hcanPut

/-- The nearest property on the chain is the object's own or, if there is none, the nearest inherited
one. -/
theorem property?_eq (h : Heap) (id : ObjectId) (key : Key) :
    h.property? id key = ((h.get id).find? key).or (h.inherited? id key) := by
  rw [property?, chain, List.findSome?_cons, inherited?]
  cases (h.get id).find? key <;> rfl

end Heap

namespace Protocol

variable {w : World σ} {id : ObjectId} {key : Key} {v₀ v : Value} {a : Attributes}

/-! ## The two implementations -/

/-- A writable value is overwritten. -/
theorem overwrite_of_writable {o : Object} (found : o.find? key = some (.data v₀ a))
    (writable : a.writable = true) (v : Value) :
    overwrite v key o = (true, o.store key (.data v a)) := by
  rw [overwrite, found]
  exact if_pos writable

/-- Nothing else is. -/
theorem overwrite_of_not_writable {o : Object}
    (other : ∀ v a, o.find? key = some (.data v a) → a.writable = false) (v : Value) :
    overwrite v key o = (false, o) := by
  rw [overwrite]
  split
  · next v₀ a found => exact if_neg (Bool.eq_false_iff.1 (other v₀ a found))
  · rfl

/-- On an object that is no array, redefining a writable value comes to overwriting it. -/
theorem outcome_define_ofValue (run : Callback σ) (plain : (w.heap.get id).isArray = false)
    (found : (w.heap.get id).find? key = some (.data v₀ a)) (writable : a.writable = true)
    (strict : Bool) :
    (define run id key (.ofValue v) strict).outcome w
      = (.ok true, ⟨(w.heap.alter id (overwrite v key)).2, w.host⟩) := by
  have hdefine : (w.heap.get id).define key (.ofValue v)
      = (.accepted, (w.heap.get id).store key (.data v a)) := by
    rw [Object.define_eq_ordinaryDefine _ _ _ (fun array => by rw [plain] at array; cases array),
      Object.ordinaryDefine_ofValue found, writable, Bool.or_true, if_pos rfl]
    split
    · next hsame =>
      rw [Value.same_iff.1 hsame, Object.store_self plain found]
    · rfl
  have hconverts : converts w.heap id key (.ofValue v) = none := by
    rw [converts, plain]
    rfl
  have hworld : w.edit id (.define key (.ofValue v))
      = ⟨(w.heap.alter id (overwrite v key)).2, w.host⟩ := by
    rw [World.edit, Heap.edit, Heap.alter_congr (g := overwrite v key)]
    rw [Edit.act, hdefine, overwrite_of_writable found writable]
  rw [outcome_define run hconverts, hdefine, hworld]
  rfl

/-- Assignment has one outcome, whichever implementation an object gets. -/
theorem outcome_put (run : Callback σ) (w : World σ) (id : ObjectId) (key : Key) (v : Value)
    (strict : Bool) :
    (put run id key v strict).outcome w = (putOnArray run id key v strict).outcome w := by
  rw [put, outcome_inspect_bind]
  rcases Bool.eq_false_or_eq_true (w.heap.get id).isArray with array | plain
  · rw [if_pos array]
  rw [if_neg (Bool.eq_false_iff.1 plain), outcome_bind, outcome_alter, putOnArray, outcome_inspect_bind]
  dsimp only
  -- a writable value is redefined by the one and overwritten by the other; without one, they go on alike
  by_cases hown : ∃ v₀ a, (w.heap.get id).find? key = some (.data v₀ a) ∧ a.writable = true
  · obtain ⟨v₀, a, found, writable⟩ := hown
    have hcanPut : w.heap.canPut id key = true := by
      rw [Heap.canPut, found]
      exact writable
    rw [overwrite_of_writable found writable, if_pos rfl, hcanPut, if_pos rfl, outcome_inspect_bind, found]
    dsimp only
    rw [outcome_discard, outcome_define_ofValue run plain found writable]
    rfl
  · have hreadOnly : ∀ v₀ a, (w.heap.get id).find? key = some (.data v₀ a) → a.writable = false :=
      fun v₀ a found => Bool.eq_false_of_not_eq_true fun writable => hown ⟨v₀, a, found, writable⟩
    have hkept := overwrite_of_not_writable hreadOnly v
    rw [Heap.alter_of_same (by rw [hkept]), hkept, if_neg Bool.false_ne_true, outcome_inspect_bind]
    split
    · next hcanPut =>
      rw [outcome_inspect_bind]
      split
      · next v₀ a found =>
        rw [Heap.canPut, found] at hcanPut
        exact absurd hcanPut (Bool.eq_false_iff.1 (hreadOnly v₀ a found))
      · rfl
    · rfl

/-! ## The four ways of an assignment -/

/-- A refused assignment is a type error or nothing. -/
theorem outcome_put_of_refuses (run : Callback σ) (refuses : w.heap.RefusesPut id key) (v : Value)
    (strict : Bool) :
    (put run id key v strict).outcome w
      = (if strict then .error (.refused (.readOnlyAssignment key)) else .ok (), w) := by
  rw [outcome_put, putOnArray, outcome_inspect_bind, Heap.refusesPut_iff.1 refuses,
    if_neg Bool.false_ne_true]
  cases strict <;> rfl

/-- An assignment that is not refused redefines the value that the object has of its own, and otherwise
depends on what it inherits. -/
theorem outcome_put_of_not_refuses (run : Callback σ) (allowed : ¬ w.heap.RefusesPut id key) (v : Value)
    (strict : Bool) :
    (put run id key v strict).outcome w
      = match (w.heap.get id).find? key with
        | some (.data ..) => (discard (define run id key (.ofValue v) strict)).outcome w
        | _ => (putInherited run id key v strict).outcome w := by
  rw [Heap.refusesPut_iff, Bool.not_eq_false] at allowed
  rw [outcome_put, putOnArray, outcome_inspect_bind, allowed, if_pos rfl, outcome_inspect_bind]
  cases (w.heap.get id).find? key with
  | none => rfl
  | some p => cases p <;> rfl

/-- An assignment through an accessor is the call of its setter. -/
theorem outcome_putInherited_setter (run : Callback σ) {g : Option Value} {f : Value}
    (nearest : w.heap.property? id key = some (.accessor g (some f) a)) (function : f ≠ .undefined)
    (v : Value) (strict : Bool) :
    (putInherited run id key v strict).outcome w
      = (discard (call run f (.object id) [v])).outcome w := by
  have hfilter : (some f).filter (!·.isUndefined) = some f := by
    cases f <;> first | rfl | exact absurd rfl function
  rw [putInherited, outcome_inspect_bind, nearest]
  dsimp only
  rw [hfilter]

/-- An assignment that meets no accessor makes a new property with all attributes. -/
theorem outcome_putInherited_new (run : Callback σ)
    (noAccessor : ∀ g s a, w.heap.property? id key ≠ some (.accessor g s a)) (v : Value)
    (strict : Bool) :
    (putInherited run id key v strict).outcome w
      = (discard (define run id key (.data v .all) strict)).outcome w := by
  rw [putInherited, outcome_inspect_bind]
  split
  · next g s a nearest => exact absurd nearest (noAccessor g s a)
  · rfl

/-- The nearest accessor has a setter unless the assignment is refused. -/
theorem exists_setter (allowed : ¬ w.heap.RefusesPut id key) {g s : Option Value}
    (nearest : w.heap.property? id key = some (.accessor g s a)) : ∃ f, s = some f ∧ f ≠ .undefined := by
  by_contra hnone
  have without : Heap.NoFunction s := fun f hf => by_contra fun function => hnone ⟨f, hf, function⟩
  rw [Heap.property?_eq, Option.or_eq_some_iff] at nearest
  rcases nearest with own | ⟨own, inherited⟩
  · exact allowed (.ownWithoutSetter own without)
  · exact allowed (.inheritedWithoutSetter own inherited without)

/-- The definition of a value alone, seen from where it is decided on, exchanges the value if there is one.
Unless it is of an array's length, it keeps the order of all properties. -/
theorem define_ofValue_revalued (run : Callback σ) (v : Value) (strict : Bool)
    (inOrder : (w.heap.get id).isArray = true → (w.heap.get id).LengthInOrder)
    (found : ((converted run id key (.ofValue v) w).heap.get id).find? key = some (.data v₀ a)) :
    ((converted run id key (.ofValue v) w).heap.get id).Revalued
        (((define run id key (.ofValue v) strict).outcome w).2.heap.get id) key a
      ∧ (converts w.heap id key (.ofValue v) = none →
          (((define run id key (.ofValue v) strict).outcome w).2.heap.get id).keys
            = (w.heap.get id).keys) := by
  have start : ((converted run id key (.ofValue v) w).heap.get id).Revalued
      ((converted run id key (.ofValue v) w).heap.get id) key a := ⟨⟨v₀, found⟩, rfl⟩
  have plain : converts w.heap id key (.ofValue v) = none → converted run id key (.ofValue v) w = w :=
    fun hnone => by rw [converted, hnone]
  rcases world_define_cases run w id key (.ofValue v) strict with
    hleft | ⟨hnone, hedited⟩ | ⟨value, n, hsome, hedited⟩
  · rw [hleft]
    exact ⟨start, fun hnone => by rw [plain hnone]⟩
  · rw [plain hnone] at found start ⊢
    -- an element that is there is below the length, so the length need not be raised
    have hdefine := (w.heap.get id).define_eq_ordinaryDefine key (.ofValue v)
      fun array i hi => (inOrder array).lt_of_find? array (hi ▸ found)
    rw [hedited, World.edit]
    rcases w.heap.get_edit_cases id (.define key (.ofValue v)) id with hkept | ⟨-, hget⟩
    · rw [hkept]
      exact ⟨start, fun _ => rfl⟩
    · rw [hget, Edit.apply, Edit.act, hdefine]
      exact ⟨start.ordinaryDefine v, fun _ => Object.keys_ordinaryDefine_ofValue found v⟩
  · obtain rfl := eq_length_of_converts hsome
    rw [hedited, World.edit, hsome]
    refine ⟨?_, fun hnone => absurd hnone (Option.some_ne_none value)⟩
    rcases Heap.get_edit_cases _ id (.defineLength n (.ofValue v)) id with hkept | ⟨-, hget⟩
    · rw [hkept]
      exact start
    · rw [hget]
      exact .defineLength found n v

/-- What comes of an assignment.

If there is a reason to refuse it, nothing changes, and the answer is a type error or none. Otherwise an
own value is redefined, by a definition of the value alone; it keeps its attributes and its place in the
order of the properties. If it is an array's length, this is so from where the value has been converted.
Without an own value, a setter that is the nearest property is called, once, on the object and with the
value for its only argument; a setter that is no function is a type error. And if there is no accessor
either, the object gets a new property with all attributes. -/
theorem put_standard (run : Callback σ) (w : World σ) (id : ObjectId) (key : Key) (v : Value)
    (strict : Bool)
    (inOrder : (w.heap.get id).isArray = true → (w.heap.get id).LengthInOrder) :
    (w.heap.RefusesPut id key → ∃ e : Error, e.kind = .typeError
        ∧ (put run id key v strict).outcome w = (if strict then .error e else .ok (), w))
      ∧ (¬ w.heap.RefusesPut id key → (∃ v₀ a, (w.heap.get id).find? key = some (.data v₀ a)) →
        (put run id key v strict).outcome w
            = (discard (define run id key (.ofValue v) strict)).outcome w
          ∧ (∀ v₁ a, ((converted run id key (.ofValue v) w).heap.get id).find? key = some (.data v₁ a) →
            ((converted run id key (.ofValue v) w).heap.get id).Revalued
              (((put run id key v strict).outcome w).2.heap.get id) key a)
          ∧ (converts w.heap id key (.ofValue v) = none →
            (((put run id key v strict).outcome w).2.heap.get id).keys = (w.heap.get id).keys))
      ∧ (¬ w.heap.RefusesPut id key →
        ∀ g s a, w.heap.property? id key = some (.accessor g s a) → ∃ setter, s = some setter
          ∧ setter ≠ .undefined
          ∧ ((∃ f, setter = .object f ∧ w.heap.classOf f = .function
              ∧ (put run id key v strict).outcome w = (discard (run f (.object id) [v])).outcome w)
            ∨ setter.isCallable w.heap.classOf = false
              ∧ ∃ e : Error, e.kind = .typeError
                ∧ (put run id key v strict).outcome w = (.error e, w)))
      ∧ (¬ w.heap.RefusesPut id key → (w.heap.get id).find? key = none →
        (∀ g s a, w.heap.property? id key ≠ some (.accessor g s a)) →
        (put run id key v strict).outcome w
          = (discard (define run id key (.data v .all) strict)).outcome w) := by
  refine ⟨?refused, ?own, ?setter, ?new⟩
  case refused =>
    intro refuses
    exact ⟨.refused (.readOnlyAssignment key), rfl, outcome_put_of_refuses run refuses v strict⟩
  case own =>
    rintro allowed ⟨v₀, a₀, found⟩
    have hput : (put run id key v strict).outcome w
        = (discard (define run id key (.ofValue v) strict)).outcome w := by
      rw [outcome_put_of_not_refuses run allowed, found]
    have hworld : ((put run id key v strict).outcome w).2
        = ((define run id key (.ofValue v) strict).outcome w).2 := by
      rw [hput, outcome_discard]
    rw [hworld]
    refine ⟨hput, ?_, ?_⟩
    · intro v₁ a hfound
      exact (define_ofValue_revalued run v strict inOrder hfound).1
    · intro hnone
      have hfound : ((converted run id key (.ofValue v) w).heap.get id).find? key
          = some (.data v₀ a₀) := by rw [converted, hnone]; exact found
      exact (define_ofValue_revalued run v strict inOrder hfound).2 hnone
  case setter =>
    intro allowed g s a nearest
    obtain ⟨setter, rfl, function⟩ := exists_setter allowed nearest
    refine ⟨setter, rfl, function, ?_⟩
    have hput : (put run id key v strict).outcome w
        = (discard (call run setter (.object id) [v])).outcome w := by
      rw [outcome_put_of_not_refuses run allowed]
      split
      · next v₀ a₀ own =>
        rw [Heap.property?_eq, own] at nearest
        cases nearest
      · exact outcome_putInherited_setter run nearest function v strict
    rw [hput, outcome_discard]
    rcases outcome_call_cases run w setter (.object id) [v] with
      ⟨f, hf, hfunction, hcall⟩ | ⟨hcallable, e, he, hcall⟩
    · exact .inl ⟨f, hf, hfunction, by rw [hcall, outcome_discard]⟩
    · exact .inr ⟨hcallable, e, he, by rw [hcall]; rfl⟩
  case new =>
    intro allowed own noAccessor
    rw [outcome_put_of_not_refuses run allowed, own]
    exact outcome_putInherited_new run noAccessor v strict

/-- A host that keeps a list of the calls that it is given. -/
def listing : Callback (List (ObjectId × Value × List Value)) := fun f this arguments w =>
  .ok .undefined ⟨w.heap, w.host ++ [(f, this, arguments)]⟩

/-- A world with an empty array that inherits a setter for an element. -/
def setterWorld : World (List (ObjectId × Value × List Value)) where
  heap := ⟨#[(Object.ordinary []).store (.ofWord 0)
      (.accessor none (some (.object ⟨1⟩)) .all), .function, .array [⟨0⟩] 0 {}]⟩
  host := []

/-- An inherited setter is called on the array that is assigned to, and the array stays empty. -/
theorem put_standard_inherited :
    (setterWorld.heap.get ⟨2⟩).LengthInOrder
      ∧ (put listing ⟨2⟩ (.ofWord 0) .null true).outcome setterWorld
        = (.ok (), ⟨setterWorld.heap, [(⟨1⟩, .object ⟨2⟩, [.null])]⟩) := by
  have inOrder : (setterWorld.heap.get ⟨2⟩).LengthInOrder := (Object.HasLength.array [⟨0⟩] 0 {}).inOrder
  have allowed : ¬ setterWorld.heap.RefusesPut ⟨2⟩ (.ofWord 0) := by
    rw [Heap.refusesPut_iff]
    decide
  have nearest : setterWorld.heap.property? ⟨2⟩ (.ofWord 0)
      = some (.accessor none (some (.object ⟨1⟩)) .all) := by decide
  obtain ⟨-, -, hsetter, -⟩ := put_standard listing setterWorld ⟨2⟩ (.ofWord 0) .null true
    fun _ => inOrder
  obtain ⟨setter, hsome, -, hcalls⟩ := hsetter allowed _ _ _ nearest
  cases hsome
  refine ⟨inOrder, ?_⟩
  rcases hcalls with ⟨f, hf, -, hput⟩ | ⟨hcallable, -⟩
  · cases hf
    exact hput
  · exact absurd hcallable (by decide)

end Protocol

end ObjectModel
