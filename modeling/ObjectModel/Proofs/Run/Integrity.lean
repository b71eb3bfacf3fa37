import ObjectModel.Proofs.Object.Steps
import ObjectModel.Proofs.Run.History

/-!
# The integrity of properties during a run

A property that is not configurable is there for the rest of the run. Later on it may have been hardened,
as `Property.Hardens` says, and nothing else can have become of it: a value may change as long as it is
writable, may become read-only, and then stays; functions stay. So the length of an array is constant
once it is read-only, and no element appears at or past it (`Host.integrity`).

The run may be that of any program with any host, from the empty heap. The one thing excluded is the
removal that asks nothing: of the property in question, and of the length of any array. For the elements
of an array with a read-only length, definitions by the rules that hold for all objects are excluded too;
they know nothing of lengths.
-/

namespace ObjectModel

variable {σ α : Type}

/-- An edit by the rules is not a removal that asks nothing. -/
theorem Edit.Ruled.asks {e : Edit} {o : Object} (ruled : e.Ruled o) (key : Key) : e ≠ .erase key := by
  rintro rfl
  exact ruled

/-- An edit by the rules is not an ordinary definition. -/
theorem Edit.Ruled.byRules {e : Edit} {o : Object} (ruled : e.Ruled o) (key : Key) (d : Descriptor) :
    e ≠ .ordinaryDefine key d := by
  rintro rfl
  exact ruled

namespace Heap

/-- All objects are regular. -/
def Regular (h : Heap) : Prop := ∀ id, (h.get id).Regular

variable {h : Heap}

/-- Objects stay regular under every edit but the removal of an array's length. -/
theorem Regular.edit (regular : h.Regular) (id : ObjectId) {e : Edit}
    (kept : ∀ key, e = .erase key → h.classOf id = .array → key ≠ .length) :
    (h.edit id e).Regular := by
  intro other
  rcases h.get_edit_cases id e other with hsame | ⟨rfl, hedited⟩
  · rw [hsame]
    exact regular other
  · rw [hedited]
    by_cases herase : ∃ key, e = .erase key
    · obtain ⟨key, rfl⟩ := herase
      exact (regular id).erase fun array => kept key rfl (beq_iff_eq.1 array)
    · exact (e.steps (regular id) fun key hkey => herase ⟨key, hkey⟩).regular (regular id)

/-- Objects stay regular when another one is made. -/
theorem Regular.allocate (regular : h.Regular) {o : Object} (fresh : o.Fresh) :
    (h.allocate o).2.Regular := by
  intro id
  rcases h.get_allocate_cases o id with hsame | ⟨-, hnew⟩
  · rw [hsame]
    exact regular id
  · rw [hnew]
    exact .of_fresh fresh

/-- An edit at most hardens a property that is not configurable, unless it takes it away without
asking. -/
theorem Regular.hardens_edit (regular : h.Regular) {id : ObjectId} {key : Key} {p : Property}
    (found : (h.get id).find? key = some p) (fixed : p.isConfigurable = false) (edited : ObjectId)
    {e : Edit} (kept : ∀ key', e = .erase key' → edited = id → key' ≠ key) :
    ∃ q, ((h.edit edited e).get id).find? key = some q ∧ p.Hardens q := by
  rcases h.get_edit_cases edited e id with hsame | ⟨rfl, hedited⟩
  · rw [hsame]
    exact ⟨p, found, .refl fixed⟩
  · rw [hedited]
    by_cases herase : ∃ key', e = .erase key'
    · obtain ⟨key', rfl⟩ := herase
      refine ⟨p, ?_, .refl fixed⟩
      exact (Object.find?_erase ..).trans ((if_neg (kept key' rfl rfl)).trans found)
    · exact (e.steps (regular edited) fun key' hkey => herase ⟨key', hkey⟩).hardens (regular edited)
        found fixed

/-- An object with a property has been made. -/
theorem has_of_find? {id : ObjectId} {key : Key} {p : Property}
    (found : (h.get id).find? key = some p) : h.Has id := by
  by_contra outside
  rw [get_of_not_has outside] at found
  cases found

/-- The object has a property under the key that may have come of `p`. -/
structure Keeps (h : Heap) (id : ObjectId) (key : Key) (p : Property) : Prop where
  regular : h.Regular
  hardened : ∃ q, (h.get id).find? key = some q ∧ p.Hardens q

namespace Keeps

variable {id : ObjectId} {key : Key} {p : Property}

/-- An edit keeps what may have come of the property, unless it takes it away without asking, or a
length. -/
theorem edit (keeps : h.Keeps id key p) (edited : ObjectId) {e : Edit}
    (lengths : ∀ key', e = .erase key' → h.classOf edited = .array → key' ≠ .length)
    (kept : ∀ key', e = .erase key' → edited = id → key' ≠ key) :
    (h.edit edited e).Keeps id key p := by
  obtain ⟨q, found, hardened⟩ := keeps.hardened
  obtain ⟨q', found', hardened'⟩ :=
    keeps.regular.hardens_edit found hardened.isConfigurable edited kept
  exact ⟨keeps.regular.edit edited lengths, q', found', hardened.trans hardened'⟩

/-- A new object is another one. -/
theorem allocate (keeps : h.Keeps id key p) {o : Object} (fresh : o.Fresh) :
    (h.allocate o).2.Keeps id key p := by
  obtain ⟨q, found, hardened⟩ := keeps.hardened
  refine ⟨keeps.regular.allocate fresh, q, ?_, hardened⟩
  rw [(h.get_allocate_cases o id).resolve_right fun hnew => hnew.1 (has_of_find? found)]
  exact found

end Keeps

/-- An object is an array, and its length is `n` and read-only. -/
structure ReadOnlyLength (h : Heap) (id : ObjectId) (n : Nat) : Prop where
  regular : h.Regular
  array : h.classOf id = .array
  state : (h.get id).lengthState = (n, false)

namespace ReadOnlyLength

variable {id : ObjectId} {n : Nat}

/-- No edit changes a read-only length, unless it takes it away. -/
theorem edit (readOnly : h.ReadOnlyLength id n) (edited : ObjectId) {e : Edit}
    (kept : ∀ key, e = .erase key → h.classOf edited = .array → key ≠ .length) :
    (h.edit edited e).ReadOnlyLength id n := by
  have array := readOnly.array
  refine ⟨readOnly.regular.edit edited kept, (h.classOf_edit ..).trans array, ?_⟩
  -- the length is a property that is not configurable: at most it is hardened, and it is hard already
  obtain ⟨v, a, found, fixed⟩ := (readOnly.regular id).length (beq_iff_eq.2 array)
  have hstate := readOnly.state
  rw [Object.lengthState, found, Prod.mk.injEq] at hstate
  obtain ⟨q, found', hardened⟩ := readOnly.regular.hardens_edit found fixed edited (e := e)
    fun key' erases same => kept key' erases (same ▸ array)
  cases hardened with
  | data _ _ _ unchanged =>
    obtain ⟨hwritable, rfl⟩ := unchanged hstate.2
    rw [Object.lengthState, found']
    exact Prod.ext hstate.1 hwritable

/-- A new object is another one. -/
theorem get_allocate (readOnly : h.ReadOnlyLength id n) (o : Object) :
    (h.allocate o).2.get id = h.get id := by
  refine (h.get_allocate_cases o id).resolve_right fun hnew => ?_
  have array := readOnly.array
  rw [classOf, get_of_not_has hnew.1] at array
  cases array

/-- A new object changes no length. -/
theorem allocate (readOnly : h.ReadOnlyLength id n) {o : Object} (fresh : o.Fresh) :
    (h.allocate o).2.ReadOnlyLength id n := by
  have hsame := readOnly.get_allocate o
  refine ⟨readOnly.regular.allocate fresh, ?_, ?_⟩
  · rw [classOf, hsame]
    exact readOnly.array
  · rw [hsame]
    exact readOnly.state

end ReadOnlyLength

/-- An object is an array, and its length is `n`, read-only, and past every element. -/
structure SealedLength (h : Heap) (id : ObjectId) (n : Nat) : Prop extends h.ReadOnlyLength id n where
  covers : ∀ i, ((h.get id).element? i).isSome = true → i < n

namespace SealedLength

variable {id : ObjectId} {n : Nat}

/-- No edit makes an element at or past a read-only length, unless it is an ordinary definition. -/
theorem edit (covering : h.SealedLength id n) (edited : ObjectId) {e : Edit}
    (kept : ∀ key, e = .erase key → h.classOf edited = .array → key ≠ .length)
    (byRules : edited = id → ∀ key d, e ≠ .ordinaryDefine key d) :
    (h.edit edited e).SealedLength id n := by
  refine ⟨covering.toReadOnlyLength.edit edited kept, fun i occupied => ?_⟩
  rcases h.get_edit_cases edited e id with hsame | ⟨rfl, hedited⟩
  · rw [hsame] at occupied
    exact covering.covers i occupied
  · rw [hedited] at occupied
    exact Object.covers_of_readOnly covering.state covering.covers (beq_iff_eq.2 covering.array)
      (byRules rfl) occupied

/-- A new object makes no element of another one. -/
theorem allocate (covering : h.SealedLength id n) {o : Object} (fresh : o.Fresh) :
    (h.allocate o).2.SealedLength id n := by
  refine ⟨covering.toReadOnlyLength.allocate fresh, ?_⟩
  rw [covering.get_allocate o]
  exact covering.covers

end SealedLength

end Heap

namespace History

variable {start heap : Heap} {log : List Event}

/-- Objects stay regular as long as no operation takes the length of an array away. -/
theorem regular (history : History start log heap) (base : start.Regular)
    (kept : ∀ e ∈ log, e.removesLength = false) : heap.Regular ∧ ∀ e ∈ log, e.heap.Regular :=
  history.invariant (I := Heap.Regular) (P := fun e => e.removesLength = false) base
    (fun _ id _ regular ruled => regular.edit id fun key erases => absurd erases (ruled.asks key))
    (fun _ _ regular => regular.allocate)
    (fun _ _ id _ _ regular made kept => regular.edit id (Event.ne_length_of_removesLength made kept))
    kept

/-- What may have come of a property is kept, as long as no operation takes it away, or the length of an
array. -/
theorem keeps (history : History start log heap) {id : ObjectId} {key : Key} {p : Property}
    (base : start.Keeps id key p) (kept : ∀ e ∈ log, e.removesLength = false)
    (stays : ∀ e ∈ log, e.removes id key = false) :
    heap.Keeps id key p ∧ ∀ e ∈ log, e.heap.Keeps id key p :=
  history.invariant (I := (Heap.Keeps · id key p))
    (P := fun e => e.removesLength = false ∧ e.removes id key = false) base
    (fun _ edited _ keeps ruled => keeps.edit edited
      (fun key' erases => absurd erases (ruled.asks key'))
      fun key' erases => absurd erases (ruled.asks key'))
    (fun _ _ keeps => keeps.allocate)
    (fun _ _ edited _ _ keeps made allowed => keeps.edit edited
      (Event.ne_length_of_removesLength made allowed.1) (Event.ne_of_removes made allowed.2))
    fun e he => ⟨kept e he, stays e he⟩

/-- A read-only length stays what it is, as long as no operation takes the length of an array away. -/
theorem readOnlyLength (history : History start log heap) {id : ObjectId} {n : Nat}
    (base : start.ReadOnlyLength id n) (kept : ∀ e ∈ log, e.removesLength = false) :
    heap.ReadOnlyLength id n ∧ ∀ e ∈ log, e.heap.ReadOnlyLength id n :=
  history.invariant (I := (Heap.ReadOnlyLength · id n)) (P := fun e => e.removesLength = false) base
    (fun _ edited _ readOnly ruled =>
      readOnly.edit edited fun key erases => absurd erases (ruled.asks key))
    (fun _ _ readOnly => readOnly.allocate)
    (fun _ _ edited _ _ readOnly made kept =>
      readOnly.edit edited (Event.ne_length_of_removesLength made kept))
    kept

/-- A read-only length that covers the elements goes on doing so, as long as no operation makes an
ordinary definition of the array either. -/
theorem sealedLength (history : History start log heap) {id : ObjectId} {n : Nat}
    (base : start.SealedLength id n) (kept : ∀ e ∈ log, e.removesLength = false)
    (byRules : ∀ e ∈ log, e.ordinaryDefines id = false) :
    heap.SealedLength id n ∧ ∀ e ∈ log, e.heap.SealedLength id n :=
  history.invariant (I := (Heap.SealedLength · id n))
    (P := fun e => e.removesLength = false ∧ e.ordinaryDefines id = false) base
    (fun _ edited _ covering ruled => covering.edit edited
      (fun key erases => absurd erases (ruled.asks key)) fun _ => ruled.byRules)
    (fun _ _ covering => covering.allocate)
    (fun _ _ edited _ _ covering made allowed => covering.edit edited
      (Event.ne_length_of_removesLength made allowed.1) (Event.ne_ordinaryDefine made allowed.2))
    fun e he => ⟨kept e he, byRules e he⟩

end History

/-- What has become of properties at any later moment `h` of a run, seen from the moment of an event `e`,
if no operation of the run takes an array's length away.

A property that is not configurable is still there and at most hardened, if it is not taken away without
asking meanwhile. The length of an array is the same if it is read-only, and if it also covers all
elements at first, it goes on covering them, if no ordinary definition of the array is made meanwhile. -/
theorem Host.integrity (host : Host σ) (depth : Nat) (r : Routine σ α) (s : σ)
    {before later : List Event} {e : Event}
    (split : host.trace depth r ⟨{}, s⟩ = before ++ e :: later)
    (kept : ∀ e' ∈ host.trace depth r ⟨{}, s⟩, e'.removesLength = false) {h : Heap}
    (visited : h = (host.run depth r ⟨{}, s⟩).2.heap ∨ ∃ e' ∈ later, h = e'.heap) (id : ObjectId) :
    (∀ key p, (e.heap.get id).find? key = some p → p.isConfigurable = false →
        (∀ e' ∈ later, e'.removes id key = false) →
        ∃ q, (h.get id).find? key = some q ∧ p.Hardens q)
      ∧ (e.heap.classOf id = .array → (e.heap.get id).lengthState.2 = false →
        (h.get id).length = (e.heap.get id).length
          ∧ ((∀ i, ((e.heap.get id).element? i).isSome = true → i < (e.heap.get id).length) →
            (∀ e' ∈ later, e'.ordinaryDefines id = false) →
            ∀ i, ((h.get id).element? i).isSome = true → i < (h.get id).length)) := by
  have history := host.history depth r ⟨{}, s⟩
  have hempty : Heap.Regular {} := fun _ => .ordinary []
  have hregular := (history.regular hempty kept).2 e (by rw [split]; simp)
  rw [split] at history kept
  -- seen from `e`, the rest of the run is a history of its own, with laws for all that it visits
  have hlater := history.after
  have hkept : ∀ e' ∈ later, e'.removesLength = false := fun e' he' => kept e' (by simp [he'])
  have visit : ∀ {I : Heap → Prop},
      I (host.run depth r ⟨{}, s⟩).2.heap ∧ (∀ e' ∈ later, I e'.heap) → I h := by
    rintro I ⟨hend, hevents⟩
    rcases visited with rfl | ⟨e', he', rfl⟩
    · exact hend
    · exact hevents e' he'
  refine ⟨fun key p found fixed stays => ?_, fun array readOnly => ?_⟩
  · have base : e.heap.Keeps id key p := ⟨hregular, p, found, .refl fixed⟩
    exact (visit (I := (Heap.Keeps · id key p)) (hlater.keeps base hkept stays)).hardened
  · have base : e.heap.ReadOnlyLength id (e.heap.get id).length :=
      ⟨hregular, array, Prod.ext rfl readOnly⟩
    have hreadOnly := visit (I := (Heap.ReadOnlyLength · id (e.heap.get id).length))
      (hlater.readOnlyLength base hkept)
    have hlength : (h.get id).length = (e.heap.get id).length := by
      show (h.get id).lengthState.1 = _
      rw [hreadOnly.state]
    refine ⟨hlength, fun covers byRules => ?_⟩
    rw [hlength]
    exact (visit (I := (Heap.SealedLength · id (e.heap.get id).length))
      (hlater.sealedLength ⟨base, covers⟩ hkept byRules)).covers

namespace Host

/-- Makes an array of one element that can be neither deleted nor assigned, makes its length read-only,
and tries to delete the element. -/
def freezing : Routine Unit (Except Error Bool) :=
  .perform (.newArray none 0 {}) fun
    | .ok id =>
      .perform (.define id (.ofWord 0) (.data .null .none) true) fun _ =>
        .perform (.define id .length { writable := some false } true) fun _ =>
          .perform (.delete id (.ofWord 0) false) .finish
    | .error e => .finish (.error e)

/-- The element and the length are there to the end. -/
theorem integrity_freezing :
    ∃ e ∈ idle.trace 1 freezing ⟨{}, ()⟩,
      (e.heap.get ⟨0⟩).find? (.index ⟨0, by decide⟩) = some (.data .null .none)
        ∧ (∃ q, ((idle.run 1 freezing ⟨{}, ()⟩).2.heap.get ⟨0⟩).find? (.index ⟨0, by decide⟩) = some q
          ∧ (Property.data .null .none).Hardens q)
        ∧ e.heap.classOf ⟨0⟩ = .array ∧ (e.heap.get ⟨0⟩).lengthState.2 = false
        ∧ ((idle.run 1 freezing ⟨{}, ()⟩).2.heap.get ⟨0⟩).length = (e.heap.get ⟨0⟩).length := by
  let events := idle.trace 1 freezing ⟨{}, ()⟩
  let frozen := events.get ⟨2, by decide +kernel⟩
  have split : events = events.take 2 ++ frozen :: events.drop 3 :=
    (List.take_append_drop 2 events).symm.trans (congrArg _ (List.getElem_cons_drop _).symm)
  have kept : ∀ e ∈ events, e.removesLength = false := by decide +kernel
  have stays : ∀ e ∈ events.drop 3, e.removes ⟨0⟩ (.index ⟨0, by decide⟩) = false := by decide +kernel
  have found : (frozen.heap.get ⟨0⟩).find? (.index ⟨0, by decide⟩) = some (.data .null .none) := by
    decide +kernel
  have array : frozen.heap.classOf ⟨0⟩ = .array := by decide +kernel
  have readOnly : (frozen.heap.get ⟨0⟩).lengthState.2 = false := by decide +kernel
  obtain ⟨hardens, hlength⟩ := integrity idle 1 freezing () split kept (.inl rfl) ⟨0⟩
  exact ⟨frozen, List.get_mem _ _, found, hardens _ _ found rfl stays, array, readOnly,
    (hlength array readOnly).1⟩

end Host

end ObjectModel
