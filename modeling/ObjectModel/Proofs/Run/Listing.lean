import ObjectModel.Proofs.Object.Listing
import ObjectModel.Proofs.Run.ArrayLength

/-!
# The own properties of objects during a run

Whenever a run lets anyone see an object, all that can be asked about its own properties fits together
(`Host.own_properties_agree`): whether the object has a property, which property it is, and which
properties are listed and in which order. The run may be that of any program with any host, from the
empty heap.

As for the length of an array, two kinds of operation are excluded, since they ask no questions: defining
a property of an array by the rules that hold for all objects, and taking an array's `length` away.
-/

namespace ObjectModel

variable {σ α : Type}

namespace Heap

variable {h : Heap}

/-- An edit takes an object through steps, unless it takes a property of the object away without
asking. -/
theorem get_edit_steps {id : ObjectId} (regular : (h.get id).Regular) (edited : ObjectId) (e : Edit) :
    (h.get id).Steps ((h.edit edited e).get id)
      ∨ ∃ key, e = .erase key ∧ edited = id ∧ (h.edit edited e).get id = (h.get id).erase key := by
  rcases h.get_edit_cases edited e id with hsame | ⟨hid, hedited⟩
  · rw [hsame]
    exact .inl .refl
  · by_cases herase : ∃ key, e = .erase key
    · obtain ⟨key, rfl⟩ := herase
      exact .inr ⟨key, rfl, hid, hedited⟩
    · rw [hedited]
      exact .inl (e.steps regular fun key hkey => herase ⟨key, hkey⟩)

/-- An edit leaves the properties of an object where they belong, unless it takes the length of an array
away without asking. -/
theorem filed_edit {id : ObjectId} (filed : (h.get id).Filed) (edited : ObjectId) {e : Edit}
    (kept : ∀ key, e = .erase key → edited = id → h.classOf id = .array → key ≠ .length) :
    ((h.edit edited e).get id).Filed := by
  rcases get_edit_steps filed.toRegular edited e with steps | ⟨key, erases, hid, hedited⟩
  · exact steps.filed filed
  · rw [hedited]
    exact filed.erase fun array => kept key erases hid (isArray_get.1 array)

/-- A new object and all others have their properties where they belong. -/
theorem filed_allocate {id : ObjectId} (filed : (h.get id).Filed) {o : Object} (fresh : o.Fresh) :
    ((h.allocate o).2.get id).Filed := by
  rcases h.get_allocate_cases o id with hsame | ⟨-, hnew⟩
  · rw [hsame]
    exact filed
  · rw [hnew]
    exact .of_fresh fresh

/-- All properties are where they belong, and every array has an own length that covers its elements. -/
structure InOrder (h : Heap) : Prop where
  filed : ∀ id, (h.get id).Filed
  lengths : h.LengthsInOrder

namespace InOrder

/-- Nothing is out of order before there are objects. -/
theorem empty : InOrder {} where
  filed _ := .of_fresh (.ordinary [])
  lengths _ array := by cases array

/-- An edit by the rules leaves everything in order. -/
theorem edit (inOrder : h.InOrder) (id : ObjectId) {e : Edit} (ruled : e.Ruled (h.get id)) :
    (h.edit id e).InOrder where
  filed other := filed_edit (inOrder.filed other) id fun key erases => by
    subst erases
    cases ruled
  lengths := inOrder.lengths.edit id ruled

/-- A new object leaves everything in order. -/
theorem allocate (inOrder : h.InOrder) {o : Object} (fresh : o.Fresh) : (h.allocate o).2.InOrder where
  filed id := filed_allocate (inOrder.filed id) fresh
  lengths := inOrder.lengths.allocate fresh

/-- An operation that bypasses the rules leaves everything in order, unless it is one of those that are
excluded. -/
theorem unruled (inOrder : h.InOrder) {op : Operation} {id : ObjectId} {e : Edit}
    {result : Except Error op.Answer} (made : op.unruledEdit? = some (id, e))
    (kept : Event.removesLength ⟨.performed op result, h.edit id e⟩ = false)
    (byRules : Event.bypassesArray ⟨.performed op result, h.edit id e⟩ = false) :
    (h.edit id e).InOrder where
  filed other := filed_edit (inOrder.filed other) id fun key erases hid array =>
    Event.ne_length_of_removesLength made kept key erases (hid ▸ array)
  lengths := inOrder.lengths.unruled made kept byRules

end InOrder

end Heap

namespace Host

/-- All that can be asked about the own properties of an object agrees whenever a run lets anyone see it,
if no operation takes the length of an array away or defines a property of an array by the rules that hold
for all objects. -/
theorem own_properties_agree (host : Host σ) (depth : Nat) (r : Routine σ α) (s : σ)
    (kept : ∀ e ∈ host.trace depth r ⟨{}, s⟩, e.removesLength = false)
    (byRules : ∀ e ∈ host.trace depth r ⟨{}, s⟩, e.bypassesArray = false)
    {h : Heap} (visited : host.Visits depth r ⟨{}, s⟩ h) (id : ObjectId) : (h.get id).Coherent := by
  have hall := (host.history depth r ⟨{}, s⟩).invariant
    (I := Heap.InOrder) (P := fun e => e.removesLength = false ∧ e.bypassesArray = false)
    .empty (fun _ id _ inOrder => inOrder.edit id) (fun _ _ inOrder => inOrder.allocate)
    (fun _ _ _ _ _ inOrder made allowed => inOrder.unruled made allowed.1 allowed.2)
    fun e he => ⟨kept e he, byRules e he⟩
  have inOrder : h.InOrder := History.visit hall visited
  exact (inOrder.filed id).coherent fun array => inOrder.lengths id (Heap.isArray_get.1 array)

/-- Makes an array, gives it a property under a name, and defines an element past its length. -/
def naming : Routine Unit (Except Error Bool) :=
  .perform (.newArray none 0 {}) fun
    | .ok id =>
      .perform (.put id (.ofText "a") .null true) fun _ =>
        .perform (.define id (.ofText "6") (.data .null .all) true) .finish
    | .error e => .finish (.error e)

/-- The element comes before the length and the name, and under these keys the array has properties. -/
theorem own_properties_agree_naming :
    (∀ e ∈ idle.trace 1 naming ⟨{}, ()⟩, e.removesLength = false)
      ∧ (∀ e ∈ idle.trace 1 naming ⟨{}, ()⟩, e.bypassesArray = false)
      ∧ ((idle.run 1 naming ⟨{}, ()⟩).2.heap.get ⟨0⟩).keys
        = [.ofWord 6, .length, .ofText "a"]
      ∧ ((idle.run 1 naming ⟨{}, ()⟩).2.heap.get ⟨0⟩).Coherent := by
  have kept : ∀ e ∈ idle.trace 1 naming ⟨{}, ()⟩, e.removesLength = false := by decide +kernel
  have byRules : ∀ e ∈ idle.trace 1 naming ⟨{}, ()⟩, e.bypassesArray = false := by decide +kernel
  refine ⟨kept, byRules, by decide +kernel, ?_⟩
  exact own_properties_agree idle 1 naming () kept byRules (.inl rfl) ⟨0⟩

end Host

end ObjectModel
