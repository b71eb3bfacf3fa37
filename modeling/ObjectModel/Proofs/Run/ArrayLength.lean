import ObjectModel.Proofs.Object.ArrayLength
import ObjectModel.Proofs.Run.History

/-!
# The length of an array during a run

Every array that a run lets anyone see has its `length` in order: an own property, neither enumerable nor
configurable, whose value is a number that is an integer, a 32-bit word and the array's length, and past
every element (`Host.array_length`). The run may be that of any program with any host. It starts from the
empty heap, so all arrays come from the operations that make them.

Two kinds of operation are excluded, since they ask no questions: defining a property of an array by the
rules that hold for all objects, and taking an array's `length` away.
-/

namespace ObjectModel

variable {σ α : Type}

namespace Heap

/-- If the object is an array, it has an own length that covers its elements. -/
def LengthInOrderAt (h : Heap) (id : ObjectId) : Prop :=
  h.classOf id = .array → ∃ n w, (h.get id).HasLength n w

/-- Every array has an own length that covers its elements. -/
def LengthsInOrder (h : Heap) : Prop := ∀ id, h.LengthInOrderAt id

/-- An object of the class of arrays is an array. -/
theorem isArray_get {h : Heap} {id : ObjectId} : (h.get id).isArray = true ↔ h.classOf id = .array := by
  rw [Object.isArray, beq_iff_eq, classOf]

section

variable {h : Heap}

/-- A length stays in order if what is done to an array of that id is by the rules, or takes away another
property than the length. -/
theorem LengthInOrderAt.edit {other : ObjectId} (inOrder : h.LengthInOrderAt other) (id : ObjectId)
    {e : Edit}
    (kept : id = other → h.classOf other = .array →
      e.Ruled (h.get id) ∨ ∃ key, e = .erase key ∧ key ≠ .length) :
    (h.edit id e).LengthInOrderAt other := by
  intro hother
  rw [classOf_edit] at hother
  obtain ⟨n, w, hlength⟩ := inOrder hother
  rcases h.get_edit_cases id e other with hsame | ⟨rfl, hedited⟩
  · rw [hsame]
    exact ⟨n, w, hlength⟩
  rw [hedited]
  rcases kept rfl hother with ruled | ⟨key, rfl, hkey⟩
  · exact hlength.apply (isArray_get.2 hother) e ruled
  · exact ⟨n, w, hlength.erase hkey⟩

/-- A new object leaves a length in order. -/
theorem LengthInOrderAt.allocate {id : ObjectId} (inOrder : h.LengthInOrderAt id) {o : Object}
    (fresh : o.Fresh) : (h.allocate o).2.LengthInOrderAt id := by
  intro hid
  rw [classOf] at hid
  rcases h.get_allocate_cases o id with hsame | ⟨-, hnew⟩
  · rw [hsame] at hid ⊢
    exact inOrder hid
  · rw [hnew] at hid ⊢
    exact Object.HasLength.of_fresh fresh (beq_iff_eq.2 hid)

namespace LengthsInOrder

/-- An edit by the rules leaves all lengths in order. -/
theorem edit (inOrder : h.LengthsInOrder) (id : ObjectId) {e : Edit} (ruled : e.Ruled (h.get id)) :
    (h.edit id e).LengthsInOrder :=
  fun other => LengthInOrderAt.edit (inOrder other) id fun _ _ => .inl ruled

/-- A new object leaves all lengths in order. -/
theorem allocate (inOrder : h.LengthsInOrder) {o : Object} (fresh : o.Fresh) :
    (h.allocate o).2.LengthsInOrder :=
  fun id => LengthInOrderAt.allocate (inOrder id) fresh

/-- An operation that bypasses the rules leaves all lengths in order, unless it is one of those that are
excluded. -/
theorem unruled (inOrder : h.LengthsInOrder) {op : Operation} {id : ObjectId} {e : Edit}
    {result : Except Error op.Answer} (made : op.unruledEdit? = some (id, e))
    (kept : Event.removesLength ⟨.performed op result, h.edit id e⟩ = false)
    (byRules : Event.bypassesArray ⟨.performed op result, h.edit id e⟩ = false) :
    (h.edit id e).LengthsInOrder := by
  intro other
  refine LengthInOrderAt.edit (inOrder other) id ?_
  rintro rfl array
  have hkey := Event.ne_length_of_removesLength made kept
  have harray := (h.classOf_edit id e id).trans array
  cases op <;> cases made
  · exact absurd harray (beq_eq_false_iff_ne.1 byRules)
  · next key => exact .inr ⟨key, rfl, hkey key rfl array⟩

end LengthsInOrder

end

end Heap

/-- A heap that a run lets someone see: that of an event, or the one that is left at the end. -/
def Host.Visits (host : Host σ) (depth : Nat) (r : Routine σ α) (w : World σ) (h : Heap) : Prop :=
  h = (host.run depth r w).2.heap ∨ ∃ e ∈ host.trace depth r w, h = e.heap

/-- A heap that a run lets someone see is in every chronicle of the run. -/
theorem Host.Visits.mem {host : Host σ} {depth : Nat} {r : Routine σ α} {w : World σ} {h : Heap}
    (visited : host.Visits depth r w h) {past : List Heap}
    (chronicle : Chronicle w.heap past (host.trace depth r w) (host.run depth r w).2.heap) :
    h ∈ (host.run depth r w).2.heap :: past := by
  rcases visited with rfl | ⟨e, he, rfl⟩
  · exact List.mem_cons_self
  · exact chronicle.heap_mem he

/-- Every array has its length in order whenever a run lets anyone see it, if no operation takes the
length of an array away or defines a property of an array by the rules that hold for all objects. -/
theorem Host.array_length (host : Host σ) (depth : Nat) (r : Routine σ α) (s : σ)
    (kept : ∀ e ∈ host.trace depth r ⟨{}, s⟩, e.removesLength = false)
    (byRules : ∀ e ∈ host.trace depth r ⟨{}, s⟩, e.bypassesArray = false)
    {h : Heap} (visited : host.Visits depth r ⟨{}, s⟩ h) {id : ObjectId}
    (array : h.classOf id = .array) : (h.get id).LengthInOrder := by
  have hempty : Heap.LengthsInOrder {} := fun id hid => by cases hid
  obtain ⟨hend, hevents⟩ := (host.history depth r ⟨{}, s⟩).invariant
    (I := Heap.LengthsInOrder) (P := fun e => e.removesLength = false ∧ e.bypassesArray = false)
    hempty (fun _ id _ inOrder => inOrder.edit id) (fun _ _ inOrder => inOrder.allocate)
    (fun _ _ _ _ _ inOrder made allowed => inOrder.unruled made allowed.1 allowed.2)
    fun e he => ⟨kept e he, byRules e he⟩
  have hvisited : h.LengthsInOrder := by
    rcases visited with rfl | ⟨e, he, rfl⟩
    · exact hend
    · exact hevents e he
  obtain ⟨n, w, hlength⟩ := hvisited id array
  exact hlength.inOrder

/-- Makes an array and defines an element past its length. -/
def Host.growing : Routine Unit (Except Error Bool) :=
  .perform (.newArray none 0 {}) fun
    | .ok id => .perform (.define id (.index ⟨6, by decide⟩) (.data .null .all) true) .finish
    | .error e => .finish (.error e)

/-- An array that grows has its length in order. -/
theorem Host.array_length_growing :
    (∀ e ∈ idle.trace 1 growing ⟨{}, ()⟩, e.removesLength = false)
      ∧ (∀ e ∈ idle.trace 1 growing ⟨{}, ()⟩, e.bypassesArray = false)
      ∧ (idle.run 1 growing ⟨{}, ()⟩).2.heap.classOf ⟨0⟩ = .array
      ∧ ((idle.run 1 growing ⟨{}, ()⟩).2.heap.get ⟨0⟩).LengthInOrder := by
  have kept : ∀ e ∈ idle.trace 1 growing ⟨{}, ()⟩, e.removesLength = false := by decide +kernel
  have byRules : ∀ e ∈ idle.trace 1 growing ⟨{}, ()⟩, e.bypassesArray = false := by decide +kernel
  have array : (idle.run 1 growing ⟨{}, ()⟩).2.heap.classOf ⟨0⟩ = .array := by decide +kernel
  exact ⟨kept, byRules, array, array_length idle 1 growing () kept byRules (.inl rfl) array⟩

end ObjectModel
