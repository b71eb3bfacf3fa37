import ObjectModel.Proofs.Object.Representation
import ObjectModel.Proofs.Run.ArrayLength
import ObjectModel.Proofs.Run.Strictness

/-!
# The short way of an assignment to an element

An assignment under a 32-bit word overwrites a writable element where it is, without a question. That comes
to the same as the assignment that asks all of them (`Protocol.setIndex_put`), as long as the length of an
array covers its elements and its storage is snug. Then the long way finds the assignment allowed, has no
length to raise, and redefines the value; and a write in the place of an element does not change how the
elements are represented.

The second condition holds in every run. The first one holds for an array of which no property was defined
by the rules that hold for all objects, and from which the length was not taken away. What matters is what
happened to this one object until then, so `Host.Reaches` tells a heap with its past.
-/

namespace ObjectModel

open ObjectModel.Action

variable {σ τ α : Type}

/-! ## One assignment -/

/-- Only an array has elements. -/
theorem Object.isArray_of_element? {o : Object} {i : Nat} {p : Property} (found : o.element? i = some p) :
    o.isArray = true := by
  obtain ⟨kind, table, ancestors, extensible⟩ := o
  cases kind with
  | array => rfl
  | ordinary | function => cases found

namespace Protocol

variable {w : World σ} {id : ObjectId} {v₀ : Value} {a : Attributes}

/-- An element is overwritten if it has a value that is writable. -/
theorem exists_of_overwriteElement {o : Object} {i : Nat} {v : Value}
    (done : (overwriteElement v i o).1 = true) :
    ∃ v₀ a, o.element? i = some (.data v₀ a) ∧ a.writable = true
      ∧ (overwriteElement v i o).2 = o.store (.ofWord i) (.data v a) := by
  rw [overwriteElement] at done ⊢
  split at done
  · next v₀ a found =>
    split at done
    · next writable => exact ⟨v₀, a, found, writable, congrArg Prod.snd (if_pos writable)⟩
    · cases done
  · cases done

/-- The assignment to a writable element below the length is accepted, and redefines the value. -/
theorem outcome_put_element (run : Callback σ) {i : Index} (below : i.val < (w.heap.get id).length)
    (found : (w.heap.get id).find? (.index i) = some (.data v₀ a)) (writable : a.writable = true)
    (v : Value) (strict : Bool) :
    (put run id (.index i) v strict).outcome w = (.ok (), w.edit id (.define (.index i) (.ofValue v)))
      ∧ (Edit.define (.index i) (.ofValue v)).apply (w.heap.get id)
        = if v.same v₀ then w.heap.get id else (w.heap.get id).store (.index i) (.data v a) := by
  have hallowed : ¬ w.heap.RefusesPut id (.index i) := by
    rw [Heap.refusesPut_iff, Heap.canPut, found]
    simpa [Property.acceptsPut] using writable
  have hdefine : (w.heap.get id).define (.index i) (.ofValue v)
      = (.accepted, if v.same v₀ then w.heap.get id else (w.heap.get id).store (.index i) (.data v a)) := by
    rw [Object.define_eq_ordinaryDefine _ _ _ (fun _ j hj => by cases hj; exact below),
      Object.ordinaryDefine_ofValue found, writable, Bool.or_true, if_pos rfl]
    split <;> rfl
  refine ⟨?_, by rw [Edit.apply, Edit.act, hdefine]⟩
  rw [outcome_put_of_not_refuses run hallowed, found]
  dsimp only
  rw [outcome_discard, outcome_define run (converts_index ..), hdefine]
  rfl

/-- The assignment under a word and the one under its key have the same answer and leave worlds that
nothing tells apart, if the length of an array covers its elements and its storage is snug. -/
theorem setIndex_put (run : Callback σ) (inOrder : w.heap.LengthInOrderAt id)
    (snug : (w.heap.get id).StorageIs Elements.Snug) (i : Nat) (v : Value) (strict : Bool) :
    ((setIndex run id i v strict).outcome w).1 = ((put run id (.ofWord i) v strict).outcome w).1
      ∧ ((setIndex run id i v strict).outcome w).2.host = ((put run id (.ofWord i) v strict).outcome w).2.host
      ∧ ((setIndex run id i v strict).outcome w).2.heap.Indistinct
          ((put run id (.ofWord i) v strict).outcome w).2.heap := by
  rw [outcome_setIndex]
  split
  · next done =>
    obtain ⟨v₀, a, helement, writable, hstore⟩ := exists_of_overwriteElement done
    have array := Object.isArray_of_element? helement
    obtain ⟨n, _, hlength⟩ := inOrder (Heap.isArray_get.1 array)
    have hbelow : i < n := hlength.covers i (Option.isSome_of_mem helement)
    have hindex : i < maxLength := Nat.lt_of_lt_of_le hbelow hlength.le_maxLength
    rw [Key.ofWord_of_lt hindex] at hstore ⊢
    have found := (Object.find?_index array ⟨i, hindex⟩).trans helement
    obtain ⟨hput, happly⟩ := outcome_put_element run (i := ⟨i, hindex⟩)
      (by rw [hlength.length]; exact hbelow) found writable v strict
    rw [hput]
    refine ⟨rfl, rfl, Heap.Indistinct.of_edits (e := .overwriteElement v i) w.heap ?_⟩
    rw [happly]
    show (overwriteElement v i (w.heap.get id)).2.Indistinct _
    rw [hstore]
    split
    · next hsame =>
      rw [Value.same_iff.1 hsame]
      exact Object.indistinct_store_self snug array found
    · exact .refl _
  · exact ⟨rfl, rfl, .refl _⟩

end Protocol

/-! ## Heaps in the course of a run -/

/-- A heap that a run lets someone see, with what has happened up to then. -/
inductive Host.Reaches (host : Host σ) (depth : Nat) (r : Routine σ α) (w : World σ) :
    List Event → Heap → Prop
  /-- The heap at an event. -/
  | event {before later : List Event} {e : Event} (split : host.trace depth r w = before ++ e :: later) :
    Reaches host depth r w (before ++ [e]) e.heap
  /-- The heap that is left at the end. -/
  | last : Reaches host depth r w (host.trace depth r w) (host.run depth r w).2.heap

namespace Chronicle

variable {start heap : Heap} {past : List Heap} {log before later : List Event} {e : Event}

/-- The heap at an event has a chronicle that ends with the event. -/
theorem upTo (chronicle : Chronicle start past log heap) (split : before ++ e :: later = log) :
    ∃ past', Chronicle start past' (before ++ [e]) e.heap := by
  induction chronicle generalizing later with
  | start => simp at split
  | edit _ id edit ruled ih => exact ih split
  | note told happening other ih =>
    rcases History.later_of_concat split with ⟨rfl, rfl⟩ | ⟨rest, rfl, hrest⟩
    · exact ⟨_, split ▸ told.note happening other⟩
    · exact ih hrest
  | read told reading ih =>
    rcases History.later_of_concat split with ⟨rfl, rfl⟩ | ⟨rest, rfl, hrest⟩
    · exact ⟨_, split ▸ told.read reading⟩
    · exact ih hrest
  | make told making result ih =>
    rcases History.later_of_concat split with ⟨rfl, rfl⟩ | ⟨rest, rfl, hrest⟩
    · exact ⟨_, split ▸ told.make making result⟩
    · exact ih hrest
  | unruled told made result ih =>
    rcases History.later_of_concat split with ⟨rfl, rfl⟩ | ⟨rest, rfl, hrest⟩
    · exact ⟨_, split ▸ told.unruled made result⟩
    · exact ih hrest

/-- In a chronicle from the empty heap the storages of all objects are snug at all times. -/
theorem snug (chronicle : Chronicle {} past log heap) :
    ∀ h ∈ heap :: past, ∀ id, (h.get id).StorageIs Elements.Snug :=
  chronicle.objects (P := (·.StorageIs Elements.Snug)) (A := fun _ => True)
    (fun _ => Object.Fresh.snug (.ordinary [])) (fun e _ => e.snug)
    (fun _ _ _ _ _ _ making ancestors => (Operation.fresh_of_making making ancestors).snug)
    fun _ _ => trivial

end Chronicle

/-- A heap that is reached has a chronicle. -/
theorem Host.Reaches.chronicle {host : Host σ} {depth : Nat} {r : Routine σ α} {w : World σ}
    {log : List Event} {h : Heap} (reached : host.Reaches depth r w log h) :
    ∃ past, Chronicle w.heap past log h := by
  obtain ⟨past, chronicle⟩ := host.chronicle depth r w
  cases reached with
  | event split => exact chronicle.upTo split.symm
  | last => exact ⟨past, chronicle⟩

/-- No property of the object was defined by the rules that hold for all objects, and its length was not
taken away. -/
def Event.SparesArray (id : ObjectId) (e : Event) : Prop :=
  e.ordinaryDefines id = false ∧ e.removes id .length = false

instance (id : ObjectId) (e : Event) : Decidable (e.SparesArray id) := inferInstanceAs (Decidable (_ ∧ _))

/-- The length of an array stays in order as long as the array is spared. -/
theorem History.lengthInOrderAt {log : List Event} {heap : Heap} (history : History {} log heap)
    {id : ObjectId} (spared : ∀ e ∈ log, e.SparesArray id) : heap.LengthInOrderAt id := by
  have hempty : Heap.LengthInOrderAt {} id := fun array => by cases array
  refine (history.invariant (I := (·.LengthInOrderAt id)) (P := Event.SparesArray id) hempty
    (fun _ edited _ inOrder ruled => inOrder.edit edited fun _ _ => .inl ruled)
    (fun _ _ inOrder fresh => inOrder.allocate fresh) ?unruled spared).1
  intro h op edited e result inOrder made allowed
  refine inOrder.edit edited fun same _ => .inr ?_
  have hdefine := Event.ne_ordinaryDefine made allowed.1 same
  have hremove := Event.ne_of_removes made allowed.2
  cases op <;> cases made
  · exact absurd rfl (hdefine _ _)
  · next key => exact ⟨key, rfl, hremove key rfl same⟩

/-! ## The two assignments -/

/-- At any heap that a run reaches, the assignment to an object under a 32-bit word and the one under its
key come to the same, if the object is no array or has been spared until then. They have the same answer,
with any callback, and leave the same host. The heaps that they leave show the same, and every object is
the same in an inspection, with its elements represented in the same way. On the way of the two operations
the same happens. -/
theorem Host.setIndex_eq_put (host : Host σ) (depth : Nat) (r : Routine σ α) (s : σ) {log : List Event}
    {h : Heap} (reached : host.Reaches depth r ⟨{}, s⟩ log h) {id : ObjectId}
    (spared : h.classOf id = .array → ∀ e ∈ log, e.SparesArray id) (i : Nat) (v : Value) (strict : Bool) :
    (∀ (τ : Type) (run : Callback τ) (t : τ),
        let short := (Protocol.setIndex run id i v strict).outcome ⟨h, t⟩
        let long := (Protocol.put run id (.ofWord i) v strict).outcome ⟨h, t⟩
        short.1 = long.1 ∧ short.2.host = long.2.host
          ∧ short.2.heap.view = long.2.heap.view
          ∧ ∀ other, (short.2.heap.get other).representation = (long.2.heap.get other).representation
            ∧ (short.2.heap.get other).summary = (long.2.heap.get other).summary
            ∧ (short.2.heap.get other).profile = (long.2.heap.get other).profile)
      ∧ ∀ (τ : Type) (host' : Host τ) (depth' : Nat) (t : τ),
        host'.onTheWay depth' (.setIndex id i v strict) ⟨h, t⟩
          = host'.onTheWay depth' (.put id (.ofWord i) v strict) ⟨h, t⟩ := by
  obtain ⟨past, chronicle⟩ := reached.chronicle
  have snug := chronicle.snug h List.mem_cons_self id
  have inOrder : h.LengthInOrderAt id := fun array =>
    chronicle.history.lengthInOrderAt (spared array) array
  refine ⟨fun τ run t => ?_, fun τ host' depth' t => ?_⟩
  · obtain ⟨hanswer, hhost, hheap⟩ :=
      Protocol.setIndex_put (w := ⟨h, t⟩) run inOrder snug i v strict
    refine ⟨hanswer, hhost, hheap.view, fun other => ?_⟩
    have hobject := hheap.objects other
    exact ⟨hobject.representation, hobject.inspect⟩
  · rw [onTheWay_eq, onTheWay_eq]
    let recording : World (Recorded τ) := ⟨h, { host := t }⟩
    obtain ⟨-, hhost, -⟩ :=
      Protocol.setIndex_put (w := recording) (host'.recorded.call depth') inOrder snug i v strict
    exact congrArg Recorded.log hhost

/-- The heap after an array has grown. -/
def Host.grown : Heap := (idle.run 1 growing ⟨{}, ()⟩).2.heap

/-- What becomes of an action after an array has grown. -/
def Host.afterGrowing (act : Action Unit Unit) : Except Error Unit × World Unit := act.outcome ⟨grown, ()⟩

/-- An element of an array that has grown is overwritten where it is, which comes to the same as the
assignment to it. -/
theorem Host.setIndex_eq_put_growing :
    grown.classOf ⟨0⟩ = .array
      ∧ (∀ e ∈ idle.trace 1 growing ⟨{}, ()⟩, e.SparesArray ⟨0⟩)
      ∧ (Protocol.overwriteElement .undefined 6 (grown.get ⟨0⟩)).1 = true
      ∧ (afterGrowing (Protocol.setIndex (idle.call 1) ⟨0⟩ 6 .undefined true)).1
        = (afterGrowing (Protocol.put (idle.call 1) ⟨0⟩ (.ofWord 6) .undefined true)).1
      ∧ (afterGrowing (Protocol.setIndex (idle.call 1) ⟨0⟩ 6 .undefined true)).2.heap.view
        = (afterGrowing (Protocol.put (idle.call 1) ⟨0⟩ (.ofWord 6) .undefined true)).2.heap.view := by
  have array : grown.classOf ⟨0⟩ = .array := by decide +kernel
  have spared : ∀ e ∈ idle.trace 1 growing ⟨{}, ()⟩, e.SparesArray ⟨0⟩ := by decide +kernel
  have done : (Protocol.overwriteElement .undefined 6 (grown.get ⟨0⟩)).1 = true := by decide +kernel
  have reached : idle.Reaches 1 growing ⟨{}, ()⟩ (idle.trace 1 growing ⟨{}, ()⟩) grown := .last
  obtain ⟨houtcomes, -⟩ := setIndex_eq_put idle 1 growing () reached (fun _ => spared) 6 .undefined true
  obtain ⟨hanswer, -, hview, -⟩ := houtcomes Unit (idle.call 1) ()
  unfold afterGrowing
  exact ⟨array, spared, done, hanswer, hview⟩

end ObjectModel
