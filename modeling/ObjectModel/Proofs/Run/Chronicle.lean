import ObjectModel.Proofs.Object.Changes
import ObjectModel.Proofs.Run.Trace

/-!
# Chronicles

A `Chronicle` tells in full how a heap came about: all the heaps before it, each of which became the next
by one edit of one object or by one new object, and the events that were noted meanwhile. Every run has
one (`Host.chronicle`). The heaps between two events are those of operations under way.

With an event stands what the operation did by itself, if it did only one thing. An operation that reads
the heap answers what it reads. One that makes an object, or bypasses the rules, is noted together with
the new object or the edit. All other operations follow the rules, and are noted when they end.
-/

namespace ObjectModel

variable {σ τ α : Type}

/-! ## Operations that do one thing -/

/-- The heap with a new object, made for the chain of its prototypes. -/
def Heap.make (h : Heap) (parent : Option ObjectId) (new : List ObjectId → Object) : ObjectId × Heap :=
  h.allocate (new ((parent.map h.chain).getD []))

namespace Operation

/-- What an operation reads off the heap, if it does nothing else. -/
def reading? : (op : Operation) → Option (Heap → op.Answer)
  | getOwn id key => some fun h => (h.get id).find? key
  | getProperty id key => some (·.property? id key)
  | hasOwn id key => some fun h => (h.get id).has key
  | has id key => some fun h => (h.property? id key).isSome
  | canPut id key => some (·.canPut id key)
  | classOf id => some (·.classOf id)
  | prototype id => some fun h => (h.get id).prototype?
  | length id => some fun h => (h.get id).length
  | isExtensible id => some fun h => (h.get id).extensible
  | keys id => some fun h => (h.get id).keys
  | properties id => some fun h => (h.get id).properties
  | enumerate id => some fun h => ⟨id, (h.get id).keys⟩
  | next cursor => some (·.next cursor)
  | _ => none

/-- Whatever the host, the outcome of the operation is this function of the heap. -/
structure HasOutcome (op : Operation) (result : Heap → Except Error op.Answer) (after : Heap → Heap) :
    Prop where
  outcome : ∀ {σ : Type} (run : Callback σ) (w : World σ),
    (op.perform run).outcome w = (result w.heap, ⟨after w.heap, w.host⟩)

variable {op : Operation}

/-- An operation that reads the heap answers what it reads and changes nothing. -/
theorem hasOutcome_of_reading {f : Heap → op.Answer} (reading : op.reading? = some f) :
    op.HasOutcome (fun h => .ok (f h)) id := by
  refine ⟨fun run w => ?_⟩
  cases op <;> cases reading <;> rfl

/-- An operation that makes an object does nothing else. -/
theorem hasOutcome_of_making {parent : Option ObjectId} {new : List ObjectId → Object}
    (making : op.making? = some (parent, new)) :
    ∃ result, op.HasOutcome result fun h => (h.make parent new).2 := by
  -- the answer is the id, but its type depends on the operation
  cases op <;> cases making
  · exact ⟨fun h => .ok (h.make parent Object.ordinary).1, ⟨fun _ _ => rfl⟩⟩
  · next capacity limits =>
    exact ⟨fun h => .ok (h.make parent (Object.array · capacity limits)).1, ⟨fun _ _ => rfl⟩⟩
  · next values => exact ⟨fun h => .ok (h.make none fun _ => Object.arrayOf values).1, ⟨fun _ _ => rfl⟩⟩
  · exact ⟨fun h => .ok (h.make none fun _ => Object.function).1, ⟨fun _ _ => rfl⟩⟩

/-- An operation that bypasses the rules makes one edit and nothing else. -/
theorem hasOutcome_of_unruled {id : ObjectId} {e : Edit} (unruled : op.unruledEdit? = some (id, e)) :
    ∃ result, op.HasOutcome result (·.edit id e) := by
  cases op <;> cases unruled
  · next key d strict =>
    refine ⟨fun h => ((h.get id).ordinaryDefine key d).1.answer strict, ⟨fun run w => ?_⟩⟩
    exact Action.outcome_attempt strict id (·.ordinaryDefine key d) w
  · next key => exact ⟨fun _ => .ok (), ⟨fun run w => Action.outcome_alter id (Edit.erase key).act w⟩⟩

end Operation

/-! ## Chronicles -/

/-- How a heap came about from the one at the start: the heaps in between, the latest first, and what
happened meanwhile. -/
inductive Chronicle (start : Heap) : List Heap → List Event → Heap → Prop
  /-- Nothing has happened yet. -/
  | start : Chronicle start [] [] start
  /-- An operation under way has edited an object by the rules. -/
  | edit {past : List Heap} {log : List Event} {heap : Heap} (before : Chronicle start past log heap)
      (id : ObjectId) (e : Edit) (ruled : e.Ruled (heap.get id)) :
    Chronicle start (heap :: past) log (heap.edit id e)
  /-- A call was made, or an operation by the rules has ended. -/
  | note {past : List Heap} {log : List Event} {heap : Heap} (before : Chronicle start past log heap)
      (happening : Happening)
      (other : ∀ op result, happening = .performed op result → op.reading? = none) :
    Chronicle start past (log ++ [⟨happening, heap⟩]) heap
  /-- An operation has read the heap. -/
  | read {past : List Heap} {log : List Event} {heap : Heap} (before : Chronicle start past log heap)
      {op : Operation} {f : Heap → op.Answer} (reading : op.reading? = some f) :
    Chronicle start past (log ++ [⟨.performed op (.ok (f heap)), heap⟩]) heap
  /-- An operation has made an object. -/
  | make {past : List Heap} {log : List Event} {heap : Heap} (before : Chronicle start past log heap)
      {op : Operation} {parent : Option ObjectId} {new : List ObjectId → Object}
      (making : op.making? = some (parent, new)) (result : Except Error op.Answer) :
    Chronicle start (heap :: past) (log ++ [⟨.performed op result, (heap.make parent new).2⟩])
      (heap.make parent new).2
  /-- An operation has bypassed the rules. -/
  | unruled {past : List Heap} {log : List Event} {heap : Heap} (before : Chronicle start past log heap)
      {op : Operation} {id : ObjectId} {e : Edit} (made : op.unruledEdit? = some (id, e))
      (result : Except Error op.Answer) :
    Chronicle start (heap :: past) (log ++ [⟨.performed op result, heap.edit id e⟩]) (heap.edit id e)

/-! ## Every run has a chronicle -/

/-- The world of a run and that of the run with a record. -/
structure Recording (start : Heap) (w : World σ) (v : World (Recorded σ)) : Prop where
  heap_eq : w.heap = v.heap
  host_eq : w.host = v.host.host
  chronicle : ∃ past, Chronicle start past v.host.log v.heap

namespace Recording

variable {start : Heap} {w : World σ} {v : World (Recorded σ)}

/-- Edits by the rules keep to the record. -/
theorem editStable (start : Heap) : EditStable (Recording (σ := σ) start) where
  alike h := h.heap_eq ▸ .refl _
  edit id e h ruled := by
    obtain ⟨past, hpast⟩ := h.chronicle
    exact ⟨congrArg (·.edit id e) h.heap_eq, h.host_eq, _, hpast.edit id e (h.heap_eq ▸ ruled)⟩

/-- What is noted is part of the record. -/
theorem note (h : Recording start w v) (happening : Happening)
    (other : ∀ op result, happening = .performed op result → op.reading? = none) :
    Recording start w ⟨v.heap, v.host.note happening v.heap⟩ := by
  obtain ⟨past, hpast⟩ := h.chronicle
  exact ⟨h.heap_eq, h.host_eq, past, hpast.note happening other⟩

end Recording

/-- Programs agree if the operation that they begin with has one outcome in both and they agree from
there on. -/
theorem Routine.Agree.performed {R : World σ → World τ → Prop} {run : Callback σ} {run' : Callback τ}
    {op : Operation} {result : Heap → Except Error op.Answer} {after : Heap → Heap}
    (outcome : op.HasOutcome result after) {next : Except Error op.Answer → Routine σ α}
    {next' : Except Error op.Answer → Routine τ α} {w : World σ} {w' : World τ}
    (same : w.heap = w'.heap)
    (rest : Routine.Agree R run run' (next (result w'.heap)) (next' (result w'.heap))
      ⟨after w'.heap, w.host⟩ ⟨after w'.heap, w'.host⟩) :
    Routine.Agree R run run' (.perform op next) (.perform op next') w w' := by
  rw [Routine.Agree, runWith_perform, runWith_perform, outcome.outcome run w, outcome.outcome run' w', same]
  exact rest

/-- A program goes on as it would without the record, and the record is a chronicle. -/
theorem Routine.recorded_agree {start : Heap} {run : Callback σ} {run' : Callback (Recorded σ)}
    (calls : Protocol.CallsAgree (Recording start) run run') (r : Routine σ α) {w : World σ}
    {v : World (Recorded σ)} (h : Recording start w v) :
    Agree (Recording start) run run' r r.recorded w v := by
  induction r generalizing w v with
  | finish a => exact ⟨rfl, h⟩
  | consult update next ih =>
    obtain ⟨heap, host⟩ := w
    obtain ⟨heap', host'⟩ := v
    obtain ⟨rfl : heap = heap', rfl : host = host'.host, chronicle⟩ := h
    exact ih _ ⟨rfl, rfl, chronicle⟩
  | look next ih =>
    have hnext := ih w.heap h
    rw [h.heap_eq] at hnext
    rw [Agree, runWith, h.heap_eq]
    exact hnext
  | perform op next ih =>
    obtain ⟨past, hpast⟩ := h.chronicle
    -- an operation that does one thing is noted together with it, any other one after its edits
    cases hreading : op.reading? with
    | some f =>
      refine .performed (Operation.hasOutcome_of_reading hreading) h.heap_eq (ih _ ?_)
      exact ⟨rfl, h.host_eq, past, hpast.read hreading⟩
    | none =>
    cases hmaking : op.making? with
    | some making =>
      obtain ⟨parent, new⟩ := making
      obtain ⟨result, houtcome⟩ := Operation.hasOutcome_of_making hmaking
      refine .performed houtcome h.heap_eq (ih _ ?_)
      exact ⟨rfl, h.host_eq, _, hpast.make hmaking (result v.heap)⟩
    | none =>
    cases hunruled : op.unruledEdit? with
    | some edited =>
      obtain ⟨id, e⟩ := edited
      obtain ⟨result, houtcome⟩ := Operation.hasOutcome_of_unruled hunruled
      refine .performed houtcome h.heap_eq (ih _ ?_)
      exact ⟨rfl, h.host_eq, _, hpast.unruled hunruled (result v.heap)⟩
    | none =>
      refine .perform (op.perform_agree_of_making (Recording.editStable start) calls hunruled hmaking h)
        fun result w v h => ih result (h.note _ ?_)
      rintro op' result' ⟨⟩
      exact hreading

namespace Host

/-- A run goes on as it would without the record, and the record is a chronicle. -/
theorem record_agree (host : Host σ) (depth : Nat) (r : Routine σ α) (w : World σ) :
    Routine.Agree (Recording w.heap) (host.call depth) (host.recorded.call depth) r r.recorded w
      ⟨w.heap, { host := w.host }⟩ := by
  refine Routine.recorded_agree (calls_agree ?_ ?_ depth) r ⟨rfl, rfl, [], .start⟩
  · intro f w v h
    exact ⟨h.heap_eq, congrArg (host.refused f) h.host_eq, h.chronicle⟩
  · intro run run' calls f this arguments w v h
    refine Routine.recorded_agree calls _ (h.note (.called f this arguments) ?_)
    rintro _ _ ⟨⟩

/-- A run answers and leaves behind what it does with a record. -/
theorem run_eq_record (host : Host σ) (depth : Nat) (r : Routine σ α) (w : World σ) :
    host.run depth r w
      = ((host.record depth r w).1,
          ⟨(host.record depth r w).2.heap, (host.record depth r w).2.host.host⟩) := by
  obtain ⟨hanswer, hworlds⟩ := host.record_agree depth r w
  refine Prod.ext hanswer ?_
  rw [show (host.run depth r w).2 = ⟨(host.run depth r w).2.heap, (host.run depth r w).2.host⟩ from rfl]
  exact congrArg₂ World.mk hworlds.heap_eq hworlds.host_eq

/-- A run's trace belongs to a chronicle of the heap that it leaves behind. -/
theorem chronicle (host : Host σ) (depth : Nat) (r : Routine σ α) (w : World σ) :
    ∃ past, Chronicle w.heap past (host.trace depth r w) (host.run depth r w).2.heap := by
  obtain ⟨-, hworlds⟩ := host.record_agree depth r w
  have hheap : (host.run depth r w).2.heap = (host.record depth r w).2.heap := hworlds.heap_eq
  rw [hheap]
  exact hworlds.chronicle

end Host

/-! ## Laws of chronicles -/

/-- A heap became another one by one edit or one new object. -/
inductive Heap.Next (h : Heap) : Heap → Prop
  | edit (id : ObjectId) (e : Edit) : Next h (h.edit id e)
  | allocate {o : Object} (fresh : o.Fresh) : Next h (h.allocate o).2

namespace Chronicle

variable {start heap : Heap} {past : List Heap} {log : List Event}

/-- What holds of every object at the start and of every new one, and is kept by every edit, holds of every
object at all times, as long as the events are among those that make such objects. -/
theorem objects {P : Object → Prop} {A : Event → Prop} (chronicle : Chronicle start past log heap)
    (base : ∀ id, P (start.get id)) (edit : ∀ (e : Edit) o, P o → P (e.apply o))
    (make : ∀ (op : Operation) result after parent new, A ⟨.performed op result, after⟩ →
      op.making? = some (parent, new) → ∀ ancestors, P (new ancestors))
    (allowed : ∀ e ∈ log, A e) : ∀ h ∈ heap :: past, ∀ id, P (h.get id) := by
  have edited : ∀ (h : Heap) id e, (∀ other, P (h.get other)) → ∀ other, P ((h.edit id e).get other) := by
    intro h id e hall other
    rcases h.get_edit_cases id e other with hsame | ⟨-, hedited⟩
    · rw [hsame]
      exact hall other
    · rw [hedited]
      exact edit e _ (hall other)
  induction chronicle with
  | start =>
    intro h hh
    rw [List.mem_singleton.1 hh]
    exact base
  | edit _ id e _ ih =>
    have hbefore := ih allowed
    exact List.forall_mem_cons.2 ⟨edited _ id e (hbefore _ List.mem_cons_self), hbefore⟩
  | note _ _ _ ih | read _ _ ih => exact ih (List.forall_mem_append.1 allowed).1
  | @make _ _ h _ op parent new making result ih =>
    obtain ⟨hlog, hlast⟩ := List.forall_mem_append.1 allowed
    have hbefore := ih hlog
    refine List.forall_mem_cons.2 ⟨fun other => ?_, hbefore⟩
    rcases h.get_allocate_cases (new ((parent.map h.chain).getD [])) other with hsame | ⟨-, hnew⟩
    · rw [Heap.make, hsame]
      exact hbefore h List.mem_cons_self other
    · rw [Heap.make, hnew]
      exact make op result _ parent new (hlast _ (List.mem_singleton_self _)) making _
  | @unruled _ _ _ _ _ id e _ _ ih =>
    have hbefore := ih (List.forall_mem_append.1 allowed).1
    exact List.forall_mem_cons.2 ⟨edited _ id e (hbefore _ List.mem_cons_self), hbefore⟩

/-- In a chronicle from the empty heap all objects are well-formed at all times. -/
theorem wellFormed (chronicle : Chronicle {} past log heap) :
    ∀ h ∈ heap :: past, ∀ id, (h.get id).WellFormed :=
  chronicle.objects (P := Object.WellFormed) (A := fun _ => True)
    (fun _ => Object.Fresh.wellFormed (.ordinary [])) (fun e _ => e.wellFormed)
    (fun _ _ _ _ _ _ making ancestors => (Operation.fresh_of_making making ancestors).wellFormed)
    fun _ _ => trivial

/-- In a chronicle from the empty heap, at all times, a property that is taken away from both places where it may
be is taken away from the one where it belongs. -/
theorem eraseBoth_eq (chronicle : Chronicle {} past log heap) :
    ∀ h ∈ heap :: past, ∀ id key, (h.get id).eraseBoth key = (h.get id).erase key :=
  fun h mem id => (chronicle.wellFormed h mem id).eraseBoth_eq

/-- The heap at an event is the last one or one of the earlier ones. -/
theorem heap_mem (chronicle : Chronicle start past log heap) {e : Event} (mem : e ∈ log) :
    e.heap ∈ heap :: past := by
  induction chronicle with
  | start => cases mem
  | edit _ _ _ _ ih => exact List.mem_cons_of_mem _ (ih mem)
  | note _ _ _ ih | read _ _ ih =>
    rcases List.mem_append.1 mem with mem | last
    · exact ih mem
    · rw [List.mem_singleton.1 last]
      exact List.mem_cons_self
  | make _ _ _ ih | unruled _ _ _ ih =>
    rcases List.mem_append.1 mem with mem | last
    · exact List.mem_cons_of_mem _ (ih mem)
    · rw [List.mem_singleton.1 last]
      exact List.mem_cons_self

/-- An operation that reads the heap was answered what it reads at that moment. -/
theorem result_of_reading (chronicle : Chronicle start past log heap) {op : Operation}
    {f : Heap → op.Answer} (reading : op.reading? = some f) {result : Except Error op.Answer} {h : Heap}
    (mem : ⟨.performed op result, h⟩ ∈ log) : result = .ok (f h) := by
  induction chronicle with
  | start => cases mem
  | edit _ _ _ _ ih => exact ih mem
  | note _ happening other ih =>
    rcases List.mem_append.1 mem with mem | last
    · exact ih mem
    · cases List.mem_singleton.1 last
      rw [other op result rfl] at reading
      cases reading
  | read _ reading' ih =>
    rcases List.mem_append.1 mem with mem | last
    · exact ih mem
    · cases List.mem_singleton.1 last
      rw [reading] at reading'
      cases reading'
      rfl
  | make _ making _ ih =>
    rcases List.mem_append.1 mem with mem | last
    · exact ih mem
    · cases List.mem_singleton.1 last
      cases op <;> cases making <;> cases reading
  | unruled _ made _ ih =>
    rcases List.mem_append.1 mem with mem | last
    · exact ih mem
    · cases List.mem_singleton.1 last
      cases op <;> cases made <;> cases reading

/-- A chronicle starts at its last heap, or goes back from it by one change. -/
theorem past_cases (chronicle : Chronicle start past log heap) :
    past = [] ∧ heap = start
      ∨ ∃ h earlier log', past = h :: earlier ∧ Chronicle start earlier log' h ∧ h.Next heap := by
  induction chronicle with
  | start => exact .inl ⟨rfl, rfl⟩
  | edit before id e _ => exact .inr ⟨_, _, _, rfl, before, .edit id e⟩
  | note _ _ _ ih | read _ _ ih => exact ih
  | make before making _ =>
    exact .inr ⟨_, _, _, rfl, before, .allocate (Operation.fresh_of_making making _)⟩
  | @unruled _ _ _ before _ id e => exact .inr ⟨_, _, _, rfl, before, .edit id e⟩

/-- Every earlier heap has a chronicle of its own, which goes back in the same way. -/
theorem of_suffix (chronicle : Chronicle start past log heap) {h : Heap} {earlier : List Heap}
    (suffix : h :: earlier <:+ heap :: past) : ∃ log', Chronicle start earlier log' h := by
  induction past generalizing heap log with
  | nil =>
    cases List.suffix_cons_iff.1 suffix with
    | inl same =>
      cases same
      exact ⟨log, chronicle⟩
    | inr suffix => cases List.suffix_nil.1 suffix
  | cons g past ih =>
    cases List.suffix_cons_iff.1 suffix with
    | inl same =>
      cases same
      exact ⟨log, chronicle⟩
    | inr suffix =>
      obtain ⟨hnil, -⟩ | ⟨_, _, log', hpast, before, -⟩ := chronicle.past_cases
      · cases hnil
      · cases hpast
        exact ih before suffix

end Chronicle

end ObjectModel
