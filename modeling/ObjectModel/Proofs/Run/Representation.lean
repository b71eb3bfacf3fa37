import ObjectModel.Proofs.Run.History

/-!
# The representation of arrays cannot be observed

Two programs are `Twin` if they are one program but for the capacities and the limits that they make
arrays with, and a program that looks at the heap goes by its view. Two hosts are twins if what their
function objects do is. Started from worlds with the same view, twins cannot be told apart
(`Host.run_twin`): every operation has the same answer or error in both runs, the same functions are
called with the same arguments, and the views are the same at every event and at the end.

The worlds at the start may hold arrays in any representation, dense or sparse, of any capacity and with
any limits, and the runs may change the representations at different times.
-/

namespace ObjectModel

variable {σ α : Type}

/-! ## Twins -/

/-- Two programs that differ at most in the capacities and limits of the arrays that they make. What they
read off the heap, they read off its view. -/
inductive Routine.Twin : Routine σ α → Routine σ α → Prop
  | finish (a : α) : Twin (.finish a) (.finish a)
  | perform (op : Operation) {next next' : Except Error op.Answer → Routine σ α}
      (rest : ∀ result, Twin (next result) (next' result)) :
    Twin (.perform op next) (.perform op next')
  | newArray (parent : Option ObjectId) (capacity capacity' : Nat) (limits limits' : Limits)
      {next next' : Except Error ObjectId → Routine σ α}
      (rest : ∀ result, Twin (next result) (next' result)) :
    Twin (.perform (.newArray parent capacity limits) next)
      (.perform (.newArray parent capacity' limits') next')
  | consult (update : σ → σ) {next next' : σ → Routine σ α} (rest : ∀ s, Twin (next s) (next' s)) :
    Twin (.consult update next) (.consult update next')
  | look {next next' : Heap → Routine σ α}
      (rest : ∀ h h' : Heap, h.view = h'.view → Twin (next h) (next' h')) :
    Twin (.look next) (.look next')

/-- Two hosts whose function objects do the same, but for the capacities and limits of the arrays that
they make. -/
structure Host.Twin (host host' : Host σ) : Prop where
  behaviour : ∀ f this arguments,
    (host.behaviour f this arguments).Twin (host'.behaviour f this arguments)
  refused : host.refused = host'.refused

/-! ## What can be seen of a run -/

/-- A happening without the capacity and the limits of an array that is made. -/
def Happening.plain : Happening → Happening
  | performed (.newArray parent _ _) result => performed (.newArray parent 0 {}) result
  | happening => happening

/-- What can be seen of an event. -/
structure EventView where
  happening : Happening
  heap : Array ObjectView

/-- What can be seen of an event. -/
def Event.view (e : Event) : EventView := ⟨e.happening.plain, e.heap.view⟩

/-- Worlds with alike heaps, the same host state and records that look the same. -/
structure SameView (w w' : World (Recorded σ)) : Prop where
  heaps : w.heap.Alike w'.heap
  hosts : w.host.host = w'.host.host
  logs : w.host.log.map Event.view = w'.host.log.map Event.view

/-- Edits and new objects keep the views the same. -/
theorem SameView.stable : Stable (SameView (σ := σ)) where
  alike h := h.heaps
  edit id e h _ := ⟨h.heaps.edit id e, h.hosts, h.logs⟩
  allocate h _ := ⟨h.heaps.allocate (.refl _), h.hosts, h.logs⟩

/-- What looks the same may be noted in both records. -/
theorem SameView.note {w w' : World (Recorded σ)} (h : SameView w w')
    {happening happening' : Happening} (same : happening.plain = happening'.plain) :
    SameView ⟨w.heap, w.host.note happening w.heap⟩ ⟨w'.heap, w'.host.note happening' w'.heap⟩ := by
  refine ⟨h.heaps, h.hosts, ?_⟩
  have hlast : Event.view ⟨happening, w.heap⟩ = Event.view ⟨happening', w'.heap⟩ := by
    rw [Event.view, Event.view, same, Heap.view_eq_iff.2 h.heaps]
  simp only [Recorded.note, List.map_append, List.map_cons, List.map_nil, h.logs, hlast]

/-! ## Twins agree -/

/-- Arrays made for any capacity and with any limits are alike. -/
theorem Object.Alike.empty (ancestors : List ObjectId) (capacity capacity' : Nat)
    (limits limits' : Limits) :
    (Object.array ancestors capacity limits).Alike (Object.array ancestors capacity' limits') :=
  .array (fun i => by rw [Elements.read_withLimits, Elements.read_withLimits]) ..

section

variable {run run' : Callback (Recorded σ)} {w w' : World (Recorded σ)}

/-- Every operation agrees from worlds that look the same, also one that bypasses the rules. -/
theorem SameView.perform_agree (calls : Protocol.CallsAgree SameView run run') (op : Operation)
    (h : SameView w w') : Agree SameView (op.perform run) (op.perform run') w w' := by
  cases hunruled : op.unruledEdit? with
  | none => exact op.perform_agree SameView.stable calls hunruled h
  | some edited =>
    obtain ⟨id, e⟩ := edited
    exact op.perform_agree_of_unruled hunruled h.heaps ⟨h.heaps.edit id e, h.hosts, h.logs⟩

/-- The making of an array has the same answer and leaves the same view, whatever its capacity and its
limits. -/
theorem SameView.newArray (run run' : Callback (Recorded σ)) (h : SameView w w')
    (parent : Option ObjectId) (capacity capacity' : Nat) (limits limits' : Limits) :
    ∃ id v v', ((Operation.newArray parent capacity limits).perform run).outcome w = (.ok id, v)
      ∧ ((Operation.newArray parent capacity' limits').perform run').outcome w' = (.ok id, v')
      ∧ SameView v v' := by
  let ancestors := (parent.map w.heap.chain).getD []
  have hancestors : ancestors = (parent.map w'.heap.chain).getD [] := by
    rw [← funext h.heaps.chain]
  let o := Object.array ancestors capacity limits
  let o' := Object.array ancestors capacity' limits'
  refine ⟨(w.heap.allocate o).1, w.allocate o, w'.allocate o', rfl, ?_, ?_⟩
  · rw [h.heaps.fst_allocate o o']
    show (_, w'.allocate (Object.array _ capacity' limits')) = _
    rw [← hancestors]
    rfl
  · exact ⟨h.heaps.allocate (.empty ancestors capacity capacity' limits limits'), h.hosts, h.logs⟩

/-- Twins with a record agree, from worlds that look the same. -/
theorem Routine.Twin.agree {r r' : Routine σ α} (twins : r.Twin r')
    (calls : Protocol.CallsAgree SameView run run') (h : SameView w w') :
    Routine.Agree SameView run run' r.recorded r'.recorded w w' := by
  induction twins generalizing w w' with
  | finish a => exact ⟨rfl, h⟩
  | perform op _ ih =>
    exact .perform (SameView.perform_agree calls op h) fun result v v' h => ih result (h.note rfl)
  | newArray parent capacity capacity' limits limits' _ ih =>
    -- these are two operations, so the agreement of one operation in two worlds says nothing here
    obtain ⟨id, v, v', hmade, hmade', hsame⟩ :=
      h.newArray run run' parent capacity capacity' limits limits'
    show Routine.Agree SameView run run' (.perform _ _) (.perform _ _) w w'
    rw [Routine.Agree, Routine.runWith_perform, Routine.runWith_perform, hmade, hmade']
    exact ih (.ok id) (hsame.note rfl)
  | consult update _ ih =>
    have hhosts : Recorded.host w.host = w'.host.host := h.hosts
    have hupdated : SameView ⟨w.heap, w.host.update update⟩ ⟨w'.heap, w'.host.update update⟩ :=
      ⟨h.heaps, congrArg update h.hosts, h.logs⟩
    have hnext := ih w.host.host hupdated
    show Routine.Agree SameView run run' (.consult _ _) (.consult _ _) w w'
    rw [Routine.Agree] at hnext ⊢
    simp only [Routine.runWith, ← hhosts]
    exact hnext
  | look _ ih => exact ih w.heap w'.heap (Heap.view_eq_iff.2 h.heaps) h

end

namespace Host

/-- Twins cannot be told apart: started from worlds that differ at most in the representation of arrays,
they end with the same answer, the same host state and the same view, and along the way the same
happens before the same views. -/
theorem run_twin {host host' : Host σ} (hosts : host.Twin host') {r r' : Routine σ α}
    (programs : r.Twin r') (depth : Nat) (w w' : World σ) (views : w.heap.view = w'.heap.view)
    (states : w.host = w'.host) :
    (host.run depth r w).1 = (host'.run depth r' w').1
      ∧ (host.run depth r w).2.host = (host'.run depth r' w').2.host
      ∧ (host.run depth r w).2.heap.view = (host'.run depth r' w').2.heap.view
      ∧ (host.trace depth r w).map Event.view = (host'.trace depth r' w').map Event.view := by
  have calls : Protocol.CallsAgree SameView (host.recorded.call depth) (host'.recorded.call depth) := by
    refine calls_agree ?_ ?_ depth
    · intro f w w' h
      refine ⟨h.heaps, ?_, h.logs⟩
      show host.refused f w.host.host = host'.refused f w'.host.host
      rw [hosts.refused, h.hosts]
    · intro run run' calls f this arguments w w' h
      exact (hosts.behaviour f this arguments).agree calls (h.note rfl)
  have hstart : SameView ⟨w.heap, { host := w.host }⟩ ⟨w'.heap, { host := w'.host }⟩ :=
    ⟨Heap.view_eq_iff.1 views, states, rfl⟩
  obtain ⟨hanswer, hworlds⟩ := programs.agree calls hstart
  rw [run_eq_record, run_eq_record]
  exact ⟨hanswer, hworlds.hosts, Heap.view_eq_iff.2 hworlds.heaps, hworlds.logs⟩

/-- Makes an array for some capacity and appends a value to it. -/
def appending (capacity : Nat) : Routine Unit (Except Error Nat) :=
  .perform (.newArray none capacity {}) fun
    | .ok id => .perform (.push id .null) .finish
    | .error e => .finish (Except.error e)

/-- An array that starts dense and one that starts sparse, each appended to. -/
theorem run_twin_appending :
    idle.Twin idle ∧ (appending 0).Twin (appending 20000)
      ∧ (idle.run 1 (appending 0) ⟨{}, ()⟩).1 = (idle.run 1 (appending 20000) ⟨{}, ()⟩).1
      ∧ (idle.trace 1 (appending 0) ⟨{}, ()⟩).map Event.view
          = (idle.trace 1 (appending 20000) ⟨{}, ()⟩).map Event.view := by
  have hosts : idle.Twin idle := ⟨fun _ _ _ => .finish _, rfl⟩
  have programs : (appending 0).Twin (appending 20000) := by
    refine .newArray none 0 20000 {} {} fun result => ?_
    cases result with
    | ok id => exact .perform (.push id .null) fun result => .finish result
    | error e => exact .finish _
  obtain ⟨hanswer, -, -, htrace⟩ :=
    run_twin hosts programs 1 ⟨{}, ()⟩ ⟨{}, ()⟩ rfl rfl
  exact ⟨hosts, programs, hanswer, htrace⟩

end Host

end ObjectModel
