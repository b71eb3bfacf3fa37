import ObjectModel.Proofs.Run.Chronicle

/-!
# Histories

A `History` is how a heap came about: from the heap at the start by edits that follow the rules, by new
objects, and by the two operations that bypass the rules, in some order, with the events that were noted
meanwhile. Every run has one, whatever the program and the host do (`Host.history`). It is what is left of
a chronicle when the heaps in between are forgotten, and with them what each operation did by itself.

So a law about runs is a law about histories, proved by going through the four ways in which a history
goes on. For a property of heaps this is done once and for all in `History.invariant`.
-/

namespace ObjectModel

variable {σ α : Type}

/-- How a heap came about from the one at the start, and what happened meanwhile. -/
inductive History (start : Heap) : List Event → Heap → Prop
  /-- Nothing has happened yet. -/
  | start : History start [] start
  /-- An operation under way has edited an object by the rules. -/
  | edit {log : List Event} {heap : Heap} (before : History start log heap) (id : ObjectId) (e : Edit)
      (ruled : e.Ruled (heap.get id)) : History start log (heap.edit id e)
  /-- An operation under way has made an object. -/
  | allocate {log : List Event} {heap : Heap} (before : History start log heap) {o : Object}
      (fresh : o.Fresh) : History start log (heap.allocate o).2
  /-- Something has been noted. -/
  | note {log : List Event} {heap : Heap} (before : History start log heap) (happening : Happening) :
    History start (log ++ [⟨happening, heap⟩]) heap
  /-- An operation has bypassed the rules. -/
  | unruled {log : List Event} {heap : Heap} (before : History start log heap) {op : Operation}
      {id : ObjectId} {e : Edit} (made : op.unruledEdit? = some (id, e))
      (result : Except Error op.Answer) :
    History start (log ++ [⟨.performed op result, heap.edit id e⟩]) (heap.edit id e)

/-! ## Every run has a history -/

/-- A chronicle tells a history. -/
theorem Chronicle.history {start heap : Heap} {past : List Heap} {log : List Event}
    (chronicle : Chronicle start past log heap) : History start log heap := by
  induction chronicle with
  | start => exact .start
  | edit _ id e ruled ih => exact ih.edit id e ruled
  | note _ happening _ ih => exact ih.note happening
  | read _ _ ih => exact ih.note _
  | make _ making _ ih => exact (ih.allocate (Operation.fresh_of_making making _)).note _
  | unruled _ made result ih => exact ih.unruled made result

/-- A run's trace is a history of the heap that it leaves behind. -/
theorem Host.history (host : Host σ) (depth : Nat) (r : Routine σ α) (w : World σ) :
    History w.heap (host.trace depth r w) (host.run depth r w).2.heap := by
  obtain ⟨past, chronicle⟩ := host.chronicle depth r w
  exact chronicle.history

/-! ## Laws of histories -/

namespace History

variable {start heap : Heap} {log : List Event}

/-- A property of heaps that holds at the start and that is kept on every way to go on holds at the end
and at every event, as long as the events are among those that keep it. -/
theorem invariant {I : Heap → Prop} {P : Event → Prop} (history : History start log heap)
    (base : I start)
    (edit : ∀ h id e, I h → e.Ruled (h.get id) → I (h.edit id e))
    (allocate : ∀ h o, I h → o.Fresh → I (h.allocate o).2)
    (unruled : ∀ h op id e result, I h → op.unruledEdit? = some (id, e) →
      P ⟨.performed op result, h.edit id e⟩ → I (h.edit id e))
    (allowed : ∀ e ∈ log, P e) : I heap ∧ ∀ e ∈ log, I e.heap := by
  induction history with
  | start => exact ⟨base, by simp⟩
  | edit _ id e ruled ih => exact ⟨edit _ id e (ih allowed).1 ruled, (ih allowed).2⟩
  | allocate _ fresh ih => exact ⟨allocate _ _ (ih allowed).1 fresh, (ih allowed).2⟩
  | note _ happening ih =>
    obtain ⟨hheap, hlog⟩ := ih fun e he => allowed e (List.mem_append_left _ he)
    refine ⟨hheap, fun e he => ?_⟩
    rcases List.mem_append.1 he with he | he
    · exact hlog e he
    · rw [List.mem_singleton.1 he]
      exact hheap
  | unruled _ made result ih =>
    obtain ⟨hheap, hlog⟩ := ih fun e he => allowed e (List.mem_append_left _ he)
    have hlast := unruled _ _ _ _ result hheap made
      (allowed _ (List.mem_append_right _ (List.mem_singleton_self _)))
    refine ⟨hlast, fun e he => ?_⟩
    rcases List.mem_append.1 he with he | he
    · exact hlog e he
    · rw [List.mem_singleton.1 he]
      exact hlast

/-- What holds at the end and at every event holds whenever the heap can be seen. -/
theorem visit {I : Heap → Prop} {h : Heap} (all : I heap ∧ ∀ e ∈ log, I e.heap)
    (visited : h = heap ∨ ∃ e ∈ log, h = e.heap) : I h := by
  rcases visited with rfl | ⟨e, he, rfl⟩
  · exact all.1
  · exact all.2 e he

/-- The last of a list of events comes after a given one of them, or is that one. -/
theorem later_of_concat {before later : List Event} {e last : Event}
    (h : before ++ e :: later = log ++ [last]) :
    (later = [] ∧ e = last) ∨ ∃ rest, later = rest ++ [last] ∧ before ++ e :: rest = log := by
  rcases List.eq_nil_or_concat later with rfl | ⟨rest, x, rfl⟩
  · exact .inl ⟨rfl, (List.concat_inj.1 (by simpa using h)).2⟩
  · rw [List.concat_eq_append, ← List.cons_append, ← List.append_assoc] at h
    obtain ⟨hlog, hlast⟩ := List.append_inj' h rfl
    exact .inr ⟨rest, by rw [List.concat_eq_append, hlast], hlog⟩

/-- What follows an event is a history that starts at that event. -/
theorem after {before later : List Event} {e : Event}
    (history : History start (before ++ e :: later) heap) : History e.heap later heap := by
  -- going back from the end, the events after `e` are taken off one by one until `e` is the last
  generalize hlog : before ++ e :: later = log at history
  induction history generalizing later with
  | start => simp at hlog
  | edit _ id edit ruled ih => exact (ih hlog).edit id edit ruled
  | allocate _ fresh ih => exact (ih hlog).allocate fresh
  | note _ happening ih =>
    rcases later_of_concat hlog with ⟨rfl, rfl⟩ | ⟨rest, rfl, hrest⟩
    · exact .start
    · exact (ih hrest).note happening
  | unruled _ made result ih =>
    rcases later_of_concat hlog with ⟨rfl, rfl⟩ | ⟨rest, rfl, hrest⟩
    · exact .start
    · exact (ih hrest).unruled made result

end History

end ObjectModel
