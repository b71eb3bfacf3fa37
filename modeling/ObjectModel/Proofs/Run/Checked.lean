import ObjectModel.Proofs.Object.Checked
import ObjectModel.Proofs.Run.ArrayLength

/-!
# No fault in a run

Nothing that a run computes on 32-bit words goes wrong: no sum overflows, no difference is negative, no
size or offset is lost in a word, and no slot is missing when it is written. Each of these is checked in
the operations with a question mark, and at all times of every run these go as the unchecked ones do
(`Host.no_check_fails`). Operations that bypass the rules are not excluded, so the `length` of an array may
be anything, or be missing.

An edit of the objects at any time is `Heap.Faultless`. Apart from edits, appending and removing at the end
compute with the length, and making an array of values writes to a storage. A storage that is used by
itself has any commands.
-/

namespace ObjectModel

variable {σ α : Type}

namespace Protocol

open ObjectModel.Action

/-- Appends a value and answers the new length, which has to be a word. -/
def push? (run : Callback σ) (id : ObjectId) (value : Value) : Action σ (Option Nat) := do
  let length ← inspect fun h => (h.get id).length
  if h : length < maxLength then
    put run id (.index ⟨length, h⟩) value true
    match Word.add? length 1 with
    | some longer =>
      put run id .length (.ofNat longer) true
      pure (some longer)
    | none => pure none
  else
    throw .lengthExhausted

/-- Removes the last element and answers its value. Its position has to be a word. -/
def pop? (run : Callback σ) (id : ObjectId) : Action σ (Option Value) := do
  let length ← inspect fun h => (h.get id).length
  if length = 0 then
    put run id .length (.ofNat 0) true
    pure (some .undefined)
  else
    match Word.sub? length 1 with
    | some last =>
      let key := Key.ofWord last
      let element ← get run id key
      discard (delete id key true)
      put run id .length (.ofNat last) true
      pure (some element)
    | none => pure none

/-- A value is appended as it is unchecked. -/
theorem push?_eq (run : Callback σ) (id : ObjectId) (value : Value) :
    push? run id value = some <$> push run id value := by
  rw [push?, push, map_bind]
  refine bind_congr fun length => ?_
  split
  · next h =>
    rw [Word.add?_eq (Nat.lt_of_le_of_lt h (by decide))]
    simp only [map_bind, map_pure]
  · rfl

/-- The last element is removed as it is unchecked. -/
theorem pop?_eq (run : Callback σ) (id : ObjectId) : pop? run id = some <$> pop run id := by
  rw [pop?, pop, map_bind]
  refine bind_congr fun length => ?_
  split
  · simp only [map_bind, map_pure]
  · next h =>
    rw [Word.sub?_eq (Nat.one_le_iff_ne_zero.2 h)]
    simp only [map_bind, map_pure]

end Protocol

/-- If an array was made, it was made for a capacity that is a word. -/
def Event.capacityInRange (e : Event) : Bool :=
  match e.happening with
  | .performed (.newArray _ capacity _) _ => capacity < 2 ^ 32
  | _ => true

/-- Whatever may be done next to an object of the heap goes as it does unchecked. -/
structure Heap.Faultless (h : Heap) : Prop where
  /-- Every edit does. -/
  edit : ∀ id (e : Edit), e.act? (h.get id) = some (e.act (h.get id))
  /-- So does the listing of keys. -/
  keys : ∀ id, (h.get id).keys? = some (h.get id).keys
  /-- No element is at the largest word, or past it. -/
  indices : ∀ id i, ((h.get id).element? i).isSome = true → i < maxLength

/-- All objects are sized at all times, if arrays are made for capacities that are words. -/
theorem Chronicle.sized {past : List Heap} {log : List Event} {heap : Heap}
    (chronicle : Chronicle {} past log heap) (words : ∀ e ∈ log, e.capacityInRange = true) :
    ∀ h ∈ heap :: past, ∀ id, (h.get id).Sized := by
  refine chronicle.objects (P := Object.Sized) (A := (·.capacityInRange = true))
    (fun _ => nofun) (fun e _ => e.sized) ?make words
  intro op result after parent new word making ancestors
  cases op <;> cases making
  · exact nofun
  · next capacity limits =>
    have hword : capacity < 2 ^ 32 := of_decide_eq_true word
    exact (Object.change_array ancestors capacity limits).sized (.blankArray ancestors hword limits)
  · next values => exact .arrayOf values
  · exact nofun

/-- Nothing that a run computes on words goes wrong. At every heap in a chronicle of the run, so also while
operations are under way, whatever may be done next to any object goes as it does unchecked, if arrays are
made for capacities that are words. Appending and removing at the end do so on any object in any world,
with any callback, and so does making an array of values. Any commands to a storage by itself do so, and
the listing of its occupied positions. -/
theorem Host.no_check_fails (host : Host σ) (depth : Nat) (r : Routine σ α) (s : σ)
    (words : ∀ e ∈ host.trace depth r ⟨{}, s⟩, e.capacityInRange = true) :
    ((∃ past, Chronicle {} past (host.trace depth r ⟨{}, s⟩) (host.run depth r ⟨{}, s⟩).2.heap)
      ∧ ∀ past, Chronicle {} past (host.trace depth r ⟨{}, s⟩) (host.run depth r ⟨{}, s⟩).2.heap →
        (∀ h, host.Visits depth r ⟨{}, s⟩ h → h ∈ (host.run depth r ⟨{}, s⟩).2.heap :: past)
          ∧ ∀ h ∈ (host.run depth r ⟨{}, s⟩).2.heap :: past, h.Faultless)
      ∧ (∀ (τ : Type) (run : Callback τ) (id : ObjectId) (value : Value),
        Protocol.push? run id value = some <$> Protocol.push run id value
          ∧ Protocol.pop? run id = some <$> Protocol.pop run id)
      ∧ (∀ values, Object.arrayOf? values = some (Object.arrayOf values))
      ∧ ∀ (β : Type) (capacity : Nat) (limits : Limits) (commands : List (Elements.Command β)),
        capacity < 2 ^ 32 → (∀ c ∈ commands, c.InRange) →
          let result := Elements.Command.runAll Elements.Command.onElements commands
            (.withLimits capacity limits)
          Elements.Command.runAll? Elements.Command.onElements? commands (.withLimits capacity limits)
              = some result
            ∧ result.2.indices? = some result.2.indices := by
  refine ⟨⟨host.chronicle depth r ⟨{}, s⟩,
      fun past chronicle => ⟨fun h visited => visited.mem chronicle, fun h mem => ?objects⟩⟩,
    fun τ run id value => ⟨Protocol.push?_eq run id value, Protocol.pop?_eq run id⟩,
    Object.arrayOf?_eq, fun β capacity limits commands word inRange => ?storages⟩
  case objects =>
    have sized := chronicle.sized words h mem
    have wellFormed := chronicle.wellFormed h mem
    exact ⟨fun id e => e.act?_eq (sized id), fun id => (sized id).keys?_eq,
      fun id => (wellFormed id).indices⟩
  case storages =>
    have sized : (Elements.withLimits capacity limits : Elements β).capacity < 2 ^ 32 :=
      Nat.lt_of_le_of_lt (Elements.capacity_withLimits_le capacity limits) word
    obtain ⟨hrun, hend⟩ := Elements.Command.runAll?_eq inRange sized
    exact ⟨hrun, Elements.indices?_eq hend⟩

/-- Nothing goes wrong after an array has grown, nor in a storage that is written to at the largest word. -/
theorem Host.no_check_fails_growing :
    (∀ e ∈ idle.trace 1 growing ⟨{}, ()⟩, e.capacityInRange = true)
      ∧ (idle.run 1 growing ⟨{}, ()⟩).2.heap.Faultless
      ∧ (Elements.Command.runAll? Elements.Command.onElements? [.write 3 'a', .write 4294967295 'b']
          (.withLimits 2 {})).map Prod.fst = some [none, none] := by
  have words : ∀ e ∈ idle.trace 1 growing ⟨{}, ()⟩, e.capacityInRange = true := by decide +kernel
  obtain ⟨⟨⟨past, chronicle⟩, objects⟩, -, -, storages⟩ := no_check_fails idle 1 growing () words
  refine ⟨words, (objects past chronicle).2 _ List.mem_cons_self, ?_⟩
  have inRange : ∀ c ∈ [Elements.Command.write 3 'a', .write 4294967295 'b'], c.InRange := by
    simp [Elements.Command.InRange]
  rw [(storages Char 2 {} [.write 3 'a', .write 4294967295 'b'] (by decide) inRange).1]
  rfl

end ObjectModel
