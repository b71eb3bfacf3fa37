import ObjectModel.Proofs.Run.ArrayLength

/-!
# Reading under an index

A property can be read in two ways. `get` takes any key, and looks twice at a getter: one that is
`undefined` counts as missing. `tryGet` takes a 32-bit word and tells a missing property from an
`undefined` one, but calls whatever getter there is.

The two agree because no run ever stores a getter that is `undefined`. However properties come about, by
definitions with any fields, of both kinds at once too, every one of them is canonical whenever a run lets
anyone see it (`Host.indexed_reads_agree`). What a read then does is `Property.read`, in both ways.
-/

namespace ObjectModel

variable {σ τ α : Type}

/-- The value that a property has when it is read of an object. A getter is called on that object. -/
def Property.read (run : Callback σ) (id : ObjectId) : Property → Action σ Value
  | data v _ => pure v
  | accessor (some f) _ _ => Action.call run f (.object id) []
  | accessor none _ _ => pure .undefined

namespace Protocol

variable {w : World σ} {id : ObjectId} {key : Key} {p : Property}

/-- The value of a canonical property is read. -/
theorem outcome_get (run : Callback σ) (found : w.heap.property? id key = some p)
    (canonical : p.Canonical) : (get run id key).outcome w = (p.read run id).outcome w := by
  rw [get, Action.outcome_inspect_bind, found]
  cases p with
  | data => rfl
  | accessor getter setter a =>
    cases getter with
    | none => rfl
    | some f =>
      -- the getter is looked at once more, but it is not `undefined`
      have hkept : (some f).filter (!·.isUndefined) = some f := by
        cases f with
        | undefined => exact absurd rfl canonical.clean.1
        | null | boolean _ | number _ | string _ | object _ => rfl
      dsimp only
      rw [hkept]
      rfl

/-- Where there is no property, there is no value under the word. -/
theorem outcome_tryGet_of_none (run : Callback σ) {i : Nat}
    (missing : w.heap.property? id (.ofWord i) = none) : (tryGet run id i).outcome w = (.ok none, w) := by
  rw [tryGet, Action.outcome_inspect_bind, missing]
  rfl

/-- The value under a word is read, whatever the property. -/
theorem outcome_tryGet (run : Callback σ) {i : Nat} (found : w.heap.property? id (.ofWord i) = some p) :
    (tryGet run id i).outcome w = (some <$> p.read run id).outcome w := by
  rw [tryGet, Action.outcome_inspect_bind, found]
  cases p with
  | data => rfl
  | accessor getter _ _ => cases getter <;> rfl

/-- A word with a property has some value, unless the read fails. -/
theorem outcome_tryGet_ne (run : Callback σ) {i : Nat}
    (found : w.heap.property? id (.ofWord i) = some p) (v : World σ) :
    (tryGet run id i).outcome w ≠ (.ok none, v) := by
  rw [outcome_tryGet run found, Action.outcome_map]
  cases ((p.read run id).outcome w).1 with
  | ok value => exact fun h => Option.some_ne_none value (Except.ok.inj (Prod.mk.inj h).1)
  | error e => exact fun h => nomatch (Prod.mk.inj h).1

end Protocol

/-- All objects are well-formed whenever a run lets anyone see them. -/
theorem Host.Visits.wellFormed {host : Host σ} {depth : Nat} {r : Routine σ α} {s : σ} {h : Heap}
    (visited : host.Visits depth r ⟨{}, s⟩ h) (id : ObjectId) : (h.get id).WellFormed := by
  obtain ⟨past, chronicle⟩ := host.chronicle depth r ⟨{}, s⟩
  exact chronicle.wellFormed h (visited.mem chronicle) id

/-- A property on a chain of well-formed objects is canonical. -/
theorem Heap.canonical_of_property? {h : Heap} (wellFormed : ∀ id, (h.get id).WellFormed) {id : ObjectId}
    {key : Key} {p : Property} (found : h.property? id key = some p) : p.Canonical := by
  obtain ⟨ancestor, -, hfound⟩ := List.exists_of_findSome?_eq_some found
  exact (wellFormed ancestor).canonical key p hfound

/-- Whenever a run lets anyone see the objects, every property that is stored anywhere is canonical. And
whatever the object and the word, the read under the word tells that there is no property, and changes
nothing, exactly if there is none on the chain. If there is one, both ways to read it come down to the
same: its value, or the one call of its getter on the object that is read.

The callback may be any, so also one that keeps a record of its calls. -/
theorem Host.indexed_reads_agree (host : Host σ) (depth : Nat) (r : Routine σ α) (s : σ) {h : Heap}
    (visited : host.Visits depth r ⟨{}, s⟩ h) :
    (∀ id key p, (key, p) ∈ (h.get id).properties → p.Canonical)
      ∧ ∀ (τ : Type) (run : Callback τ) (s' : τ) (id : ObjectId) (i : Nat),
        (((Operation.tryGet id i).perform run).outcome ⟨h, s'⟩ = (.ok none, ⟨h, s'⟩)
            ↔ ((Operation.has id (.ofWord i)).perform run).outcome ⟨h, s'⟩ = (.ok false, ⟨h, s'⟩))
          ∧ ∀ p, h.property? id (.ofWord i) = some p →
            ((Operation.get id (.ofWord i)).perform run).outcome ⟨h, s'⟩ = (p.read run id).outcome ⟨h, s'⟩
              ∧ ((Operation.tryGet id i).perform run).outcome ⟨h, s'⟩
                = (some <$> p.read run id).outcome ⟨h, s'⟩ := by
  have wellFormed := visited.wellFormed
  refine ⟨fun id key p mem => ?_, fun τ run s' id i => ⟨?_, fun p found => ⟨?_, ?_⟩⟩⟩
  · exact (wellFormed id).canonical key p ((wellFormed id).find?_of_mem_properties mem)
  · have has : ((Operation.has id (.ofWord i)).perform run).outcome ⟨h, s'⟩
        = (.ok (h.property? id (.ofWord i)).isSome, ⟨h, s'⟩) := rfl
    rw [has]
    cases hproperty : h.property? id (.ofWord i) with
    | none => exact iff_of_true (Protocol.outcome_tryGet_of_none run hproperty) rfl
    | some p =>
      refine iff_of_false (Protocol.outcome_tryGet_ne run hproperty _) fun hfalse => ?_
      cases Except.ok.inj (Prod.mk.inj hfalse).1
  · exact Protocol.outcome_get run found (Heap.canonical_of_property? wellFormed found)
  · exact Protocol.outcome_tryGet run found

/-- Makes an array that inherits from an object whose first element has a getter, and a setter that is
`undefined`. -/
def Host.inheriting : Routine Unit (Except Error ObjectId) :=
  .perform .newFunction fun _ =>
    .perform (.newObject none) fun _ =>
      .perform (.define ⟨1⟩ (.ofWord 0) { get := some (.object ⟨0⟩), set := some .undefined } true) fun _ =>
        .perform (.newArray (some ⟨1⟩) 0 {}) .finish

/-- The setter is left out, and both ways to read the element of the array call the getter on it. -/
theorem Host.indexed_reads_agree_inheriting :
    let h := (idle.run 1 inheriting ⟨{}, ()⟩).2.heap
    idle.Visits 1 inheriting ⟨{}, ()⟩ h
      ∧ h.property? ⟨2⟩ (.ofWord 0) = some (.accessor (some (.object ⟨0⟩)) none .none)
      ∧ ((Operation.get ⟨2⟩ (.ofWord 0)).perform (idle.call 1)).outcome ⟨h, ()⟩
        = (Action.call (idle.call 1) (.object ⟨0⟩) (.object ⟨2⟩) []).outcome ⟨h, ()⟩
      ∧ ((Operation.tryGet ⟨2⟩ 0).perform (idle.call 1)).outcome ⟨h, ()⟩
        = (some <$> Action.call (idle.call 1) (.object ⟨0⟩) (.object ⟨2⟩) []).outcome ⟨h, ()⟩ := by
  intro h
  have visited : idle.Visits 1 inheriting ⟨{}, ()⟩ h := .inl rfl
  have found : h.property? ⟨2⟩ (.ofWord 0) = some (.accessor (some (.object ⟨0⟩)) none .none) := by
    decide +kernel
  obtain ⟨-, hreads⟩ := indexed_reads_agree idle 1 inheriting () visited
  obtain ⟨-, hfound⟩ := hreads Unit (idle.call 1) () ⟨2⟩ 0
  exact ⟨visited, found, hfound _ found⟩

end ObjectModel
