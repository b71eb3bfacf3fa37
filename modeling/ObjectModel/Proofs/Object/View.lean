import ObjectModel.Object.Enumeration
import ObjectModel.Object.Laws
import ObjectModel.Proofs.Elements.Truncation
import ObjectModel.Proofs.Object.Edit
import ObjectModel.Proofs.PropertyTable

/-!
# What can be seen of an object

The `view` of an object is all that the object shows of itself but how the elements of an array are
represented: no capacity, no thresholds, neither dense nor sparse. Two objects with one view are
`Alike`: they are the same object up to the representation of their elements (`view_eq_iff`).

Alike objects cannot be told apart by an edit. It answers the same on both and leaves objects alike
again (`Alike.act`).
-/

namespace ObjectModel

/-- What an object shows of itself, its representation apart. -/
structure ObjectView where
  kind : Class
  ancestors : List ObjectId
  extensible : Bool
  length : Nat
  /-- The own property under each key. -/
  own : Key → Option Property
  /-- The own properties in order. -/
  properties : List (Key × Property)
  /-- The occupied positions of an array. -/
  occupied : Option (List Nat)
  /-- The number of elements of an array. -/
  count : Option Nat

namespace Object

/-- What an object shows of itself, its representation apart. -/
def view (o : Object) : ObjectView where
  kind := o.toClass
  ancestors := o.ancestors
  extensible := o.extensible
  length := o.length
  own := o.find?
  properties := o.properties
  occupied := o.elements?.map (·.indices)
  count := o.elements?.map (·.count)

/-- Two objects are alike if they are one object, or arrays with the same entries that agree in all
else. -/
inductive Alike : Object → Object → Prop
  | refl (o : Object) : Alike o o
  | array {e e' : Elements Property} (same : ∀ i, e.read i = e'.read i) (table : PropertyTable)
      (ancestors : List ObjectId) (extensible : Bool) :
      Alike ⟨.array e, table, ancestors, extensible⟩ ⟨.array e', table, ancestors, extensible⟩

namespace Alike

variable {o o' : Object}

/-! ## Questions to alike objects -/

/-- Alike objects are of one class. -/
theorem toClass (h : o.Alike o') : o.toClass = o'.toClass := by
  cases h <;> rfl

/-- Alike objects have the same prototypes. -/
theorem ancestors (h : o.Alike o') : o.ancestors = o'.ancestors := by
  cases h <;> rfl

/-- Of alike objects, both take new properties or neither. -/
theorem extensible (h : o.Alike o') : o.extensible = o'.extensible := by
  cases h <;> rfl

/-- Alike objects have the same own properties. -/
theorem find? (h : o.Alike o') (key : Key) : o.find? key = o'.find? key := by
  cases h with
  | refl => rfl
  | array same =>
    cases key with
    | index i => exact same i
    | name => rfl

/-- Alike objects are arrays together. -/
theorem isArray (h : o.Alike o') : o.isArray = o'.isArray := by
  rw [Object.isArray, Object.isArray, h.toClass]

/-- Alike objects have the same length, writable in both or in neither. -/
theorem lengthState (h : o.Alike o') : o.lengthState = o'.lengthState := by
  rw [Object.lengthState, Object.lengthState, h.find?]

/-- Alike objects have the same length. -/
theorem length (h : o.Alike o') : o.length = o'.length := by
  rw [Object.length, Object.length, h.lengthState]

/-- Alike objects say the same of having a property. -/
theorem has (h : o.Alike o') (key : Key) : o.has key = o'.has key := by
  cases h with
  | refl => rfl
  | array same =>
    cases key with
    | index i =>
      simp only [Object.has, Elements.contains, same i]
      rfl
    | name => rfl

/-- Alike objects list the same properties. -/
theorem properties (h : o.Alike o') : o.properties = o'.properties := by
  cases h with
  | refl => rfl
  | array same =>
    rw [Object.properties, Object.properties]
    simp only [elements?, Option.map_some, Option.getD_some, Elements.toList_congr same]

/-- Alike objects list the same keys. -/
theorem keys (h : o.Alike o') : o.keys = o'.keys := by
  cases h with
  | refl => rfl
  | array same =>
    rw [Object.keys, Object.keys]
    simp only [elements?, Option.map_some, Option.getD_some, Elements.indices,
      Elements.toList_congr same]

/-- An enumeration goes on in the same way over alike objects. -/
theorem nextProperty (h : o.Alike o') (pending : List Key) :
    o.nextProperty pending = o'.nextProperty pending := by
  induction pending with
  | nil => rfl
  | cons key rest ih => rw [Object.nextProperty, Object.nextProperty, h.find?, ih]

/-! ## Changes of alike objects -/

/-- A property stored in alike objects leaves alike objects. -/
theorem store (h : o.Alike o') (key : Key) (p : Property) : (o.store key p).Alike (o'.store key p) := by
  cases h with
  | refl => exact .refl _
  | array same =>
    cases key with
    | index i => exact .array (fun j => by rw [Elements.read_write, Elements.read_write, same]) ..
    | name => exact .array same ..

/-- A property taken away from alike objects leaves alike objects. -/
theorem erase (h : o.Alike o') (key : Key) : (o.erase key).Alike (o'.erase key) := by
  cases h with
  | refl => exact .refl _
  | array same =>
    cases key with
    | index i => exact .array (fun j => by rw [Elements.read_delete, Elements.read_delete, same]) ..
    | name => exact .array same ..

/-- Alike objects stay alike when they take no more properties. -/
theorem preventExtensions (h : o.Alike o') : o.preventExtensions.Alike o'.preventExtensions := by
  cases h with
  | refl => exact .refl _
  | array same => exact .array same ..

/-- Alike objects are given a length alike. -/
theorem setLength (h : o.Alike o') (n : Nat) : (o.setLength n).Alike (o'.setLength n) := by
  rw [Object.setLength, Object.setLength, h.find?]
  exact h.store _ _

end Alike

/-- The same answer, and objects alike. -/
def AlikeAnswers {α : Type} (r r' : α × Object) : Prop := r.1 = r'.1 ∧ r.2.Alike r'.2

/-- Of such answers there is one, with two objects. -/
theorem AlikeAnswers.exists_eq {α : Type} {r r' : α × Object} (h : AlikeAnswers r r') :
    ∃ a p p', r = (a, p) ∧ r' = (a, p') ∧ p.Alike p' :=
  ⟨r.1, r.2, r'.2, rfl, Prod.ext h.1.symm rfl, h.2⟩

namespace Alike

variable {o o' : Object}

/-- The ordinary definition does not tell alike objects apart. -/
theorem ordinaryDefine (h : o.Alike o') (key : Key) (d : Descriptor) :
    AlikeAnswers (o.ordinaryDefine key d) (o'.ordinaryDefine key d) := by
  rw [Object.ordinaryDefine, Object.ordinaryDefine, h.find?, h.extensible]
  split
  · exact ⟨rfl, h⟩
  · exact ⟨rfl, h⟩
  · exact ⟨rfl, h.store _ _⟩

/-- The deletion does not tell alike objects apart. -/
theorem delete (h : o.Alike o') (key : Key) : AlikeAnswers (o.delete key) (o'.delete key) := by
  rw [Object.delete, Object.delete, h.find?, h.toClass]
  split
  · exact ⟨rfl, h⟩
  · split
    · exact ⟨rfl, h.erase _⟩
    · exact ⟨rfl, h⟩

/-- The removal of a range of elements does not tell alike objects apart. -/
theorem truncate (h : o.Alike o') (first bound : Nat) :
    AlikeAnswers (o.truncate first bound) (o'.truncate first bound) := by
  cases h with
  | refl => exact ⟨rfl, .refl _⟩
  | array same =>
    obtain ⟨hanswer, hread⟩ := Elements.truncate_congr (!·.isConfigurable) first bound same
    exact ⟨hanswer, .array hread ..⟩

/-- The definition of a length does not tell alike objects apart. -/
theorem defineLength (h : o.Alike o') (n : Nat) (d : Descriptor) :
    AlikeAnswers (o.defineLength n d) (o'.defineLength n d) := by
  simp only [Object.defineLength, h.lengthState]
  generalize Object.lengthState o' = state
  obtain ⟨old, writable⟩ := state
  dsimp only
  split
  · exact h.ordinaryDefine _ _
  split
  · exact ⟨rfl, h⟩
  -- the length is lowered in both, or the definition is refused in both
  generalize (if (d.writable == some false) = true then _ else _ : Descriptor) = lowering
  obtain ⟨verdict, p, p', hlowered, hlowered', hp⟩ := (h.ordinaryDefine .length lowering).exists_eq
  rw [hlowered, hlowered']
  cases verdict with
  | refused => exact ⟨rfl, hp⟩
  | accepted =>
    -- the removal of the elements stops in both at the same one
    obtain ⟨blocked, q, q', hremoved, hremoved', hq⟩ := (hp.truncate n old).exists_eq
    dsimp only
    rw [hremoved, hremoved']
    cases blocked with
    | some b => exact ⟨rfl, (hq.ordinaryDefine _ _).2⟩
    | none =>
      dsimp only
      split
      · exact ⟨rfl, (hq.ordinaryDefine _ _).2⟩
      · exact ⟨rfl, hq⟩

/-- The definition of an element does not tell alike objects apart. -/
theorem defineIndex (h : o.Alike o') (i : Index) (d : Descriptor) :
    AlikeAnswers (o.defineIndex i d) (o'.defineIndex i d) := by
  simp only [Object.defineIndex, h.lengthState]
  generalize Object.lengthState o' = state
  obtain ⟨old, writable⟩ := state
  dsimp only
  split
  · exact ⟨rfl, h⟩
  obtain ⟨verdict, p, p', hdefined, hdefined', hp⟩ := (h.ordinaryDefine (.index i) d).exists_eq
  rw [hdefined, hdefined']
  cases verdict with
  | refused => exact ⟨rfl, hp⟩
  | accepted =>
    dsimp only
    split
    · exact ⟨rfl, hp.setLength _⟩
    · exact ⟨rfl, hp⟩

/-- The definition does not tell alike objects apart. -/
theorem define (h : o.Alike o') (key : Key) (d : Descriptor) :
    AlikeAnswers (o.define key d) (o'.define key d) := by
  cases h with
  | refl => exact ⟨rfl, .refl _⟩
  | array same =>
    cases key with
    | index i => exact (Alike.array same ..).defineIndex i d
    | name => exact (Alike.array same ..).ordinaryDefine _ d

/-- Overwriting a value does not tell alike objects apart. -/
theorem overwrite (h : o.Alike o') (value : Value) (key : Key) :
    AlikeAnswers (Protocol.overwrite value key o) (Protocol.overwrite value key o') := by
  rw [Protocol.overwrite, Protocol.overwrite, h.find?]
  split
  · split
    · exact ⟨rfl, h.store _ _⟩
    · exact ⟨rfl, h⟩
  · exact ⟨rfl, h⟩

/-- Overwriting an element does not tell alike objects apart. -/
theorem overwriteElement (h : o.Alike o') (value : Value) (i : Nat) :
    AlikeAnswers (Protocol.overwriteElement value i o) (Protocol.overwriteElement value i o') := by
  have hread : o.elements?.bind (·.read i) = o'.elements?.bind (·.read i) := by
    cases h with
    | refl => rfl
    | array same => exact same i
  rw [Protocol.overwriteElement, Protocol.overwriteElement, hread]
  split
  · split
    · exact ⟨rfl, h.store _ _⟩
    · exact ⟨rfl, h⟩
  · exact ⟨rfl, h⟩

/-- No edit tells alike objects apart. -/
theorem act (h : o.Alike o') (e : Edit) : AlikeAnswers (e.act o) (e.act o') := by
  cases e with
  | define key d => exact h.define key d
  | defineLength n d => exact h.defineLength n d
  | ordinaryDefine key d => exact h.ordinaryDefine key d
  | delete key => exact h.delete key
  | erase key => exact ⟨rfl, h.erase key⟩
  | preventExtensions => exact ⟨rfl, h.preventExtensions⟩
  | overwrite value key => exact h.overwrite value key
  | overwriteElement value i => exact h.overwriteElement value i

end Alike

/-! ## One view -/

/-- The entries and the table of an array can be told from the lists that it shows. -/
private theorem eq_of_lists {e e' : Elements Property} {table table' : PropertyTable}
    (hindices : e.indices = e'.indices)
    (hproperties : e.toList.map (fun (i, p) => (Key.ofWord i, p)) ++ table.entries
      = e'.toList.map (fun (i, p) => (Key.ofWord i, p)) ++ table'.entries) :
    e.toList = e'.toList ∧ table = table' := by
  have hlength : e.toList.length = e'.toList.length := by
    simpa only [Elements.indices, List.length_map] using congrArg List.length hindices
  obtain ⟨hlist, htable⟩ := List.append_inj hproperties (by simpa using hlength)
  refine ⟨?_, ?_⟩
  · have hvalues : e.toList.map Prod.snd = e'.toList.map Prod.snd := by
      have hsnd := congrArg (List.map Prod.snd) hlist
      rwa [List.map_map, List.map_map] at hsnd
    calc e.toList = e.indices.zip (e.toList.map Prod.snd) := List.zip_of_prod rfl rfl
      _ = e'.indices.zip (e'.toList.map Prod.snd) := by rw [hindices, hvalues]
      _ = e'.toList := (List.zip_of_prod rfl rfl).symm
  · exact PropertyTable.eq_of_entries htable

/-- Two objects have one view exactly if they are alike. -/
theorem view_eq_iff {o o' : Object} : o.view = o'.view ↔ o.Alike o' := by
  constructor
  · intro h
    obtain ⟨kind, table, ancestors, extensible⟩ := o
    obtain ⟨kind', table', ancestors', extensible'⟩ := o'
    simp only [view, ObjectView.mk.injEq] at h
    obtain ⟨hclass, rfl, rfl, -, -, hproperties, hoccupied, -⟩ := h
    -- the views are of one class; only the representation of an array's elements is left open
    cases kind <;> cases kind' <;> cases hclass
    · obtain rfl := PropertyTable.eq_of_entries hproperties
      exact .refl _
    · obtain rfl := PropertyTable.eq_of_entries hproperties
      exact .refl _
    · obtain ⟨hlist, rfl⟩ := eq_of_lists (Option.some.inj hoccupied) hproperties
      exact .array (Elements.read_congr hlist) ..
  · intro h
    have hindices : o.elements?.map (·.indices) = o'.elements?.map (·.indices) := by
      cases h with
      | refl => rfl
      | array same => exact congrArg (some ∘ List.map Prod.fst) (Elements.toList_congr same)
    have hcount : o.elements?.map (·.count) = o'.elements?.map (·.count) := by
      cases h with
      | refl => rfl
      | @array e e' same =>
        have hlength : e.count = e'.count := by
          rw [Elements.count_eq_length, Elements.count_eq_length, Elements.toList_congr same]
        exact congrArg some hlength
    simp only [view, h.toClass, h.ancestors, h.extensible, h.length, h.properties, hindices, hcount,
      funext h.find?]

end Object

end ObjectModel
