import ObjectModel.Proofs.Elements.Checked
import ObjectModel.Proofs.Object.Changes

/-!
# Edits on 32-bit words

The edits of an object, written once more over the checked storage. Besides what the storage checks, one is
added to the index of a new element and to that of an element that stops a truncation, and the span of a
truncation is a difference of lengths; each of these is checked where it happens.

An edit of an object whose storage is `Sized` goes as it does unchecked (`Edit.act?_eq`), also if the object
is an array whose `length` has been tampered with. What carries this is that no length exceeds the largest
word, that an index is less than it, and that a truncation starts below the length where it ends.
-/

namespace ObjectModel

namespace Object

variable {o o' : Object}

/-! ## Checked edits -/

/-- Puts a property under a key. -/
def store? : Object → Key → Property → Option Object
  | ⟨.array elements, table, ancestors, extensible⟩, .index i, p =>
    (elements.write? i p).map fun elements => ⟨.array elements, table, ancestors, extensible⟩
  | o, key, p => some (o.store key p)

/-- The definition of a property by the rules that hold for all objects. -/
def ordinaryDefine? (o : Object) (key : Key) (d : Descriptor) : Option (Verdict × Object) :=
  match d.decide (o.find? key) o.extensible with
  | .refuse fault => some (.refused (fault.refusal key), o)
  | .keep => some (.accepted, o)
  | .store p => (o.store? key p).map (.accepted, ·)

/-- Removes the elements in `[first, bound)` from the top down. -/
def truncate? : Object → Nat → Nat → Option (Option Nat × Object)
  | ⟨.array elements, table, ancestors, extensible⟩, first, bound => do
    let (blocked, elements) ← elements.truncate? (!·.isConfigurable) first bound
    return (blocked, ⟨.array elements, table, ancestors, extensible⟩)
  | o, _, _ => some (none, o)

/-- The definition of an array's length. One above an element that stops the removal has to be a word. -/
def defineLength? (o : Object) (n : Nat) (d : Descriptor) : Option (Verdict × Object) := do
  let d := { d with value := some (.ofNat n) }
  let (old, oldWritable) := o.lengthState
  if old ≤ n then
    o.ordinaryDefine? .length d
  else if !oldWritable then
    return (.refused (.frozenLength old), o)
  else
    let freeze := d.writable == some false
    let lowering := if freeze then { d with writable := some true } else d
    match ← o.ordinaryDefine? .length lowering with
    | (.refused r, o) => return (.refused r, o)
    | (.accepted, o) =>
      match ← o.truncate? n old with
      | (some blocked, o) =>
        let length ← Word.add? blocked 1
        let (_, o) ← o.ordinaryDefine? .length { d with value := some (.ofNat length) }
        return (.refused (.frozenLength length), o)
      | (none, o) =>
        if freeze then
          let (_, o) ← o.ordinaryDefine? .length { writable := some false }
          return (.accepted, o)
        else
          return (.accepted, o)

/-- The definition of an element of an array. One above its index has to be a word. -/
def defineIndex? (o : Object) (i : Index) (d : Descriptor) : Option (Verdict × Object) := do
  let (old, writable) := o.lengthState
  if old ≤ i.val ∧ !writable then
    return (.refused (.frozenLength old), o)
  else
    match ← o.ordinaryDefine? (.index i) d with
    | (.refused r, o) => return (.refused r, o)
    | (.accepted, o) =>
      if old ≤ i.val then
        let length ← Word.add? i 1
        return (.accepted, o.setLength length)
      else
        return (.accepted, o)

/-- The definition of a property, of an array's length only if no value is named for it. -/
def define? (o : Object) (key : Key) (d : Descriptor) : Option (Verdict × Object) :=
  match o.kind, key with
  | .array _, .index i => o.defineIndex? i d
  | _, key => o.ordinaryDefine? key d

/-- Overwrites the value that an object has of its own, if it is writable. -/
def overwrite? (o : Object) (value : Value) (key : Key) : Option (Bool × Object) :=
  match o.find? key with
  | some (.data _ a) =>
    if a.writable then (o.store? key (.data value a)).map (true, ·) else some (false, o)
  | _ => some (false, o)

/-- Overwrites a writable element of an array. -/
def overwriteElement? (o : Object) (value : Value) (i : Nat) : Option (Bool × Object) :=
  match o.elements?.bind (·.read i) with
  | some (.data _ a) =>
    if a.writable then (o.store? (.ofWord i) (.data value a)).map (true, ·) else some (false, o)
  | _ => some (false, o)

/-- The keys of the own properties in order. -/
def keys? (o : Object) : Option (List Key) :=
  match o.elements? with
  | some elements => elements.indices?.map fun indices => indices.map Key.ofWord ++ o.table.keys
  | none => some o.table.keys

/-! ## Sized objects -/

/-- The capacity of an array's storage is a word. -/
def Sized (o : Object) : Prop := ∀ e, o.elements? = some e → e.capacity < 2 ^ 32

/-- A change leaves the capacity a word. -/
theorem Change.sized (change : Change o o') (sized : o.Sized) : o'.Sized :=
  change.storageIs (P := (·.capacity < 2 ^ 32)) (fun _ i p word => Elements.capacity_write_lt word i p)
    (fun e i word => (Elements.capacity_delete e i).symm ▸ word) sized

/-- Changes leave the capacity a word. -/
theorem Changes.sized (changes : o.Changes o') (sized : o.Sized) : o'.Sized :=
  changes.preserve Change.sized sized

/-! ## The checks succeed -/

namespace Sized

/-- A property is stored as it is unchecked. -/
theorem store?_eq (sized : o.Sized) (key : Key) (p : Property) :
    o.store? key p = some (o.store key p) := by
  obtain ⟨kind, table, ancestors, extensible⟩ := o
  cases kind with
  | ordinary | function => rfl
  | array elements =>
    cases key with
    | name => rfl
    | index i =>
      rw [store?, Elements.write?_eq (sized elements rfl)]
      rfl

/-- An ordinary definition goes as it does unchecked. -/
theorem ordinaryDefine?_eq (sized : o.Sized) (key : Key) (d : Descriptor) :
    o.ordinaryDefine? key d = some (o.ordinaryDefine key d) := by
  rw [ordinaryDefine?, ordinaryDefine]
  cases d.decide (o.find? key) o.extensible with
  | refuse | keep => rfl
  | store p =>
    dsimp only
    rw [sized.store?_eq]
    rfl

/-- A truncation goes as it does unchecked. -/
theorem truncate?_eq (sized : o.Sized) {first bound : Nat} (le : first ≤ bound) :
    o.truncate? first bound = some (o.truncate first bound) := by
  obtain ⟨kind, table, ancestors, extensible⟩ := o
  cases kind with
  | ordinary | function => rfl
  | array elements =>
    rw [truncate?, Elements.truncate?_eq (sized elements rfl) _ le]
    rfl

end Sized

/-- The element that stops a truncation is in its range. -/
theorem lt_of_truncate {first bound b : Nat} (h : (o.truncate first bound).1 = some b) : b < bound := by
  obtain ⟨kind, table, ancestors, extensible⟩ := o
  cases kind with
  | ordinary | function => cases h
  | array elements =>
    have hcleared := Elements.truncate_spec (!·.isConfigurable) first bound elements
    rw [show (elements.truncate (!·.isConfigurable) first bound).1 = some b from h] at hcleared
    cases hcleared with
    | blocked inside => exact inside.2

namespace Sized

/-- The definition of a length goes as it does unchecked. -/
theorem defineLength?_eq (sized : o.Sized) (n : Nat) (d : Descriptor) :
    o.defineLength? n d = some (o.defineLength n d) := by
  simp only [defineLength?, defineLength, Option.bind_eq_bind, Option.pure_def]
  split
  · exact sized.ordinaryDefine?_eq ..
  next hlower =>
  split
  · rfl
  generalize (if (d.writable == some false) = true then _ else _ : Descriptor) = lowering
  have hlowered := (changes_ordinaryDefine o .length lowering).sized sized
  rw [sized.ordinaryDefine?_eq, Option.bind_some]
  generalize o.ordinaryDefine .length lowering = lowered at hlowered ⊢
  obtain ⟨_ | r, p⟩ := lowered
  · have hbound := o.lengthState_le
    have htruncated := (changes_truncate p n hbound).sized hlowered
    have hblocked : ∀ b, (p.truncate n o.lengthState.1).1 = some b → b < o.lengthState.1 :=
      fun _ => lt_of_truncate
    dsimp only at hlowered htruncated ⊢
    rw [hlowered.truncate?_eq (Nat.le_of_not_le hlower), Option.bind_some]
    generalize p.truncate n o.lengthState.1 = truncated at htruncated hblocked ⊢
    obtain ⟨_ | blocked, q⟩ := truncated
    · dsimp only at htruncated ⊢
      split
      · rw [htruncated.ordinaryDefine?_eq]
        rfl
      · rfl
    · -- the element is below a length, so one above it is a length as well
      have hbelow : blocked < maxLength := Nat.lt_of_lt_of_le (hblocked blocked rfl) hbound
      have hword : blocked + 1 < 2 ^ 32 := Nat.lt_of_le_of_lt hbelow (by decide)
      dsimp only at htruncated ⊢
      rw [Word.add?_eq hword, Option.bind_some, htruncated.ordinaryDefine?_eq]
      rfl
  · rfl

/-- The definition of an element goes as it does unchecked. -/
theorem defineIndex?_eq (sized : o.Sized) (i : Index) (d : Descriptor) :
    o.defineIndex? i d = some (o.defineIndex i d) := by
  simp only [defineIndex?, defineIndex, Option.bind_eq_bind, Option.pure_def]
  split
  · rfl
  rw [sized.ordinaryDefine?_eq, Option.bind_some]
  generalize o.ordinaryDefine (.index i) d = defined
  obtain ⟨_ | r, p⟩ := defined
  · have hword : i.val + 1 < 2 ^ 32 := Nat.lt_of_le_of_lt i.isLt (by decide)
    dsimp only
    split
    · rw [Word.add?_eq hword]
      rfl
    · rfl
  · rfl

/-- A value is overwritten as it is unchecked. -/
theorem overwrite?_eq (sized : o.Sized) (value : Value) (key : Key) :
    o.overwrite? value key = some (Protocol.overwrite value key o) := by
  rw [overwrite?, Protocol.overwrite]
  rcases o.find? key with _ | ⟨v, a⟩ | _
  · rfl
  · dsimp only
    split
    · rw [sized.store?_eq]
      rfl
    · rfl
  · rfl

/-- An element is overwritten as it is unchecked. -/
theorem overwriteElement?_eq (sized : o.Sized) (value : Value) (i : Nat) :
    o.overwriteElement? value i = some (Protocol.overwriteElement value i o) := by
  rw [overwriteElement?, Protocol.overwriteElement]
  rcases o.elements?.bind (·.read i) with _ | ⟨v, a⟩ | _
  · rfl
  · dsimp only
    split
    · rw [sized.store?_eq]
      rfl
    · rfl
  · rfl

/-- The keys are listed as they are unchecked. -/
theorem keys?_eq (sized : o.Sized) : o.keys? = some o.keys := by
  obtain ⟨kind, table, ancestors, extensible⟩ := o
  cases kind with
  | ordinary | function => rfl
  | array elements =>
    show elements.indices?.map _ = _
    rw [Elements.indices?_eq (sized elements rfl)]
    rfl

end Sized

end Object

namespace Edit

/-- What an edit answers, and what it makes of an object, checked. Nothing has to be checked where a
property is only looked at or taken away. -/
def act? : (e : Edit) → Object → Option (e.Answer × Object)
  | define key d, o => o.define? key d
  | defineLength n d, o => o.defineLength? n d
  | ordinaryDefine key d, o => o.ordinaryDefine? key d
  | delete key, o => some (o.delete key)
  | erase key, o => some ((), o.erase key)
  | preventExtensions, o => some ((), o.preventExtensions)
  | overwrite value key, o => o.overwrite? value key
  | overwriteElement value i, o => o.overwriteElement? value i

/-- Every edit of a sized object goes as it does unchecked. -/
theorem act?_eq (e : Edit) {o : Object} (sized : o.Sized) : e.act? o = some (e.act o) := by
  cases e with
  | define key d =>
    obtain ⟨kind, table, ancestors, extensible⟩ := o
    cases kind with
    | ordinary | function => exact sized.ordinaryDefine?_eq ..
    | array elements =>
      cases key with
      | index i => exact sized.defineIndex?_eq ..
      | name => exact sized.ordinaryDefine?_eq ..
  | defineLength n d => exact sized.defineLength?_eq ..
  | ordinaryDefine key d => exact sized.ordinaryDefine?_eq ..
  | delete | erase | preventExtensions => rfl
  | overwrite value key => exact sized.overwrite?_eq ..
  | overwriteElement value i => exact sized.overwriteElement?_eq ..

/-- An edit leaves an object sized. -/
theorem sized (e : Edit) {o : Object} (sized : o.Sized) : (e.apply o).Sized := (e.changes o).sized sized

end Edit

namespace Object

/-! ## New objects -/

/-- An array without properties is sized if it was made for a capacity that is a word. -/
theorem Sized.blankArray (ancestors : List ObjectId) {capacity : Nat} (word : capacity < 2 ^ 32)
    (limits : Limits) : (blankArray ancestors (.withLimits capacity limits)).Sized := by
  rintro _ ⟨⟩
  exact Nat.lt_of_le_of_lt (Elements.capacity_withLimits_le capacity limits) word

/-- As many values as an array can have are a word. -/
theorem length_take_lt (values : List Value) : (values.take maxLength).length < 2 ^ 32 :=
  Nat.lt_of_le_of_lt (List.length_take_le _ _) (by decide)

/-- An array of values is sized. -/
theorem Sized.arrayOf (values : List Value) : (arrayOf values).Sized :=
  (changes_arrayOf values).sized (.blankArray [] (length_take_lt values) {})

/-- An array of the given values, each written to a checked storage. -/
def arrayOf? (values : List Value) : Option Object := do
  let values := values.take maxLength
  let capacity ← Word.cast? values.length
  let elements ← values.zipIdx.foldlM (fun (e : Elements Property) (v, i) => e.write? i (.data v .all))
    (.withCapacity capacity)
  return { array [] 0 {} with kind := .array elements }.setLength capacity

/-- Values are written one after the other as they are unchecked. -/
theorem foldlM_write? (entries : List (Value × Nat)) {e : Elements Property} (sized : e.capacity < 2 ^ 32) :
    entries.foldlM (fun e (v, i) => e.write? i (.data v .all)) e
      = some (entries.foldl (fun e (v, i) => e.write i (.data v .all)) e) := by
  induction entries generalizing e with
  | nil => rfl
  | cons entry rest ih =>
    obtain ⟨v, i⟩ := entry
    rw [List.foldlM_cons, List.foldl_cons]
    dsimp only
    rw [Elements.write?_eq sized]
    exact ih (Elements.capacity_write_lt sized _ _)

/-- An array of values is made as it is unchecked. -/
theorem arrayOf?_eq (values : List Value) : arrayOf? values = some (arrayOf values) := by
  have hword := length_take_lt values
  have hsized : (Elements.withCapacity (values.take maxLength).length : Elements Property).capacity
      < 2 ^ 32 :=
    Nat.lt_of_le_of_lt (Elements.capacity_withLimits_le _ _) hword
  simp only [arrayOf?, Word.cast?_eq hword, Option.bind_eq_bind, Option.bind_some]
  rw [foldlM_write? _ hsized]
  rfl

end Object

end ObjectModel
