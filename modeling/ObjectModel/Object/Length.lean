import ObjectModel.Object.Define

/-!
# Definitions on arrays

On an array, `length` and the elements belong together: the length exceeds every occupied index. So a
definition at or past the length raises the length, and a definition of a smaller length removes the
elements at and above it, from the last one down. An element that is not configurable stops the removal,
and the length ends one above it.

A length that is not writable cannot be raised or lowered. A definition that lowers the length and makes
it read-only in one go has the removal happen first.
-/

namespace ObjectModel.Object

/-- Removes the elements in `[first, bound)` from the top down, up to the first that is not
configurable. Its index is answered. -/
def truncate : Object → Nat → Nat → Option Nat × Object
  | ⟨.array elements, table, ancestors, extensible⟩, first, bound =>
    let (blocked, elements) := elements.truncate (!·.isConfigurable) first bound
    (blocked, ⟨.array elements, table, ancestors, extensible⟩)
  | o, _, _ => (none, o)

/-- The definition of an array's length with the value `n`; the value that the descriptor itself names
has been converted to `n` and is not looked at again. -/
def defineLength (o : Object) (n : Nat) (d : Descriptor) : Verdict × Object :=
  let d := { d with value := some (.ofNat n) }
  let (old, oldWritable) := o.lengthState
  if old ≤ n then
    o.ordinaryDefine .length d
  else if !oldWritable then
    (.refused (.frozenLength old), o)
  else
    let freeze := d.writable == some false
    let lowering := if freeze then { d with writable := some true } else d
    match o.ordinaryDefine .length lowering with
    | (.refused r, o) => (.refused r, o)
    | (.accepted, o) =>
      match o.truncate n old with
      | (some blocked, o) =>
        let length := blocked + 1
        let (_, o) := o.ordinaryDefine .length { d with value := some (.ofNat length) }
        (.refused (.frozenLength length), o)
      | (none, o) =>
        if freeze then
          (.accepted, (o.ordinaryDefine .length { writable := some false }).2)
        else
          (.accepted, o)

/-- The definition of an element of an array. -/
def defineIndex (o : Object) (i : Index) (d : Descriptor) : Verdict × Object :=
  let (old, writable) := o.lengthState
  if old ≤ i.val ∧ !writable then
    (.refused (.frozenLength old), o)
  else
    match o.ordinaryDefine (.index i) d with
    | (.refused r, o) => (.refused r, o)
    | (.accepted, o) => (.accepted, if old ≤ i.val then o.setLength (i + 1) else o)

/-- The definition of a property, of an array's length only if no value is named for it. A length with a
value has to be converted first, which may run script code. -/
def define (o : Object) (key : Key) (d : Descriptor) : Verdict × Object :=
  match o.kind, key with
  | .array _, .index i => o.defineIndex i d
  | _, key => o.ordinaryDefine key d

end ObjectModel.Object
