import ObjectModel.Object.Basic

/-!
# Enumeration

The own properties of an object come in a fixed order: an array's elements by ascending index, then the
table in the order in which its keys were added.

An enumeration may be interrupted by changes of the object. It goes by the keys that were there when it
began: a key that is gone when its turn comes is passed over, and a key added later is not seen. What is
answered for a key is the property stored when its turn comes.
-/

namespace ObjectModel

namespace Object

/-- The keys of the own properties in order. -/
def keys (o : Object) : List Key :=
  ((o.elements?.map (·.indices)).getD []).map Key.ofWord ++ o.table.keys

/-- The own properties in order. -/
def properties (o : Object) : List (Key × Property) :=
  ((o.elements?.map (·.toList)).getD []).map (fun (i, p) => (Key.ofWord i, p)) ++ o.table.entries

/-- The first of the given keys that is present, with its property, and the keys after it. -/
def nextProperty (o : Object) : List Key → Option (Key × Property) × List Key
  | [] => (none, [])
  | key :: rest =>
    match o.find? key with
    | some p => (some (key, p), rest)
    | none => o.nextProperty rest

end Object

/-- An enumeration under way: the object, and the keys whose turn is still to come. -/
structure Cursor where
  owner : ObjectId
  pending : List Key
deriving DecidableEq, Inhabited

end ObjectModel
