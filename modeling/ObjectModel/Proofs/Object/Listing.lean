import ObjectModel.Object.Enumeration
import ObjectModel.Proofs.Key
import ObjectModel.Proofs.Object.Steps
import ObjectModel.Proofs.PropertyTable

/-!
# Where properties are, and how they are listed

An object keeps its properties in one or two places, and each question about them looks into these in its
own way. The questions have one answer as long as every property is where it belongs, or `Placed`: an
array's elements are at indices, and its table holds nothing under an index. A regular object stays so
(`Filed`) as long as an array keeps its length. Then a property that is taken away needs to be looked for in
one place only (`Placed.eraseBoth_eq`).

`Coherent` lists the questions and how their answers fit together. Whether an array *has* an element also
depends on its length, so for arrays it takes a length in order as well (`Filed.coherent`).
-/

namespace ObjectModel.Object

variable {o o' : Object}

/-! ## Properties where they belong -/

/-- Every property is where it belongs: the elements of an array are at indices, and its table holds no
property under an index. -/
structure Placed (o : Object) : Prop where
  indices : ∀ i, (o.element? i).isSome = true → i < maxLength
  table : o.isArray = true → ∀ i, o.table.find? (.index i) = none

/-- The object is regular, and every property is where it belongs. -/
structure Filed (o : Object) : Prop extends o.Regular, o.Placed

/-- Storing a property puts none under an index into the table of an array. -/
theorem find?_table_store (array : o.isArray = true) (key : Key) (p : Property) (i : Index) :
    (o.store key p).table.find? (.index i) = o.table.find? (.index i) := by
  obtain ⟨elements, table, ancestors, extensible, rfl⟩ := exists_of_isArray array
  cases key with
  | index => rfl
  | name text notIndex => exact (PropertyTable.find?_insert ..).trans (if_neg nofun)

/-- Taking a property away leaves what the table of an array holds under an index. -/
theorem find?_table_erase (array : o.isArray = true) (key : Key) (i : Index) :
    (o.erase key).table.find? (.index i) = o.table.find? (.index i) := by
  obtain ⟨elements, table, ancestors, extensible, rfl⟩ := exists_of_isArray array
  cases key with
  | index => rfl
  | name text notIndex => exact (PropertyTable.find?_erase ..).trans (if_neg nofun)

/-- Takes away the property under a key, and looks for it in both places: the element storage and the table. -/
def eraseBoth (o : Object) (key : Key) : Object := { o.erase key with table := o.table.erase key }

/-- Where every property is in its place, looking in the table as well takes nothing more away. -/
theorem Placed.eraseBoth_eq (placed : o.Placed) (key : Key) : o.eraseBoth key = o.erase key := by
  obtain ⟨kind, table, ancestors, extensible⟩ := o
  cases kind with
  | ordinary | function => rfl
  | array elements =>
    cases key with
    | name text notIndex => rfl
    | index i =>
      have htable : table.erase (.index i) = table := PropertyTable.erase_of_none (placed.table rfl i)
      rw [eraseBoth, htable]
      rfl

/-- A step leaves every property where it belongs. -/
theorem Step.filed (h : Step o o') (filed : o.Filed) : o'.Filed := by
  refine ⟨h.regular filed.toRegular, fun array i => ?_⟩
  have harray : o.isArray = true := by rwa [isArray, ← h.toClass]
  have hnone := filed.table harray i
  cases h with
  | define | overwrite => rw [find?_table_store harray, hnone]
  | delete => rw [find?_table_erase harray, hnone]
  | preventExtensions => exact hnone
  | alike same =>
    cases same with
    | refl | array => exact hnone

/-- Steps leave every property where it belongs. -/
theorem Steps.filed (h : Steps o o') (filed : o.Filed) : o'.Filed := by
  induction h with
  | refl => exact filed
  | tail _ step ih => exact step.filed ih

namespace Filed

/-- A property taken away without asking leaves the others where they belong, unless it is the length of
an array. -/
theorem erase (filed : o.Filed) {key : Key} (kept : o.isArray = true → key ≠ .length) :
    (o.erase key).Filed := by
  refine ⟨filed.toRegular.erase kept, fun array i => ?_⟩
  have harray : o.isArray = true := by rwa [isArray, toClass_erase] at array
  rw [find?_table_erase harray, filed.table harray]

/-- A new object has every property where it belongs. -/
theorem of_fresh (fresh : o.Fresh) : o.Filed := by
  refine ⟨.of_fresh fresh, fun array i => ?_⟩
  have hempty : ∀ ancestors capacity limits,
      (Object.array ancestors capacity limits).table.find? (.index i) = none :=
    fun _ _ _ => (PropertyTable.find?_insert ..).trans (if_neg nofun)
  cases fresh with
  | ordinary | function => cases array
  | array ancestors capacity limits => exact hempty ancestors capacity limits
  | arrayOf values =>
    rw [arrayOf, setLength, find?_table_store rfl]
    exact hempty [] 0 {}

end Filed

/-! ## Lists of properties -/

/-- The listed keys are those of the listed properties. -/
theorem map_fst_properties (o : Object) : o.properties.map Prod.fst = o.keys := by
  rw [properties, keys, List.map_append, List.map_map]
  congr 1
  cases o.elements? with
  | none => rfl
  | some e =>
    show e.toList.map _ = (e.toList.map Prod.fst).map Key.ofWord
    rw [List.map_map]
    rfl

namespace Placed

/-- An element of an array is at an index. -/
theorem lt_of_read {e : Elements Property} {table : PropertyTable} {ancestors : List ObjectId}
    {extensible : Bool} (placed : Placed ⟨.array e, table, ancestors, extensible⟩) {i : Nat}
    {p : Property} (found : e.read i = some p) : i < maxLength :=
  placed.indices i (Option.isSome_of_mem found)

/-- A key in the table of an array is a name. -/
theorem exists_name {e : Elements Property} {table : PropertyTable} {ancestors : List ObjectId}
    {extensible : Bool} (placed : Placed ⟨.array e, table, ancestors, extensible⟩) {key : Key}
    (mem : key ∈ table.keys) : ∃ text notIndex, key = .name text notIndex := by
  cases key with
  | name text notIndex => exact ⟨text, notIndex, rfl⟩
  | index i =>
    rw [← PropertyTable.isSome_find?, placed.table rfl i] at mem
    cases mem

/-- A listed property is the one under its key. -/
theorem find?_of_mem_properties (placed : o.Placed) {key : Key} {p : Property}
    (mem : (key, p) ∈ o.properties) : o.find? key = some p := by
  obtain ⟨kind, table, ancestors, extensible⟩ := o
  cases kind with
  | ordinary | function => exact PropertyTable.mem_entries.1 mem
  | array e =>
    rcases List.mem_append.1 mem with helement | hentry
    · obtain ⟨⟨i, q⟩, hmem, hpair⟩ := List.mem_map.1 helement
      obtain ⟨rfl, rfl⟩ := Prod.mk.inj hpair
      have hread := (Elements.mem_toList e).1 hmem
      rw [Key.ofWord_of_lt (placed.lt_of_read hread)]
      exact hread
    · obtain ⟨text, notIndex, rfl⟩ := placed.exists_name (List.mem_map_of_mem hentry)
      exact PropertyTable.mem_entries.1 hentry

/-- The listed keys are those that have a property. -/
theorem mem_keys (placed : o.Placed) (key : Key) : key ∈ o.keys ↔ (o.find? key).isSome = true := by
  constructor
  · intro mem
    rw [← map_fst_properties, List.mem_map] at mem
    obtain ⟨⟨key, p⟩, hmem, rfl⟩ := mem
    exact Option.isSome_of_mem (placed.find?_of_mem_properties hmem)
  · intro found
    obtain ⟨kind, table, ancestors, extensible⟩ := o
    cases kind with
    | ordinary | function => exact (PropertyTable.isSome_find? table key).1 found
    | array e =>
      cases key with
      | index i =>
        refine List.mem_append_left _ (List.mem_map.2 ⟨i, Elements.mem_indices.2 found, ?_⟩)
        exact Key.ofWord_of_lt i.isLt
      | name text notIndex =>
        exact List.mem_append_right _ ((PropertyTable.isSome_find? table _).1 found)

/-- No key is listed twice. -/
theorem nodup_keys (placed : o.Placed) : o.keys.Nodup := by
  obtain ⟨kind, table, ancestors, extensible⟩ := o
  cases kind with
  | ordinary | function => exact table.distinct
  | array e =>
    have hindex : ∀ i ∈ e.indices, ∃ h : i < maxLength, Key.ofWord i = .index ⟨i, h⟩ := by
      intro i hi
      have hlt := placed.indices i (Elements.mem_indices.1 hi)
      exact ⟨hlt, Key.ofWord_of_lt hlt⟩
    refine List.nodup_append.2 ⟨?elements, table.distinct, ?apart⟩
    case elements =>
      -- the positions ascend, and different positions are different indices
      refine List.pairwise_map.2 ((Elements.indices_ascending e).imp_of_mem ?_)
      intro i j hi hj hlt hsame
      obtain ⟨_, hi⟩ := hindex i hi
      obtain ⟨_, hj⟩ := hindex j hj
      rw [hi, hj, Key.index.injEq, Fin.mk.injEq] at hsame
      exact Nat.ne_of_lt hlt hsame
    case apart =>
      rintro key hkey key' hkey' rfl
      obtain ⟨i, hi, rfl⟩ := List.mem_map.1 hkey
      obtain ⟨_, hi⟩ := hindex i hi
      obtain ⟨text, notIndex, hname⟩ := placed.exists_name hkey'
      rw [hi] at hname
      cases hname

/-- Each listed key stands with the property under it. -/
theorem properties_eq (placed : o.Placed) :
    o.properties.map (fun e => (e.1, some e.2)) = o.keys.map fun key => (key, o.find? key) := by
  rw [← map_fst_properties, List.map_map]
  refine List.map_congr_left fun e he => ?_
  rw [Function.comp_apply, placed.find?_of_mem_properties he]

end Placed

/-! ## One answer to all questions -/

/-- An object with a length that covers its elements has the properties that it finds. -/
theorem HasLength.has_eq {n : Nat} {w : Bool} (h : o.HasLength n w) (key : Key) :
    o.has key = (o.find? key).isSome := by
  have hlength := h.length
  have hcovers := h.covers
  obtain ⟨kind, table, ancestors, extensible⟩ := o
  cases kind with
  | ordinary | function => rfl
  | array e =>
    cases key with
    | name => rfl
    | index i =>
      show (decide (i.val < _) && (e.read i).isSome) = (e.read i).isSome
      rw [hlength, Bool.and_eq_right_iff_imp, decide_eq_true_iff]
      exact hcovers i

/-- Whatever is asked about the own properties of the object, the answers agree. -/
structure Coherent (o : Object) : Prop where
  /-- An object has the properties that it finds. -/
  has : ∀ key, o.has key = (o.find? key).isSome
  /-- It lists their keys, each once. -/
  mem_keys : ∀ key, key ∈ o.keys ↔ (o.find? key).isSome = true
  nodup : o.keys.Nodup
  /-- It lists the properties in the order of the keys, each with the property found under it. -/
  properties : o.properties.map (fun e => (e.1, some e.2)) = o.keys.map fun key => (key, o.find? key)
  /-- An enumeration answers each key at its turn, with the property found under it. -/
  turns : ∀ key rest, key :: rest <:+ o.keys →
    o.nextProperty (key :: rest) = ((o.find? key).map fun p => (key, p), rest)
  /-- An array's table holds no index. -/
  names : o.isArray = true → ∀ i, Key.index i ∉ o.table.keys
  /-- A listed key is made from its text, and no two of them have one text. -/
  canonical : ∀ key ∈ o.keys, Key.ofText key.text = key
  texts : (o.keys.map Key.text).Nodup

/-- All answers agree if every property is where it belongs and an array's length covers its elements. -/
theorem Filed.coherent (filed : o.Filed) (length : o.isArray = true → ∃ n w, o.HasLength n w) :
    o.Coherent where
  has key := by
    rcases Bool.eq_false_or_eq_true o.isArray with array | plain
    · obtain ⟨n, w, h⟩ := length array
      exact h.has_eq key
    · obtain ⟨kind, table, ancestors, extensible⟩ := o
      cases kind with
      | ordinary | function => rfl
      | array => cases plain
  mem_keys := filed.toPlaced.mem_keys
  nodup := filed.toPlaced.nodup_keys
  properties := filed.toPlaced.properties_eq
  turns key rest suffix := by
    have hfound := (filed.toPlaced.mem_keys key).1 (suffix.subset List.mem_cons_self)
    obtain ⟨p, hp⟩ := Option.isSome_iff_exists.1 hfound
    rw [nextProperty, hp, Option.map_some]
  names array i mem := by
    rw [← PropertyTable.isSome_find?, filed.table array i] at mem
    cases mem
  canonical key _ := Key.ofText_text key
  texts := filed.toPlaced.nodup_keys.map fun _ _ => Key.text_injective

end ObjectModel.Object
