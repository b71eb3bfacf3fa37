import ObjectModel.Proofs.Run.ArrayLength
import Mathlib.Data.List.Sort

/-!
# The order of keys over a run

An object lists its keys in an order that is a matter of its whole history (`Object.Before`). The elements
of an array come first, by ascending index. All other keys, on an object that is no array the indices too,
come in the order in which they were last made: the longer a key has been there without a break, the
earlier it stands.

The code keeps no record of the history, only a table of properties that every edit rewrites. An edit
leaves the list of the table's keys as it is, puts a new key at its end, or takes one key out
(`Edit.rearranges`). From this it follows for every run, by induction on its chronicle, that the lists are
in that order, and that no change moves a key that stays (`Host.keys_in_order`).
-/

namespace ObjectModel

variable {σ α : Type}

/-! ## The keys of the table -/

/-- What becomes of a list of keys when at most one of them comes or goes. -/
inductive Rearranges (keys : List Key) : List Key → Prop
  /-- Nothing changes. -/
  | keep : Rearranges keys keys
  /-- A new key comes last. -/
  | add {key : Key} (new : key ∉ keys) : Rearranges keys (keys ++ [key])
  /-- A key is taken out. -/
  | remove (key : Key) : Rearranges keys (keys.filter (· ≠ key))

namespace Object

variable {o o' : Object}

/-- Storing in a table rearranges its keys. -/
theorem rearranges_insert (t : PropertyTable) (key : Key) (p : Property) :
    Rearranges t.keys (t.insert key p).keys := by
  rw [PropertyTable.keys_insert]
  split
  · exact .keep
  · next new => exact .add new

/-- Storing a property rearranges the keys of the table. -/
theorem rearranges_store (o : Object) (key : Key) (p : Property) :
    Rearranges o.table.keys (o.store key p).table.keys := by
  obtain ⟨kind, table, ancestors, extensible⟩ := o
  cases kind with
  | ordinary | function => exact rearranges_insert table key p
  | array e =>
    cases key with
    | index => exact .keep
    | name text notIndex => exact rearranges_insert table _ p

/-- Taking a property away rearranges the keys of the table. -/
theorem rearranges_erase (o : Object) (key : Key) :
    Rearranges o.table.keys (o.erase key).table.keys := by
  obtain ⟨kind, table, ancestors, extensible⟩ := o
  cases kind with
  | ordinary | function => exact table.keys_erase key ▸ .remove key
  | array e =>
    cases key with
    | index => exact .keep
    | name text notIndex => exact table.keys_erase _ ▸ .remove _

/-- A change rearranges the keys of the table. -/
theorem Change.rearranges (change : Change o o') : Rearranges o.table.keys o'.table.keys := by
  cases change with
  | define | value => exact rearranges_store ..
  | erase => exact rearranges_erase ..
  | preventExtensions => exact .keep

/-- An element of an array is not in the table. -/
theorem table_ordinaryDefine_index (array : o.isArray = true) (i : Index) (d : Descriptor) :
    (o.ordinaryDefine (.index i) d).2.table = o.table := by
  rcases o.ordinaryDefine_cases (.index i) d with ⟨r, hr⟩ | hkeep | ⟨p, -, hstore⟩
  · rw [hr]
  · rw [hkeep]
  · obtain ⟨elements, table, ancestors, extensible, rfl⟩ := exists_of_isArray array
    rw [hstore]
    rfl

/-- The definition of an element of an array rearranges the keys of the table: it may store a length. -/
theorem rearranges_defineIndex (array : o.isArray = true) (i : Index) (d : Descriptor) :
    Rearranges o.table.keys (o.defineIndex i d).2.table.keys := by
  simp only [defineIndex]
  split
  · exact .keep
  · have htable := table_ordinaryDefine_index array i d
    generalize o.ordinaryDefine (.index i) d = defined at htable ⊢
    obtain ⟨_ | _, p⟩ := defined
    · dsimp only at htable ⊢
      rw [← htable]
      split
      · exact rearranges_store p .length _
      · exact .keep
    · exact htable ▸ .keep

/-- A truncation leaves the table alone. -/
theorem table_truncate (o : Object) (first bound : Nat) : (o.truncate first bound).2.table = o.table := by
  obtain ⟨kind, table, ancestors, extensible⟩ := o
  cases kind <;> rfl

/-- The definition of a length rearranges the keys of the table. Of the lengths that it stores only the
first can be a new key. -/
theorem rearranges_defineLength (o : Object) (n : Nat) (d : Descriptor) :
    Rearranges o.table.keys (o.defineLength n d).2.table.keys := by
  have hgrown : (o.defineLength n d).2.table.keys = o.table.keys
      ∨ Key.length ∉ o.table.keys ∧ (o.defineLength n d).2.table.keys = o.table.keys ++ [.length] := by
    refine defineLength_induction (motive := fun p => p.table.keys = o.table.keys
      ∨ Key.length ∉ o.table.keys ∧ p.table.keys = o.table.keys ++ [.length]) n d (.inl rfl) ?define ?truncate
    case define =>
      intro p e hp
      rcases p.ordinaryDefine_cases .length e with ⟨r, hr⟩ | hkeep | ⟨q, -, hstore⟩
      · rwa [hr]
      · rwa [hkeep]
      · rw [hstore, store_length]
        dsimp only
        rw [PropertyTable.keys_insert]
        split
        · exact hp
        · next new =>
          rcases hp with hsame | ⟨-, hlength⟩
          · rw [hsame] at new ⊢
            exact .inr ⟨new, rfl⟩
          · rw [hlength] at new
            exact absurd (List.mem_append_right _ (List.mem_singleton_self _)) new
    case truncate =>
      intro p hp
      rwa [table_truncate]
  rcases hgrown with hsame | ⟨new, hlength⟩
  · exact hsame ▸ .keep
  · exact hlength ▸ .add new

/-- Whatever an edit makes of an object, the keys of the table are rearranged. -/
theorem Edited.rearranges (edited : o.Edited o') : Rearranges o.table.keys o'.table.keys := by
  cases edited with
  | same => exact .keep
  | change change => exact change.rearranges
  | element array i d => exact rearranges_defineIndex array i d
  | length n d => exact o.rearranges_defineLength n d

end Object

/-- An edit rearranges the keys of the table. -/
theorem Edit.rearranges (e : Edit) (o : Object) : Rearranges o.table.keys (e.apply o).table.keys :=
  (e.edited o).rearranges

/-- The table of a new object has at most one key. -/
theorem Object.Fresh.rearranges {o : Object} (fresh : o.Fresh) : Rearranges [] o.table.keys := by
  have harray : ∀ ancestors capacity limits,
      (Object.array ancestors capacity limits).table.keys = [.length] := fun _ _ _ => rfl
  cases fresh with
  | ordinary | function => exact .keep
  | array ancestors capacity limits => exact .add List.not_mem_nil
  | arrayOf values =>
    rw [Object.arrayOf, setLength, store_length]
    show Rearranges [] ((Object.array [] 0 {}).table.insert .length _).keys
    rw [PropertyTable.keys_insert, harray, if_pos (List.mem_singleton_self _)]
    exact .add List.not_mem_nil

/-- One change of the heap rearranges the keys of every table. -/
theorem Heap.Next.rearranges {h h' : Heap} (next : h.Next h') (id : ObjectId) :
    Rearranges (h.get id).table.keys (h'.get id).table.keys := by
  cases next with
  | edit edited e =>
    rcases h.get_edit_cases edited e id with hsame | ⟨-, hedited⟩
    · exact hsame ▸ .keep
    · exact hedited ▸ e.rearranges _
  | @allocate o fresh =>
    rcases h.get_allocate_cases o id with hsame | ⟨outside, hnew⟩
    · exact hsame ▸ .keep
    · rw [hnew, get_of_not_has outside]
      exact fresh.rearranges

/-! ## The order of keys -/

/-- For how many of the given heaps, the latest first, an object has had a property under a key without a
break. -/
def Heap.age (stages : List Heap) (id : ObjectId) (key : Key) : Nat :=
  (stages.takeWhile fun h => ((h.get id).find? key).isSome).length

namespace Object

/-- Where a key stands among the elements, if the object is an array and the key is that of an element. -/
def position? (o : Object) (key : Key) : Option Index := if o.isArray then key.index? else none

/-- Whether a key stands before another one, given how long each has been there. Elements of an array come
first, by ascending index, and all other keys in the order in which they were last made. -/
def Before (o : Object) (age : Key → Nat) (key other : Key) : Prop :=
  match o.position? key, o.position? other with
  | some i, some j => i < j
  | some _, none => True
  | none, some _ => False
  | none, none => age other < age key

variable {o : Object} {age : Key → Nat} {key other : Key}

/-- Of two keys only one stands before the other. -/
theorem Before.asymm (h : o.Before age key other) : ¬ o.Before age other key := by
  rw [Before] at h ⊢
  cases hkey : o.position? key <;> cases hother : o.position? other <;>
    simp only [hkey, hother, not_lt, not_false_eq_true] at h ⊢
  · exact h.le
  · exact h.le

/-- A key that is not that of an element is looked up in the table. -/
theorem find?_of_position? (h : o.position? key = none) : o.find? key = o.table.find? key := by
  obtain ⟨kind, table, ancestors, extensible⟩ := o
  cases kind with
  | ordinary | function => rfl
  | array e =>
    cases key with
    | index => cases h
    | name => rfl

/-- A key in the table is not that of an element. -/
theorem Placed.position?_of_mem (placed : o.Placed) (mem : key ∈ o.table.keys) :
    o.position? key = none := by
  rw [position?]
  split
  · next array =>
    cases key with
    | name => rfl
    | index i =>
      rw [← PropertyTable.isSome_find?, placed.table array i] at mem
      cases mem
  · rfl

/-- A key is in the table exactly if it has a property and is not that of an element. -/
theorem Placed.mem_table (placed : o.Placed) :
    key ∈ o.table.keys ↔ (o.find? key).isSome = true ∧ o.position? key = none := by
  constructor
  · intro mem
    have hposition := placed.position?_of_mem mem
    rw [find?_of_position? hposition]
    exact ⟨(PropertyTable.isSome_find? ..).2 mem, hposition⟩
  · rintro ⟨found, hposition⟩
    rw [find?_of_position? hposition] at found
    exact (PropertyTable.isSome_find? ..).1 found

/-- If the keys of the table are in order, all keys are. -/
theorem Placed.keys_before (placed : o.Placed)
    (order : o.table.keys.Pairwise fun key other => age other < age key) :
    o.keys.Pairwise (o.Before age) := by
  have htable : o.table.keys.Pairwise (o.Before age) := by
    refine order.imp_of_mem fun hkey hother hage => ?_
    rw [Before, placed.position?_of_mem hkey, placed.position?_of_mem hother]
    exact hage
  obtain ⟨kind, table, ancestors, extensible⟩ := o
  cases kind with
  | ordinary | function => exact htable
  | array e =>
    have hposition : ∀ i ∈ e.indices, ∃ h : i < maxLength,
        position? ⟨.array e, table, ancestors, extensible⟩ (Key.ofWord i) = some ⟨i, h⟩ := by
      intro i hi
      have hlt := placed.indices i (Elements.mem_indices.1 hi)
      exact ⟨hlt, by rw [Key.ofWord_of_lt hlt]; rfl⟩
    refine List.pairwise_append.2 ⟨?elements, htable, ?apart⟩
    case elements =>
      refine List.pairwise_map.2 ((Elements.indices_ascending e).imp_of_mem fun hi hj hlt => ?_)
      obtain ⟨_, hi⟩ := hposition _ hi
      obtain ⟨_, hj⟩ := hposition _ hj
      rw [Before, hi, hj]
      exact hlt
    case apart =>
      intro key hkey other hother
      obtain ⟨i, hi, rfl⟩ := List.mem_map.1 hkey
      obtain ⟨_, hi⟩ := hposition i hi
      rw [Before, hi, placed.position?_of_mem hother]
      trivial

end Object

namespace Heap

variable {h h' : Heap} {earlier : List Heap} {id : ObjectId} {key : Key}

/-- A key that is absent has no age. -/
theorem age_of_absent (absent : ¬ ((h.get id).find? key).isSome = true) :
    age (h :: earlier) id key = 0 := by
  rw [age, List.takeWhile_cons, if_neg absent, List.length_nil]

/-- A key that is present is one heap older than before. -/
theorem age_of_present (present : ((h.get id).find? key).isSome = true) :
    age (h :: earlier) id key = age earlier id key + 1 := by
  rw [age, List.takeWhile_cons, if_pos present, List.length_cons, age]

/-- A change of the heap leaves an object's class alone, unless there was no object. -/
theorem Next.toClass (next : h.Next h') (id : ObjectId) :
    (h'.get id).toClass = (h.get id).toClass ∨ h.get id = default := by
  cases next with
  | edit edited e => exact .inl (h.classOf_edit edited e id)
  | @allocate o _ =>
    rcases h.get_allocate_cases o id with hsame | ⟨outside, -⟩
    · exact .inl (congrArg Object.toClass hsame)
    · exact .inr (get_of_not_has outside)

/-- A key that is not that of an element was none before. -/
theorem Next.position?_of_none (next : h.Next h') (other : (h'.get id).position? key = none) :
    (h.get id).position? key = none := by
  rcases next.toClass id with hclass | hnew
  · rwa [Object.position?, Object.isArray, hclass] at other
  · rw [hnew]
    rfl

/-- A key that was present before is that of an element now if it was one. -/
theorem Next.position?_eq (next : h.Next h') {other : Key}
    (present : ((h.get id).find? other).isSome = true) (key : Key) :
    (h'.get id).position? key = (h.get id).position? key := by
  rcases next.toClass id with hclass | hnew
  · rw [Object.position?, Object.isArray, hclass]
    rfl
  · rw [hnew] at present
    cases present

/-- One change of the heap leaves the keys of a table in the order in which they were last made. -/
theorem Next.table_order (next : h.Next h') (placed : (h.get id).Placed) (placed' : (h'.get id).Placed)
    (order : (h.get id).table.keys.Pairwise
      fun key other => age (h :: earlier) id other < age (h :: earlier) id key) :
    (h'.get id).table.keys.Pairwise
      fun key other => age (h' :: h :: earlier) id other < age (h' :: h :: earlier) id key := by
  have hage : ∀ key ∈ (h'.get id).table.keys,
      age (h' :: h :: earlier) id key = age (h :: earlier) id key + 1 :=
    fun key mem => age_of_present (placed'.mem_table.1 mem).1
  have hstill : ∀ keys : List Key, keys.Sublist (h.get id).table.keys →
      (∀ key ∈ keys, key ∈ (h'.get id).table.keys) → keys.Pairwise fun key other =>
        age (h' :: h :: earlier) id other < age (h' :: h :: earlier) id key := by
    intro keys sublist subset
    refine (order.sublist sublist).imp_of_mem fun hkey hother hlt => ?_
    rw [hage _ (subset _ hkey), hage _ (subset _ hother)]
    exact Nat.succ_lt_succ hlt
  have hkeys := next.rearranges id
  generalize hafter : (h'.get id).table.keys = after at hage hstill hkeys ⊢
  cases hkeys with
  | keep => exact hstill _ (.refl _) fun _ mem => mem
  | remove key => exact hstill _ List.filter_sublist fun _ mem => mem
  | @add key new =>
    refine List.pairwise_append.2 ⟨?still, List.pairwise_singleton .., ?last⟩
    case still => exact hstill _ (.refl _) fun _ => List.mem_append_left _
    case last =>
      -- the new key was absent, so it is younger than any key that was there
      have hmem : key ∈ (h.get id).table.keys ++ [key] :=
        List.mem_append_right _ (List.mem_singleton_self _)
      have hposition := next.position?_of_none (placed'.position?_of_mem (hafter ▸ hmem))
      have absent : ¬ ((h.get id).find? key).isSome = true :=
        fun found => new (placed.mem_table.2 ⟨found, hposition⟩)
      intro other hother key' hkey'
      obtain rfl := List.mem_singleton.1 hkey'
      rw [hage _ hmem, hage _ (List.mem_append_left _ hother), age_of_absent absent,
        age_of_present (placed.mem_table.1 hother).1]
      omega

end Heap

/-- The own keys of an object are in order, given the earlier heaps, the latest first. -/
structure KeysInOrder (h : Heap) (earlier : List Heap) (id : ObjectId) : Prop where
  /-- They are the keys under which there is a property. -/
  mem : ∀ key, key ∈ (h.get id).keys ↔ ((h.get id).find? key).isSome = true
  /-- They come in the order that elements and creation prescribe. -/
  before : (h.get id).keys.Pairwise ((h.get id).Before (Heap.age (h :: earlier) id))
  /-- Those that were there one change ago and still are stand as they stood then. -/
  steady : ∀ g ∈ earlier.head?, (h.get id).keys.filter (· ∈ (g.get id).keys)
    = (g.get id).keys.filter (· ∈ (h.get id).keys)

/-- If the keys were in order and are in order after one change, those that are still there stand as they
stood. -/
theorem Heap.Next.steady {g h : Heap} (next : g.Next h) {id : ObjectId} {earlier : List Heap}
    (placed : (g.get id).Placed) (placed' : (h.get id).Placed)
    (before : (g.get id).keys.Pairwise ((g.get id).Before (age (g :: earlier) id)))
    (before' : (h.get id).keys.Pairwise ((h.get id).Before (age (h :: g :: earlier) id))) :
    (h.get id).keys.filter (· ∈ (g.get id).keys) = (g.get id).keys.filter (· ∈ (h.get id).keys) := by
  have hage : ∀ key ∈ (h.get id).keys, age (h :: g :: earlier) id key = age (g :: earlier) id key + 1 :=
    fun key mem => age_of_present ((placed'.mem_keys key).1 mem)
  have hkept : ((g.get id).keys.filter (· ∈ (h.get id).keys)).Pairwise
      ((h.get id).Before (age (h :: g :: earlier) id)) := by
    refine (before.filter _).imp_of_mem fun {key other} hkey hother hbefore => ?_
    obtain ⟨hkey, hkey'⟩ := List.mem_filter.1 hkey
    obtain ⟨-, hother'⟩ := List.mem_filter.1 hother
    -- both keys are one heap older, and elements if they were before
    have hposition := next.position?_eq ((placed.mem_keys key).1 hkey)
    rw [Object.Before] at hbefore ⊢
    rwa [hposition, hposition, hage key (of_decide_eq_true hkey'), hage other (of_decide_eq_true hother'),
      Nat.succ_lt_succ_iff]
  refine List.Perm.eq_of_pairwise (fun a b _ _ hab hba => absurd hba hab.asymm) (before'.filter _) hkept ?_
  refine (List.perm_ext_iff_of_nodup (placed'.nodup_keys.filter _) (placed.nodup_keys.filter _)).2 fun key => ?_
  simp only [List.mem_filter, decide_eq_true_eq]
  exact and_comm

namespace Chronicle

variable {past : List Heap} {log : List Event} {heap : Heap}

/-- The keys of a table are at all times in the order in which they were last made. -/
theorem table_order (chronicle : Chronicle {} past log heap) (id : ObjectId) :
    (heap.get id).table.keys.Pairwise
      fun key other => Heap.age (heap :: past) id other < Heap.age (heap :: past) id key := by
  have wellFormed := chronicle.wellFormed
  induction past generalizing heap log with
  | nil =>
    obtain ⟨-, rfl⟩ | ⟨_, _, _, hpast, -⟩ := chronicle.past_cases
    · exact .nil
    · cases hpast
  | cons g earlier ih =>
    obtain ⟨hpast, -⟩ | ⟨_, _, _, hpast, before, next⟩ := chronicle.past_cases
    · cases hpast
    · cases hpast
      obtain ⟨hheap, hearlier⟩ := List.forall_mem_cons.1 wellFormed
      exact next.table_order (hearlier g List.mem_cons_self id).toPlaced (hheap id).toPlaced
        (ih before before.wellFormed)

/-- The own keys of every object are in order. -/
theorem keysInOrder (chronicle : Chronicle {} past log heap) (id : ObjectId) :
    KeysInOrder heap past id := by
  obtain ⟨hheap, hpast⟩ := List.forall_mem_cons.1 chronicle.wellFormed
  have placed := (hheap id).toPlaced
  have hbefore := placed.keys_before (chronicle.table_order id)
  refine ⟨placed.mem_keys, hbefore, fun g hg => ?_⟩
  obtain ⟨rfl, -⟩ | ⟨g', earlier, _, rfl, before, next⟩ := chronicle.past_cases
  · cases hg
  · obtain rfl : g' = g := Option.some.inj hg
    have placed' := (hpast g' List.mem_cons_self id).toPlaced
    exact next.steady placed' placed (placed'.keys_before (before.table_order id)) hbefore

end Chronicle

namespace Host

/-- The own keys of every object are in order at every moment of a run, also while operations are under
way. A run has a chronicle. In every chronicle of the run there are all heaps that the run lets anyone see,
and at every heap in it the keys are in the order that the heaps before prescribe. -/
theorem keys_in_order (host : Host σ) (depth : Nat) (r : Routine σ α) (s : σ) :
    (∃ past, Chronicle {} past (host.trace depth r ⟨{}, s⟩) (host.run depth r ⟨{}, s⟩).2.heap)
      ∧ ∀ past, Chronicle {} past (host.trace depth r ⟨{}, s⟩) (host.run depth r ⟨{}, s⟩).2.heap →
        (∀ h, host.Visits depth r ⟨{}, s⟩ h → h ∈ (host.run depth r ⟨{}, s⟩).2.heap :: past)
          ∧ ∀ h earlier, h :: earlier <:+ (host.run depth r ⟨{}, s⟩).2.heap :: past →
            ∀ id, KeysInOrder h earlier id := by
  refine ⟨host.chronicle depth r ⟨{}, s⟩, fun past chronicle => ⟨fun h visited => ?_, ?_⟩⟩
  · exact visited.mem chronicle
  · intro h earlier suffix id
    obtain ⟨_, before⟩ := chronicle.of_suffix suffix
    exact before.keysInOrder id

/-- Makes an array with an element and two properties under names, and makes the first of these again. -/
def remaking : Routine Unit (Except Error Unit) :=
  .perform (.newArray none 0 {}) fun _ =>
    .perform (.put ⟨0⟩ (.ofText "b") .null true) fun _ =>
      .perform (.put ⟨0⟩ (.ofText "a") .null true) fun _ =>
        .perform (.put ⟨0⟩ (.ofText "6") .null true) fun _ =>
          .perform (.delete ⟨0⟩ (.ofText "b") true) fun _ =>
            .perform (.put ⟨0⟩ (.ofText "b") .null true) .finish

/-- The element comes first, though it was made after the names, and the name made again comes last. -/
theorem keys_in_order_remaking :
    ∃ past, Chronicle {} past (idle.trace 1 remaking ⟨{}, ()⟩) (idle.run 1 remaking ⟨{}, ()⟩).2.heap
      ∧ ((idle.run 1 remaking ⟨{}, ()⟩).2.heap.get ⟨0⟩).keys
        = [.ofWord 6, .length, .ofText "a", .ofText "b"]
      ∧ KeysInOrder (idle.run 1 remaking ⟨{}, ()⟩).2.heap past ⟨0⟩ := by
  obtain ⟨⟨past, chronicle⟩, inOrder⟩ := keys_in_order idle 1 remaking ()
  refine ⟨past, chronicle, by decide +kernel, ?_⟩
  exact (inOrder past chronicle).2 _ past (List.suffix_refl _) ⟨0⟩

end Host

end ObjectModel
