import ObjectModel.Key
import ObjectModel.Property

/-!
# Property tables

A `PropertyTable` maps keys to properties and remembers the order in which the keys came. Storing under
a key that is present leaves it where it is; a key that was removed and is stored again comes last.
-/

namespace ObjectModel

/-- Properties by key, in the order in which the keys were added. -/
structure PropertyTable where
  entries : List (Key × Property)
  distinct : (entries.map Prod.fst).Nodup

namespace PropertyTable

/-- The table without properties. -/
def empty : PropertyTable := ⟨[], .nil⟩

instance : Inhabited PropertyTable := ⟨empty⟩

/-- The keys in order. -/
def keys (t : PropertyTable) : List Key := t.entries.map Prod.fst

/-- The property stored under a key. -/
def find? (t : PropertyTable) (key : Key) : Option Property := t.entries.lookup key

/-- The entries with the property under `key` exchanged. -/
def replaceEntry (key : Key) (p : Property) (entries : List (Key × Property)) :
    List (Key × Property) :=
  entries.map fun e => if e.1 = key then (key, p) else e

/-- Exchanging a property leaves the keys as they are. -/
theorem map_fst_replaceEntry (key : Key) (p : Property) (entries : List (Key × Property)) :
    (replaceEntry key p entries).map Prod.fst = entries.map Prod.fst := by
  rw [replaceEntry, List.map_map]
  refine List.map_congr_left fun e _ => ?_
  by_cases h : e.1 = key <;> simp [h]

/-- A key has a property exactly if it is among the keys. -/
theorem isSome_find? (t : PropertyTable) (key : Key) : (t.find? key).isSome = true ↔ key ∈ t.keys := by
  rw [find?, keys, List.lookup_isSome_iff, List.mem_map]
  exact ⟨fun ⟨p, hp, he⟩ => ⟨p, hp, (beq_iff_eq.1 he).symm⟩,
    fun ⟨p, hp, he⟩ => ⟨p, hp, beq_iff_eq.2 he.symm⟩⟩

/-- Stores a property: in the place of the one under the same key, or at the end. -/
def insert (t : PropertyTable) (key : Key) (p : Property) : PropertyTable :=
  if h : (t.find? key).isSome then
    ⟨replaceEntry key p t.entries, by rw [map_fst_replaceEntry]; exact t.distinct⟩
  else
    ⟨t.entries ++ [(key, p)], by
      rw [isSome_find?] at h
      rw [List.map_append, List.nodup_append]
      refine ⟨t.distinct, by simp, fun a ha b hb => ?_⟩
      simp only [List.map_cons, List.map_nil, List.mem_singleton] at hb
      exact fun e => h (hb ▸ e ▸ ha)⟩

/-- Removes the property under a key. -/
def erase (t : PropertyTable) (key : Key) : PropertyTable where
  entries := t.entries.filter (·.1 ≠ key)
  distinct := (List.filter_sublist.map Prod.fst).nodup t.distinct

/-! ## Looking up after a change -/

private theorem lookup_replaceEntry (key other : Key) (p : Property)
    (entries : List (Key × Property)) (h : key ∈ entries.map Prod.fst) :
    (replaceEntry key p entries).lookup other
      = if key = other then some p else entries.lookup other := by
  induction entries with
  | nil => simp at h
  | cons e rest ih =>
    obtain ⟨k, q⟩ := e
    simp only [replaceEntry, List.map_cons] at ih ⊢
    by_cases hk : k = key
    · subst hk
      by_cases ho : other = k
      · subst ho
        simp
      · simp only [if_true, List.lookup_cons, beq_eq_false_iff_ne.2 ho, Ne.symm ho, if_false]
        by_cases hrest : k ∈ rest.map Prod.fst
        · rw [ih hrest, if_neg (Ne.symm ho)]
        · have hsame : (rest.map fun e => if e.1 = k then (k, p) else e) = rest := by
            refine (List.map_congr_left fun e he => if_neg fun h => hrest ?_).trans (List.map_id' _)
            exact h ▸ List.mem_map_of_mem he
          rw [hsame]
    · have hrest : key ∈ rest.map Prod.fst := by
        simpa [Ne.symm hk] using h
      simp only [if_neg hk, List.lookup_cons, ih hrest]
      by_cases ho : other = k
      · subst ho
        simp [Ne.symm hk]
      · simp [beq_eq_false_iff_ne.2 ho]

/-- A stored property is found under its key, and nothing else changes. -/
theorem find?_insert (t : PropertyTable) (key other : Key) (p : Property) :
    (t.insert key p).find? other = if key = other then some p else t.find? other := by
  rw [insert]
  split
  · next h => exact lookup_replaceEntry key other p t.entries ((isSome_find? t key).1 h)
  · next h =>
    have hnone : t.entries.lookup key = none := Option.not_isSome_iff_eq_none.1 h
    simp only [find?, List.lookup_append]
    by_cases ho : key = other
    · subst ho
      simp [hnone]
    · simp [ho, List.lookup_cons, beq_eq_false_iff_ne.2 (Ne.symm ho)]

/-- A removed key has no property, and nothing else changes. -/
theorem find?_erase (t : PropertyTable) (key other : Key) :
    (t.erase key).find? other = if key = other then none else t.find? other := by
  simp only [find?, erase]
  induction t.entries with
  | nil => simp
  | cons e rest ih =>
    obtain ⟨k, q⟩ := e
    by_cases hk : k = key
    · subst hk
      rw [List.filter_cons_of_neg (by simp), ih]
      by_cases ho : other = k
      · simp [ho]
      · simp [List.lookup_cons, beq_eq_false_iff_ne.2 ho, Ne.symm ho]
    · rw [List.filter_cons_of_pos (by simpa using hk)]
      simp only [List.lookup_cons, ih]
      by_cases ho : other = k
      · subst ho
        simp [Ne.symm hk]
      · simp [beq_eq_false_iff_ne.2 ho]

/-- Storing under a key that is present keeps the order of the keys; a new key comes last. -/
theorem keys_insert (t : PropertyTable) (key : Key) (p : Property) :
    (t.insert key p).keys = if key ∈ t.keys then t.keys else t.keys ++ [key] := by
  rw [insert]
  split
  · next h =>
    rw [if_pos ((isSome_find? t key).1 h)]
    exact map_fst_replaceEntry key p t.entries
  · next h =>
    rw [if_neg (mt (isSome_find? t key).2 h)]
    exact List.map_append

/-- Removing a key keeps the order of the others. -/
theorem keys_erase (t : PropertyTable) (key : Key) :
    (t.erase key).keys = t.keys.filter (· ≠ key) := by
  rw [keys, erase, keys, List.filter_map]
  rfl

end PropertyTable

end ObjectModel
