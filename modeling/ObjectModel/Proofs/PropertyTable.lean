import ObjectModel.PropertyTable
import Mathlib.Data.List.Nodup

/-!
# Equal property tables

When two tables are equal, order included. A table is its list of entries, and its entries are the
properties that it finds (`mem_entries`). Storing what is there already changes nothing, nor does removing
what is not there; and of two properties stored one after the other under a key that was present, the
second stays.
-/

namespace ObjectModel.PropertyTable

/-- Tables with the same entries are equal. -/
theorem eq_of_entries {t t' : PropertyTable} (h : t.entries = t'.entries) : t = t' := by
  cases t
  cases t'
  cases h
  rfl

/-- Storing under a key that is present exchanges the entry. -/
theorem entries_insert {t : PropertyTable} {key : Key} (p : Property)
    (present : (t.find? key).isSome = true) :
    (t.insert key p).entries = replaceEntry key p t.entries := by
  rw [insert, dif_pos present]

/-- A table's entries are the properties that it finds. -/
theorem mem_entries {t : PropertyTable} {key : Key} {p : Property} :
    (key, p) ∈ t.entries ↔ t.find? key = some p := by
  have hfound : ∀ q, t.find? key = some q → (key, q) ∈ t.entries := by
    intro q hq
    obtain ⟨before, after, hentries, -⟩ := List.lookup_eq_some_iff.1 hq
    rw [hentries]
    exact List.mem_append_right _ List.mem_cons_self
  refine ⟨fun hp => ?_, hfound p⟩
  obtain ⟨q, hq⟩ := Option.isSome_iff_exists.1
    ((t.isSome_find? key).2 (List.mem_map.2 ⟨(key, p), hp, rfl⟩))
  have hsame := List.inj_on_of_nodup_map t.distinct hp (hfound q hq) rfl
  rw [hq, (Prod.mk.inj hsame).2]

/-- Storing what is there already changes nothing. -/
theorem insert_self {t : PropertyTable} {key : Key} {p : Property} (h : t.find? key = some p) :
    t.insert key p = t := by
  have hentries : replaceEntry key p t.entries = t.entries := by
    refine (List.map_congr_left fun e he => ?_).trans (List.map_id' _)
    split
    · next hkey =>
      have hq : t.find? key = some e.2 := mem_entries.1 (hkey ▸ he)
      rw [h] at hq
      rw [Option.some.inj hq, ← hkey]
    · rfl
  refine eq_of_entries ?_
  rw [entries_insert p (Option.isSome_of_mem h), hentries]

/-- Removing what is not there changes nothing. -/
theorem erase_of_none {t : PropertyTable} {key : Key} (absent : t.find? key = none) : t.erase key = t := by
  refine eq_of_entries (List.filter_eq_self.2 fun e he => decide_eq_true ?_)
  intro hkey
  have hfound : t.find? key = some e.2 := mem_entries.1 (hkey ▸ he)
  rw [absent] at hfound
  cases hfound

/-- Of two properties stored one after the other under a key that was present, the second stays. -/
theorem insert_insert {t : PropertyTable} {key : Key} (p q : Property)
    (present : (t.find? key).isSome = true) : (t.insert key p).insert key q = t.insert key q := by
  have hpresent : ((t.insert key p).find? key).isSome = true := by
    rw [find?_insert, if_pos rfl]
    rfl
  refine eq_of_entries ?_
  rw [entries_insert q hpresent, entries_insert p present, entries_insert q present, replaceEntry,
    replaceEntry, List.map_map]
  refine List.map_congr_left fun e _ => ?_
  by_cases he : e.1 = key <;> simp [he]

end ObjectModel.PropertyTable
