import AppServer.Data.Sorted
import Mathlib.Data.List.Induction
import Mathlib.Data.List.Nodup

/-!
# Looking up and sorting

What is found under a key is an entry with that key, and something is found under every key there is.
Sorting keeps, under each key, what was last entered. So where no key occurs twice, sorting keeps the
entries.
-/

namespace AppServer.Data

variable {β : Type} {key : String} {value : β} {entries : List (String × β)}

theorem mem_of_lookup? (h : lookup? key entries = some value) : (key, value) ∈ entries := by
  obtain ⟨⟨k, v⟩, hfind, rfl⟩ := Option.map_eq_some_iff.mp h
  have hkey := List.find?_some hfind
  obtain rfl : k = key := eq_of_beq hkey
  exact List.mem_of_find?_eq_some hfind

theorem exists_lookup? (h : key ∈ entries.map Prod.fst) :
    ∃ value, lookup? key entries = some value := by
  induction entries with
  | nil => cases h
  | cons e rest ih =>
      rw [lookup?_cons]
      by_cases he : e.1 = key
      · exact ⟨e.2, if_pos he⟩
      · rw [if_neg he]
        exact ih ((List.mem_cons.mp h).resolve_left (Ne.symm he))

theorem Ascending.nodup_keys (h : Ascending entries) : (entries.map Prod.fst).Nodup := by
  rw [List.Nodup, List.pairwise_map]
  refine List.Pairwise.imp ?_ h
  intro a b hlt heq
  exact String.lt_irrefl _ (heq ▸ hlt)

theorem sortEntries_append_singleton (entries : List (String × β)) (k : String) (v : β) :
    sortEntries (entries ++ [(k, v)]) = insertSorted k v (sortEntries entries) := by
  unfold sortEntries
  rw [List.foldl_append]
  rfl

/-- Under each key stands what was last entered. -/
theorem lookup?_sortEntries (key : String) (entries : List (String × β)) :
    lookup? key (sortEntries entries) = lookup? key entries.reverse := by
  induction entries using List.reverseRecOn with
  | nil => rfl
  | append_singleton entries e ih =>
      obtain ⟨k, v⟩ := e
      rw [sortEntries_append_singleton, List.reverse_append, List.reverse_singleton,
        List.singleton_append, lookup?_cons]
      by_cases hk : k = key
      · subst hk
        rw [lookup?_insertSorted_self, if_pos rfl]
      · rw [lookup?_insertSorted_of_ne (Ne.symm hk), if_neg hk, ih]

/-- Where no key occurs twice, sorting keeps the entries. -/
theorem mem_sortEntries_iff (hkeys : (entries.map Prod.fst).Nodup) {e : String × β} :
    e ∈ sortEntries entries ↔ e ∈ entries := by
  obtain ⟨k, v⟩ := e
  have hreverse : (entries.reverse.map Prod.fst).Nodup := by
    rw [List.map_reverse, List.nodup_reverse]
    exact hkeys
  constructor
  · intro h
    have hfound := lookup?_of_mem (ascending_sortEntries entries).nodup_keys h
    rw [lookup?_sortEntries] at hfound
    exact List.mem_reverse.mp (mem_of_lookup? hfound)
  · intro h
    have hfound := lookup?_of_mem hreverse (List.mem_reverse.mpr h)
    rw [← lookup?_sortEntries] at hfound
    exact mem_of_lookup? hfound

end AppServer.Data
