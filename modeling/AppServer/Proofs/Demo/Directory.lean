import AppServer.Demo.Directory
import AppServer.Proofs.Data.Sorted
import Mathlib.Data.Set.Card
import Mathlib.Logic.Function.Basic

/-!
# The directory as a map

What a directory stores is read as a map from names to users. Storing and removing update the map at
one name. In a directory that is made by these no name occurs twice and every user stands under its
own name, so that there are as many entries as names with a user.
-/

namespace AppServer.Demo.Directory

open AppServer.Data

/-- Entries in the order of their keys, each a user under its own name. -/
structure Valid (d : Directory) : Prop where
  ascending : Ascending d.users
  named : ∀ e ∈ d.users, e.2.name = e.1

variable {d : Directory}

theorem valid_empty : Valid empty where
  ascending := .nil
  named := by simp [empty]

theorem Valid.put (h : d.Valid) (u : User) : (d.put u).Valid where
  ascending := h.ascending.insertSorted u.name u
  named e he := by
    rcases mem_insertSorted he with rfl | he
    · rfl
    · exact h.named e he

theorem Valid.remove (h : d.Valid) (name : String) : (d.remove name).2.Valid where
  ascending := h.ascending.filter _
  named e he := h.named e (List.mem_filter.mp he).1

theorem Valid.name_eq (h : d.Valid) {name : String} {u : User} (hu : d.get? name = some u) :
    u.name = name :=
  h.named (name, u) (mem_of_lookup? hu)

/-! ## Updates of the map -/

theorem get?_empty : empty.get? = fun _ => none := by
  funext name
  exact lookup?_nil name

theorem get?_put (d : Directory) (u : User) :
    (d.put u).get? = Function.update d.get? u.name (some u) := by
  funext name
  by_cases hname : name = u.name
  · rw [hname, get?_put_self, Function.update_self]
  · rw [get?_put_of_ne d u hname, Function.update_of_ne hname]

theorem get?_remove_eq_update (d : Directory) (name : String) :
    (d.remove name).2.get? = Function.update d.get? name none := by
  funext other
  rw [get?_remove]
  by_cases hother : other = name
  · rw [if_pos hother, hother, Function.update_self]
  · rw [if_neg hother, Function.update_of_ne hother]

/-- Removing a user who is not there changes nothing. -/
theorem remove_of_none {name : String} (h : d.get? name = none) : (d.remove name).2 = d := by
  rw [get?, lookup?, Option.map_eq_none_iff, List.find?_eq_none] at h
  have hkept : d.users.filter (·.1 != name) = d.users := by
    rw [List.filter_eq_self]
    intro e he
    simpa using h e he
  rw [remove, hkept]

/-- The directory has an entry for every name with a user and no other. -/
theorem Valid.length_users (h : d.Valid) :
    d.users.length = {name | d.get? name ≠ none}.ncard := by
  have hnames : {name | d.get? name ≠ none} = ((d.users.map Prod.fst).toFinset : Set String) := by
    ext name
    rw [Set.mem_ofPred_eq, List.coe_toFinset, Set.mem_ofPred_eq, Option.ne_none_iff_exists']
    constructor
    · rintro ⟨u, hu⟩
      exact List.mem_map.mpr ⟨_, mem_of_lookup? hu, rfl⟩
    · exact exists_lookup?
  rw [hnames, Set.ncard_coe_finset, List.toFinset_card_of_nodup h.ascending.nodup_keys,
    List.length_map]

end AppServer.Demo.Directory
