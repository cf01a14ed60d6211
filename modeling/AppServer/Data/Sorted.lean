/-!
# Entries in the order of their keys

Association lists that insertion keeps ordered by key. What is found under a key is the last value
inserted for it.
-/

namespace AppServer.Data

variable {β : Type}

/-- Inserts into an association list ordered by key, replacing the value of an equal key. -/
def insertSorted (key : String) (value : β) : List (String × β) → List (String × β)
  | [] => [(key, value)]
  | (k, v) :: rest =>
    if key < k then (key, value) :: (k, v) :: rest
    else if key = k then (key, value) :: rest
    else (k, v) :: insertSorted key value rest

/-- Entries ordered by key; of several values of one key the last. -/
def sortEntries (entries : List (String × β)) : List (String × β) :=
  entries.foldl (fun done (k, v) => insertSorted k v done) []

/-- The value of a key. -/
def lookup? (key : String) (entries : List (String × β)) : Option β :=
  (entries.find? (·.1 == key)).map (·.2)

/-- Whether the keys strictly ascend. -/
def Ascending (entries : List (String × β)) : Prop :=
  entries.Pairwise fun a b => a.1 < b.1

@[simp] theorem lookup?_nil (key : String) : lookup? key ([] : List (String × β)) = none := rfl

theorem lookup?_cons (key : String) (e : String × β) (rest : List (String × β)) :
    lookup? key (e :: rest) = if e.1 = key then some e.2 else lookup? key rest := by
  by_cases h : e.1 = key <;> simp [lookup?, h]

/-- A value is found under its key where no key occurs twice. -/
theorem lookup?_of_mem {key : String} {value : β} {entries : List (String × β)}
    (hkeys : (entries.map Prod.fst).Nodup) (h : (key, value) ∈ entries) :
    lookup? key entries = some value := by
  induction entries with
  | nil => cases h
  | cons e rest ih =>
    obtain ⟨hfresh, hrest⟩ := List.nodup_cons.mp hkeys
    rw [lookup?_cons]
    rcases List.mem_cons.mp h with rfl | h
    · rw [if_pos rfl]
    · have hne : e.1 ≠ key := by
        rintro rfl
        exact hfresh (List.mem_map.mpr ⟨_, h, rfl⟩)
      rw [if_neg hne, ih hrest h]

/-- An entry is the only one with its key where no key occurs twice. -/
theorem filter_key_of_mem {key : String} {value : β} {entries : List (String × β)}
    (hkeys : (entries.map Prod.fst).Nodup) (h : (key, value) ∈ entries) :
    entries.filter (·.1 == key) = [(key, value)] := by
  induction entries with
  | nil => cases h
  | cons e rest ih =>
    obtain ⟨hfresh, hrest⟩ := List.nodup_cons.mp hkeys
    rcases List.mem_cons.mp h with rfl | h
    · have hnone : rest.filter (·.1 == key) = [] := by
        rw [List.filter_eq_nil_iff]
        intro e he hkey
        exact hfresh (List.mem_map.mpr ⟨e, he, eq_of_beq hkey⟩)
      rw [List.filter_cons, if_pos (beq_self_eq_true key), hnone]
    · have hne : ¬ (e.1 == key) = true := by
        intro hkey
        exact hfresh (List.mem_map.mpr ⟨_, h, (eq_of_beq hkey).symm⟩)
      rw [List.filter_cons, if_neg hne, ih hrest h]

@[simp] theorem lookup?_insertSorted_self (key : String) (value : β) (l : List (String × β)) :
    lookup? key (insertSorted key value l) = some value := by
  induction l with
  | nil => simp [insertSorted, lookup?_cons]
  | cons e rest ih =>
    obtain ⟨k, v⟩ := e
    unfold insertSorted
    split
    · simp [lookup?_cons]
    · split
      · simp [lookup?_cons]
      · rename_i h
        simp [lookup?_cons, Ne.symm h, ih]

theorem lookup?_insertSorted_of_ne {key other : String} (h : other ≠ key) (value : β)
    (l : List (String × β)) : lookup? other (insertSorted key value l) = lookup? other l := by
  induction l with
  | nil => simp [insertSorted, lookup?_cons, Ne.symm h]
  | cons e rest ih =>
    obtain ⟨k, v⟩ := e
    unfold insertSorted
    split
    · simp [lookup?_cons, Ne.symm h]
    · split
      · rename_i hk
        subst hk
        simp [lookup?_cons, Ne.symm h]
      · simp only [lookup?_cons, ih]

/-- Inserting adds at most its own key. -/
theorem mem_insertSorted {key : String} {value : β} {l : List (String × β)} {e : String × β}
    (h : e ∈ insertSorted key value l) : e = (key, value) ∨ e ∈ l := by
  induction l with
  | nil => simpa [insertSorted] using h
  | cons x rest ih =>
    obtain ⟨k, v⟩ := x
    unfold insertSorted at h
    split at h
    · simpa using h
    · split at h
      · rcases List.mem_cons.1 h with rfl | h
        · exact .inl rfl
        · exact .inr (List.mem_cons_of_mem _ h)
      · rcases List.mem_cons.1 h with rfl | h
        · exact .inr List.mem_cons_self
        · exact (ih h).imp_right (List.mem_cons_of_mem _)

theorem Ascending.insertSorted {l : List (String × β)} (h : Ascending l) (key : String)
    (value : β) : Ascending (insertSorted key value l) := by
  induction l with
  | nil => simp [Data.insertSorted, Ascending]
  | cons x rest ih =>
    obtain ⟨k, v⟩ := x
    have hx := List.pairwise_cons.1 h
    unfold Data.insertSorted
    split
    · rename_i hk
      refine List.pairwise_cons.2 ⟨fun e he => ?_, h⟩
      rcases List.mem_cons.1 he with rfl | he
      · exact hk
      · exact String.lt_trans hk (hx.1 e he)
    · split
      · rename_i hk
        subst hk
        exact List.pairwise_cons.2 ⟨hx.1, hx.2⟩
      · rename_i hlt hne
        refine List.pairwise_cons.2 ⟨fun e he => ?_, ih hx.2⟩
        rcases mem_insertSorted he with rfl | he
        · exact Std.lt_of_le_of_ne (Std.not_lt.1 hlt) (Ne.symm hne)
        · exact hx.1 e he

theorem ascending_sortEntries (entries : List (String × β)) : Ascending (sortEntries entries) := by
  have step : ∀ (es done : List (String × β)), Ascending done →
      Ascending (es.foldl (fun done (k, v) => insertSorted k v done) done) := by
    intro es
    induction es with
    | nil => exact fun _ h => h
    | cons e es ih => exact fun done h => ih _ (h.insertSorted e.1 e.2)
  exact step entries [] List.Pairwise.nil

end AppServer.Data
