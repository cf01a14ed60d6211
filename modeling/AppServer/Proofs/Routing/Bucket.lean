import AppServer.Proofs.Routing.InPlace
import AppServer.Proofs.Routing.Pattern
import Mathlib.Data.List.Nodup
import Mathlib.Data.List.Pairwise

/-!
# The entries of one bucket

A bucket holds the patterns of one length. Its entries ascend by their parameters, no two of them
are rivals, and every one has a route. Seen from outside, a bucket is a partial map from a pattern
and a method to a chain; adding a route that is not refused changes that map at one place.
-/

namespace AppServer.Routing

open AppServer.Http AppServer.Pipeline

variable {σ : Type}

namespace Entry

/-- The chain for exactly this method, `none` meaning every other one. -/
def route? (e : Entry σ) : Option Method → Option (Chain σ)
  | none => e.any
  | some m => (e.methods.find? (·.1 == m)).map (·.2)

theorem chainFor?_eq (e : Entry σ) (m : Method) :
    e.chainFor? m = (e.route? (some m)).or (e.route? none) := rfl

theorem has_eq_isSome (e : Entry σ) (m : Option Method) : e.has m = (e.route? m).isSome := by
  cases m with
  | none => rfl
  | some m =>
      rw [Bool.eq_iff_iff]
      simp [has, route?]

theorem isSome_route?_some {e : Entry σ} {m : Method} :
    (e.route? (some m)).isSome = true ↔ m ∈ e.methods.map Prod.fst := by
  simp [route?]

@[simp] theorem pattern_add (e : Entry σ) (m : Option Method) (c : Chain σ) :
    (e.add m c).pattern = e.pattern := by
  cases m <;> rfl

@[simp] theorem pattern_new (p : Pattern) : (new p : Entry σ).pattern = p := rfl

@[simp] theorem route?_new (p : Pattern) (m : Option Method) : (new p : Entry σ).route? m = none := by
  cases m <;> rfl

/-- A route that was not there becomes the only difference. -/
theorem route?_add {e : Entry σ} {m : Option Method} (h : e.route? m = none) (c : Chain σ)
    (m' : Option Method) :
    (e.add m c).route? m' = if m' = m then some c else e.route? m' := by
  cases m with
  | none => cases m' <;> simp [add, route?]
  | some m =>
      cases m' with
      | none => simp [add, route?]
      | some m' =>
          have habsent : e.methods.find? (·.1 == m) = none := by simpa [route?] using h
          by_cases heq : m' = m
          · subst heq
            simp [add, route?, habsent]
          · have hne : (m == m') = false := by simpa using Ne.symm heq
            simp [add, route?, heq, hne]

theorem nodup_methods_add {e : Entry σ} {m : Option Method} (h : e.route? m = none) (c : Chain σ)
    (hnd : (e.methods.map Prod.fst).Nodup) : ((e.add m c).methods.map Prod.fst).Nodup := by
  cases m with
  | none => exact hnd
  | some m =>
      have hfresh : m ∉ e.methods.map Prod.fst := by
        rw [← isSome_route?_some, h]
        simp
      simp only [add, List.map_append, List.map_cons, List.map_nil]
      rw [List.nodup_append_comm, List.singleton_append]
      exact List.nodup_cons.mpr ⟨hfresh, hnd⟩

end Entry

/-- What every bucket of a router satisfies. -/
structure Bucket (n : Nat) (entries : List (Entry σ)) : Prop where
  length : ∀ e ∈ entries, e.pattern.length = n
  ascending : entries.Pairwise fun a b => a.pattern.paramCount ≤ b.pattern.paramCount
  apart : entries.Pairwise fun a b => ¬ a.pattern.Rivals b.pattern
  served : ∀ e ∈ entries, ∃ m, (e.route? m).isSome = true
  once : ∀ e ∈ entries, (e.methods.map Prod.fst).Nodup

/-- The chain that some entries hold for a pattern and a method. -/
def routeIn? (entries : List (Entry σ)) (m : Option Method) (p : Pattern) : Option (Chain σ) :=
  (entries.find? (·.pattern == p)).bind (·.route? m)

namespace Bucket

variable {n : Nat} {entries entries' : List (Entry σ)} {m : Option Method} {p : Pattern}
  {c : Chain σ}

theorem nil : Bucket n ([] : List (Entry σ)) :=
  ⟨by simp, .nil, .nil, by simp, by simp⟩

/-- Two entries of a bucket whose patterns are rivals are one entry. -/
theorem eq_of_rivals (hb : Bucket n entries) {a b : Entry σ} (ha : a ∈ entries)
    (hbm : b ∈ entries) (h : a.pattern.Rivals b.pattern) : a = b := by
  by_contra hne
  have : Std.Symm fun a b : Entry σ => ¬ a.pattern.Rivals b.pattern :=
    ⟨fun _ _ hab hba => hab hba.symm⟩
  exact hb.apart.forall ha hbm hne h

theorem find?_eq_some_iff (hb : Bucket n entries) {e : Entry σ} :
    entries.find? (·.pattern == p) = some e ↔ e ∈ entries ∧ e.pattern = p := by
  constructor
  · intro h
    exact ⟨List.mem_of_find?_eq_some h, by simpa using List.find?_some h⟩
  · rintro ⟨hmem, rfl⟩
    obtain ⟨e', he'⟩ : ∃ e', entries.find? (·.pattern == e.pattern) = some e' := by
      rw [← Option.isSome_iff_exists, List.find?_isSome]
      exact ⟨e, hmem, by simp⟩
    have hpattern : e'.pattern = e.pattern := by simpa using List.find?_some he'
    rw [he', hb.eq_of_rivals (List.mem_of_find?_eq_some he') hmem (hpattern ▸ .refl _)]

/-- The map of a bucket, told by its entries. -/
theorem routeIn?_eq_some_iff (hb : Bucket n entries) :
    routeIn? entries m p = some c ↔ ∃ e ∈ entries, e.pattern = p ∧ e.route? m = some c := by
  simp only [routeIn?, Option.bind_eq_some_iff, hb.find?_eq_some_iff]
  constructor
  · rintro ⟨e, ⟨hmem, hp⟩, hc⟩
    exact ⟨e, hmem, hp, hc⟩
  · rintro ⟨e, hmem, hp, hc⟩
    exact ⟨e, ⟨hmem, hp⟩, hc⟩

theorem routeIn?_of_mem (hb : Bucket n entries) {e : Entry σ} (he : e ∈ entries)
    (m : Option Method) : routeIn? entries m e.pattern = e.route? m := by
  rw [routeIn?, hb.find?_eq_some_iff.mpr ⟨he, rfl⟩]
  rfl

/-- No route is held for a pattern that no entry rivals. -/
theorem routeIn?_eq_none (hb : Bucket n entries)
    (hfree : ∀ e ∈ entries, ¬ e.pattern.Rivals p) (m : Option Method) :
    routeIn? entries m p = none := by
  rw [Option.eq_none_iff_forall_ne_some]
  intro c hc
  obtain ⟨e, he, hp, -⟩ := hb.routeIn?_eq_some_iff.mp hc
  exact hfree e he (hp ▸ .refl _)

end Bucket

/-! ## Adding a route -/

namespace Router

/-- A pattern is its own rival, so the search for a related entry is one for a rival. -/
theorem firstRelated?_eq_find? (p : Pattern) (entries : List (Entry σ)) :
    firstRelated? p entries = entries.find? fun e => decide (e.pattern.Rivals p) := by
  unfold firstRelated?
  congr 1
  funext e
  rw [Bool.eq_iff_iff]
  simp only [Bool.or_eq_true, beq_iff_eq, Bool.and_eq_true, decide_eq_true_eq]
  constructor
  · rintro (h | h)
    · exact h ▸ .refl _
    · exact h
  · exact .inr

/-- Everything that adding a route to some entries can do. -/
theorem addRoute_cases (entries : List (Entry σ)) (m : Option Method) (p : Pattern)
    (c : Chain σ) :
    (∃ e ∈ entries, e.pattern = p ∧ e.route? m ≠ none ∧
      addRoute entries m p c = .error (.duplicate (methodLabel m) p.render)) ∨
    (∃ e ∈ entries, e.pattern = p ∧ e.route? m = none ∧
      addRoute entries m p c = .ok (updateEntry p (·.add m c) entries)) ∨
    (∃ e ∈ entries, e.pattern ≠ p ∧ e.pattern.Rivals p ∧
      addRoute entries m p c = .error (.ambiguous e.pattern.render p.render)) ∨
    ((∀ e ∈ entries, ¬ e.pattern.Rivals p) ∧
      addRoute entries m p c = .ok (insertEntry ((Entry.new p).add m c) entries)) := by
  unfold addRoute
  rw [firstRelated?_eq_find?]
  cases h : entries.find? fun e => decide (e.pattern.Rivals p) with
  | none =>
      rw [List.find?_eq_none] at h
      exact .inr (.inr (.inr ⟨fun e he => by simpa using h e he, rfl⟩))
  | some e =>
      have hmem := List.mem_of_find?_eq_some h
      have hrival : e.pattern.Rivals p := by simpa using List.find?_some h
      by_cases hp : e.pattern = p
      · cases hm : e.route? m with
        | none =>
            have hhas : e.has m = false := by rw [Entry.has_eq_isSome, hm]; rfl
            exact .inr (.inl ⟨e, hmem, hp, hm, by simp [hp, hhas]⟩)
        | some old =>
            have hhas : e.has m = true := by rw [Entry.has_eq_isSome, hm]; rfl
            exact .inl ⟨e, hmem, hp, by simp [hm], by simp [hp, hhas]⟩
      · exact .inr (.inr (.inl ⟨e, hmem, hp, hrival, by simp [hp]⟩))

theorem insertEntry_perm (e : Entry σ) (entries : List (Entry σ)) :
    (insertEntry e entries).Perm (e :: entries) := by
  induction entries with
  | nil => rfl
  | cons x xs ih =>
      simp only [insertEntry]
      split
      · exact (ih.cons x).trans (.swap e x xs)
      · rfl

theorem mem_insertEntry {e x : Entry σ} {entries : List (Entry σ)} :
    x ∈ insertEntry e entries ↔ x = e ∨ x ∈ entries := by
  rw [(insertEntry_perm e entries).mem_iff, List.mem_cons]

/-- Inserting keeps the entries ascending by their parameters. -/
theorem ascending_insertEntry (e : Entry σ) {entries : List (Entry σ)}
    (h : entries.Pairwise fun a b => a.pattern.paramCount ≤ b.pattern.paramCount) :
    (insertEntry e entries).Pairwise fun a b => a.pattern.paramCount ≤ b.pattern.paramCount := by
  induction entries with
  | nil => simp [insertEntry]
  | cons x xs ih =>
      obtain ⟨hx, hxs⟩ := List.pairwise_cons.mp h
      simp only [insertEntry]
      split
      · rename_i hle
        refine List.pairwise_cons.mpr ⟨fun y hy => ?_, ih hxs⟩
        rcases mem_insertEntry.mp hy with rfl | hy
        · exact hle
        · exact hx y hy
      · rename_i hlt
        have hex : e.pattern.paramCount ≤ x.pattern.paramCount := by omega
        refine List.pairwise_cons.mpr ⟨fun y hy => ?_, h⟩
        rcases List.mem_cons.mp hy with rfl | hy
        · exact hex
        · exact Nat.le_trans hex (hx y hy)

end Router

namespace Bucket

variable {n : Nat} {entries entries' : List (Entry σ)} {m : Option Method} {p : Pattern}
  {c : Chain σ}

open Router

/-- A new pattern that no entry rivals. -/
theorem insertEntry (hb : Bucket n entries) {e : Entry σ} (hlen : e.pattern.length = n)
    (hserved : ∃ m, (e.route? m).isSome = true) (honce : (e.methods.map Prod.fst).Nodup)
    (hfree : ∀ x ∈ entries, ¬ x.pattern.Rivals e.pattern) :
    Bucket n (Router.insertEntry e entries) where
  length x hx := by
    rcases mem_insertEntry.mp hx with rfl | hx
    · exact hlen
    · exact hb.length x hx
  ascending := ascending_insertEntry e hb.ascending
  apart := by
    refine ((insertEntry_perm e entries).pairwise_iff ?_).mpr ?_
    · exact fun hab hba => hab hba.symm
    · exact List.pairwise_cons.mpr ⟨fun x hx h => hfree x hx h.symm, hb.apart⟩
  served x hx := by
    rcases mem_insertEntry.mp hx with rfl | hx
    · exact hserved
    · exact hb.served x hx
  once x hx := by
    rcases mem_insertEntry.mp hx with rfl | hx
    · exact honce
    · exact hb.once x hx

/-- The map of the entries with a new one. -/
theorem routeIn?_insertEntry (hb : Bucket n entries) {e : Entry σ}
    (hb' : Bucket n (Router.insertEntry e entries)) (m : Option Method) (q : Pattern) :
    routeIn? (Router.insertEntry e entries) m q =
      if q = e.pattern then e.route? m else routeIn? entries m q := by
  by_cases hq : q = e.pattern
  · rw [if_pos hq, hq]
    exact hb'.routeIn?_of_mem (mem_insertEntry.mpr (.inl rfl)) m
  · rw [if_neg hq]
    apply Option.ext
    intro d
    rw [hb'.routeIn?_eq_some_iff, hb.routeIn?_eq_some_iff]
    constructor
    · rintro ⟨x, hx, hxq, hd⟩
      rcases mem_insertEntry.mp hx with rfl | hx
      · exact absurd hxq.symm hq
      · exact ⟨x, hx, hxq, hd⟩
    · rintro ⟨x, hx, hxq, hd⟩
      exact ⟨x, mem_insertEntry.mpr (.inr hx), hxq, hd⟩

/-- One more route on a pattern that is there. -/
theorem updateEntry_add (hb : Bucket n entries) {e : Entry σ} (he : e ∈ entries)
    (hm : e.route? m = none) (c : Chain σ) :
    Bucket n (updateEntry e.pattern (·.add m c) entries) := by
  -- every entry but `e` stays, since no other has its pattern
  have hwhole : ∀ x ∈ updateEntry e.pattern (·.add m c) entries, x = e.add m c ∨ x ∈ entries := by
    intro x hx
    obtain ⟨y, hy, rfl⟩ := List.mem_map.mp hx
    by_cases hye : y.pattern = e.pattern
    · rw [hb.eq_of_rivals hy he (hye ▸ .refl _)]
      simp
    · simp [hye, hy]
  have hpattern : ∀ x : Entry σ,
      (if x.pattern == e.pattern then x.add m c else x).pattern = x.pattern := by
    intro x
    split <;> simp
  constructor
  case length =>
    intro x hx
    rcases hwhole x hx with rfl | hx
    · rw [Entry.pattern_add]
      exact hb.length e he
    · exact hb.length x hx
  case ascending =>
    simp only [updateEntry, List.pairwise_map, hpattern]
    exact hb.ascending
  case apart =>
    simp only [updateEntry, List.pairwise_map, hpattern]
    exact hb.apart
  case served =>
    intro x hx
    rcases hwhole x hx with rfl | hx
    · exact ⟨m, by simp [Entry.route?_add hm]⟩
    · exact hb.served x hx
  case once =>
    intro x hx
    rcases hwhole x hx with rfl | hx
    · exact Entry.nodup_methods_add hm c (hb.once e he)
    · exact hb.once x hx

/-- The map of the entries with one more route on a pattern. -/
theorem routeIn?_updateEntry_add (hb : Bucket n entries) {e : Entry σ} (he : e ∈ entries)
    (hm : e.route? m = none) (c : Chain σ) (m' : Option Method) (q : Pattern) :
    routeIn? (updateEntry e.pattern (·.add m c) entries) m' q =
      if q = e.pattern then (if m' = m then some c else e.route? m')
      else routeIn? entries m' q := by
  have hb' := hb.updateEntry_add he hm c
  by_cases hq : q = e.pattern
  · have hmem : e.add m c ∈ updateEntry e.pattern (·.add m c) entries :=
      List.mem_map.mpr ⟨e, he, by simp⟩
    rw [if_pos hq, hq, ← Entry.route?_add hm c m', ← hb'.routeIn?_of_mem hmem m',
      Entry.pattern_add]
  · rw [if_neg hq]
    apply Option.ext
    intro d
    rw [hb'.routeIn?_eq_some_iff, hb.routeIn?_eq_some_iff]
    constructor
    · rintro ⟨x, hx, rfl, hd⟩
      obtain ⟨y, hy, rfl⟩ := List.mem_map.mp hx
      by_cases hye : y.pattern = e.pattern
      · simp [hye] at hq
      · simp only [hye, beq_iff_eq, if_false] at hd ⊢
        exact ⟨y, hy, rfl, hd⟩
    · rintro ⟨x, hx, rfl, hd⟩
      exact ⟨x, List.mem_map.mpr ⟨x, hx, by simp [hq]⟩, rfl, hd⟩

/-- A bucket stays one when a route is added. -/
theorem addRoute (hb : Bucket n entries) (hp : p.length = n)
    (h : Router.addRoute entries m p c = .ok entries') : Bucket n entries' := by
  rcases addRoute_cases entries m p c with ⟨e, -, -, -, he⟩ | ⟨e, hmem, rfl, hm, he⟩ |
    ⟨e, -, -, -, he⟩ | ⟨hfree, he⟩
  · rw [he] at h
    cases h
  · rw [he] at h
    cases h
    exact hb.updateEntry_add hmem hm c
  · rw [he] at h
    cases h
  · rw [he] at h
    cases h
    refine hb.insertEntry (by simpa using hp) ⟨m, ?_⟩ ?_ (by simpa using hfree)
    · simp [Entry.route?_add (Entry.route?_new p m)]
    · exact Entry.nodup_methods_add (Entry.route?_new p m) c .nil

/-- Adding a route changes the map of a bucket at that route only. -/
theorem routeIn?_addRoute (hb : Bucket n entries) (hp : p.length = n)
    (h : Router.addRoute entries m p c = .ok entries') (m' : Option Method) (q : Pattern) :
    routeIn? entries' m' q = if q = p ∧ m' = m then some c else routeIn? entries m' q := by
  have hb' := hb.addRoute hp h
  rcases addRoute_cases entries m p c with ⟨e, -, -, -, he⟩ | ⟨e, hmem, rfl, hm, he⟩ |
    ⟨e, -, -, -, he⟩ | ⟨hfree, he⟩
  · rw [he] at h
    cases h
  · rw [he] at h
    cases h
    rw [hb.routeIn?_updateEntry_add hmem hm c]
    by_cases hq : q = e.pattern
    · subst hq
      simp [hb.routeIn?_of_mem hmem]
    · simp [hq]
  · rw [he] at h
    cases h
  · rw [he] at h
    cases h
    rw [hb.routeIn?_insertEntry hb', Entry.route?_add (Entry.route?_new p m)]
    by_cases hq : q = p
    · simp [hq, hb.routeIn?_eq_none hfree]
    · simp [hq]

/-- A route is added unless it is there or another pattern excludes it. -/
theorem addRoute_eq_ok_iff (hb : Bucket n entries) :
    (∃ entries', Router.addRoute entries m p c = .ok entries') ↔
      routeIn? entries m p = none ∧ ∀ e ∈ entries, e.pattern.Rivals p → e.pattern = p := by
  rcases addRoute_cases entries m p c with ⟨e, hmem, rfl, hm, he⟩ | ⟨e, hmem, rfl, hm, he⟩ |
    ⟨e, hmem, hp, hrival, he⟩ | ⟨hfree, he⟩
  · rw [he, hb.routeIn?_of_mem hmem]
    simp [hm]
  · rw [he, hb.routeIn?_of_mem hmem]
    refine ⟨fun _ => ⟨hm, fun x hx hr => ?_⟩, fun _ => ⟨_, rfl⟩⟩
    rw [hb.eq_of_rivals hx hmem hr]
  · rw [he]
    constructor
    · rintro ⟨_, h⟩
      cases h
    · rintro ⟨-, hsame⟩
      exact absurd (hsame e hmem hrival) hp
  · rw [he]
    have hnone := hb.routeIn?_eq_none hfree m
    exact ⟨fun _ => ⟨hnone, fun x hx hr => absurd hr (hfree x hx)⟩, fun _ => ⟨_, rfl⟩⟩

end Bucket

end AppServer.Routing
