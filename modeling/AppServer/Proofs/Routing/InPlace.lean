import AppServer.Routing.Router

/-!
# Registration in place

A registration changes the router step by step: a bucket is opened, then an entry, then the entry is
filled. Told at once, it replaces one bucket and lists one route. Every step that can fail comes
before anything that it would have to undo, so a registration that is refused leaves the router as
it was.
-/

namespace AppServer.Routing

open AppServer.Http AppServer.Pipeline

variable {σ : Type}

namespace Router

/-- Replaces the value of a key, or adds it. -/
def setKey {β : Type} (n : Nat) (v : β) : List (Nat × β) → List (Nat × β)
  | [] => [(n, v)]
  | (k, old) :: rest => if k = n then (n, v) :: rest else (k, old) :: setKey n v rest

/-- The entries with one more route, unless the pattern or the method is taken. -/
def addRoute (entries : List (Entry σ)) (method : Option Method) (p : Pattern) (c : Chain σ) :
    Except RouteError (List (Entry σ)) :=
  match firstRelated? p entries with
  | none => .ok (insertEntry ((Entry.new p).add method c) entries)
  | some e =>
    if e.pattern == p then
      if e.has method then .error (.duplicate (methodLabel method) p.render)
      else .ok (updateEntry p (·.add method c) entries)
    else .error (.ambiguous e.pattern.render p.render)

/-! ## Buckets -/

/-- The values of a key. -/
def valuesOf {β : Type} (n : Nat) (l : List (Nat × List β)) : List β :=
  ((l.find? (·.1 == n)).map (·.2)).getD []

theorem bucket_eq (r : Router σ) (n : Nat) : r.bucket n = valuesOf n r.buckets := rfl

section Keys

variable {β : Type} {n : Nat} {l : List (Nat × List β)}

theorem openKey_of_valuesOf_ne_nil (h : valuesOf n l ≠ []) : openKey n l = l := by
  induction l with
  | nil => exact absurd rfl h
  | cons x rest ih =>
      obtain ⟨k, vs⟩ := x
      by_cases hk : k = n
      · simp [openKey, hk]
      · have hrest : valuesOf n rest ≠ [] := by simpa [valuesOf, hk] using h
        simp [openKey, hk, ih hrest]

theorem valuesOf_openKey (n k : Nat) (l : List (Nat × List β)) :
    valuesOf k (openKey n l) = valuesOf k l := by
  induction l with
  | nil =>
      by_cases h : n = k
      · simp [openKey, valuesOf, h]
      · simp [openKey, valuesOf, h]
  | cons x rest ih =>
      obtain ⟨i, vs⟩ := x
      by_cases hi : i = n
      · simp [openKey, hi]
      · rw [openKey, if_neg hi]
        by_cases hk : i = k
        · simp [valuesOf, hk]
        · simpa [valuesOf, hk] using ih

theorem adjustKey_openKey (f : List β → List β) :
    adjustKey n f (openKey n l) = setKey n (f (valuesOf n l)) l := by
  induction l with
  | nil => simp [openKey, adjustKey, setKey, valuesOf]
  | cons x rest ih =>
      obtain ⟨k, vs⟩ := x
      by_cases hk : k = n
      · simp [openKey, adjustKey, setKey, valuesOf, hk]
      · simpa [openKey, adjustKey, setKey, valuesOf, hk] using ih

theorem adjustKey_adjustKey (f g : List β → List β) :
    adjustKey n g (adjustKey n f l) = adjustKey n (g ∘ f) l := by
  induction l with
  | nil => rfl
  | cons x rest ih =>
      obtain ⟨k, vs⟩ := x
      by_cases hk : k = n
      · simp [adjustKey, hk]
      · simp [adjustKey, hk, ih]

theorem valuesOf_setKey_self (v : List β) : valuesOf n (setKey n v l) = v := by
  induction l with
  | nil => simp [setKey, valuesOf]
  | cons x rest ih =>
      obtain ⟨k, vs⟩ := x
      by_cases hk : k = n
      · simp [setKey, valuesOf, hk]
      · simpa [setKey, valuesOf, hk] using ih

end Keys

variable {r : Router σ}

theorem bucket_openBucket (r : Router σ) (n k : Nat) : (r.openBucket n).bucket k = r.bucket k :=
  valuesOf_openKey n k r.buckets

theorem openBucket_of_ne_nil {n : Nat} (h : r.bucket n ≠ []) : r.openBucket n = r := by
  unfold openBucket
  rw [openKey_of_valuesOf_ne_nil h]

/-! ## Entries -/

section Entries

variable {p : Pattern} {e : Entry σ} {entries : List (Entry σ)}

theorem firstRelated?_eq_none (h : firstRelated? p entries = none) :
    ∀ e ∈ entries, e.pattern ≠ p := by
  intro e he
  have := List.find?_eq_none.mp h e he
  simp only [Bool.or_eq_true, not_or, beq_iff_eq] at this
  exact this.1

theorem updateEntry_of_forall_ne (f : Entry σ → Entry σ) (h : ∀ e ∈ entries, e.pattern ≠ p) :
    updateEntry p f entries = entries := by
  unfold updateEntry
  refine (List.map_congr_left fun e he => ?_).trans (List.map_id _)
  simp [h e he]

/-- An entry that is put in its place and then filled is put in its place full. -/
theorem updateEntry_insertEntry {f : Entry σ → Entry σ} (hf : (f (.new p)).pattern = p)
    (h : ∀ e ∈ entries, e.pattern ≠ p) :
    updateEntry p f (insertEntry (.new p) entries) = insertEntry (f (.new p)) entries := by
  induction entries with
  | nil => simp [insertEntry, updateEntry, Entry.new]
  | cons x xs ih =>
      rw [List.forall_mem_cons] at h
      have hrest := ih h.2
      unfold insertEntry
      rw [hf]
      by_cases hx : x.pattern.paramCount ≤ p.paramCount
      · rw [if_pos hx, if_pos (show _ ≤ (Entry.new p : Entry σ).pattern.paramCount from hx),
          ← hrest]
        simp [updateEntry, h.1]
      · rw [if_neg hx, if_neg (show ¬ _ ≤ (Entry.new p : Entry σ).pattern.paramCount from hx)]
        have hxs : xs.map (fun e => if e.pattern == p then f e else e) = xs :=
          updateEntry_of_forall_ne f h.2
        simp only [updateEntry, List.map_cons, hxs]
        simp [h.1, Entry.new]

/-- The entry that is put in its place is the one of its pattern. -/
theorem find?_insertEntry (h : ∀ x ∈ entries, x.pattern ≠ e.pattern) :
    (insertEntry e entries).find? (·.pattern == e.pattern) = some e := by
  induction entries with
  | nil => simp [insertEntry]
  | cons x xs ih =>
      rw [List.forall_mem_cons] at h
      unfold insertEntry
      split
      · rw [List.find?_cons_of_neg (by simpa using h.1)]
        exact ih h.2
      · simp

/-- Nothing before the first related entry has the pattern. -/
theorem find?_of_firstRelated? (h : firstRelated? p entries = some e) (hp : e.pattern = p) :
    entries.find? (·.pattern == p) = some e := by
  rw [firstRelated?, List.find?_eq_some_iff_append] at h
  obtain ⟨-, before, after, rfl, hbefore⟩ := h
  rw [List.find?_eq_some_iff_append]
  refine ⟨by simpa using hp, before, after, rfl, fun x hx => ?_⟩
  have := hbefore x hx
  rw [Bool.not_eq_true', Bool.or_eq_false_iff] at this
  simp [this.1]

theorem Entry.has_new (p : Pattern) (m : Option Method) : (Entry.new p : Entry σ).has m = false := by
  cases m <;> rfl

end Entries

/-! ## A registration at once -/

theorem bucket_opened (r : Router σ) (n : Nat) (f : List (Entry σ) → List (Entry σ)) :
    ((r.openBucket n).adjustBucket n f).bucket n = f (r.bucket n) := by
  show valuesOf n (adjustKey n f (openKey n r.buckets)) = _
  rw [adjustKey_openKey, valuesOf_setKey_self]
  rfl

theorem buckets_opened (r : Router σ) (n : Nat) (f g : List (Entry σ) → List (Entry σ)) :
    (((r.openBucket n).adjustBucket n f).adjustBucket n g).buckets =
      setKey n (g (f (r.bucket n))) r.buckets := by
  show adjustKey n g (adjustKey n f (openKey n r.buckets)) = _
  rw [adjustKey_adjustKey, adjustKey_openKey]
  rfl

theorem buckets_adjusted {n : Nat} (h : r.bucket n ≠ []) (f : List (Entry σ) → List (Entry σ)) :
    (r.adjustBucket n f).buckets = setKey n (f (r.bucket n)) r.buckets := by
  rw [bucket_eq] at h ⊢
  rw [← adjustKey_openKey, openKey_of_valuesOf_ne_nil h]
  rfl

/-- What entering a route comes to. -/
def entered (r : Router σ) (m : Option Method) (p : Pattern) (entries : List (Entry σ)) : Router σ :=
  { r with
    buckets := setKey p.length entries r.buckets
    routes := r.routes ++ [⟨methodLabel m, p.render⟩] }

/-- One bucket is replaced and one route listed, or nothing changes. -/
theorem enter_eq (r : Router σ) (m : Option Method) (p : Pattern) (service : Service σ) :
    r.enter m p service =
      match addRoute (r.bucket p.length) m p (r.filters.chain service) with
      | .ok entries => (r.entered m p entries, .ok ())
      | .error e => (r, .error e) := by
  unfold enter openEntry addRoute
  rw [bucket_openBucket]
  cases hrelated : firstRelated? p (r.bucket p.length) with
  | none =>
      have hne := firstRelated?_eq_none hrelated
      have hfresh : (((r.openBucket p.length).adjustBucket p.length
          (insertEntry (.new p))).bucket p.length).find? (·.pattern == p) = some (.new p) := by
        rw [bucket_opened]
        exact find?_insertEntry (e := .new p) hne
      have hfilled := updateEntry_insertEntry (f := fun e => e.add m (r.filters.chain service))
        (by cases m <;> rfl) hne
      simp only [fillEntry, hfresh, Option.any_some, Entry.has_new, Bool.false_eq_true, if_false]
      refine Prod.ext ?_ rfl
      show Router.mk _ _ _ _ = Router.mk _ _ _ _
      congr 1
      rw [← hfilled]
      exact buckets_opened r p.length _ _
  | some e =>
      have hmem : r.bucket p.length ≠ [] := by
        intro hnil
        rw [hnil] at hrelated
        cases hrelated
      rw [openBucket_of_ne_nil hmem]
      by_cases hp : e.pattern = p
      · have hfind := find?_of_firstRelated? hrelated hp
        by_cases htaken : e.has m = true
        · simp [fillEntry, hfind, hp, htaken]
        · simp only [fillEntry, hfind, hp, htaken, beq_self_eq_true, Option.any_some, if_true]
          refine Prod.ext ?_ rfl
          show Router.mk _ _ _ _ = Router.mk _ _ _ _
          congr 1
          exact buckets_adjusted hmem _
      · simp [hp]

/-- A registration that is refused leaves the router as it was. -/
theorem fst_handle_of_error {method pattern : String} {service : Service σ} {e : RouteError}
    (h : (r.handle method pattern service).2 = .error e) :
    (r.handle method pattern service).1 = r := by
  unfold handle at h ⊢
  cases hm : readMethod method with
  | error e => rfl
  | ok m =>
      cases hp : Pattern.parse pattern with
      | error fault => rfl
      | ok p =>
          simp only [hm, hp, enter_eq] at h ⊢
          cases hadd : addRoute (r.bucket p.length) m p (r.filters.chain service) with
          | error e' => rfl
          | ok entries =>
              rw [hadd] at h
              cases h

theorem handle_of_error {method pattern : String} {service : Service σ} {e : RouteError}
    (h : r.register method pattern service = .error e) :
    r.handle method pattern service = (r, .error e) := by
  unfold register at h
  rcases hresult : r.handle method pattern service with ⟨next, result⟩
  rw [hresult] at h
  cases result with
  | ok u => cases h
  | error e' =>
      cases h
      have hleft := fst_handle_of_error (r := r) (congrArg Prod.snd hresult)
      rw [hresult] at hleft
      rw [← hleft]

theorem handle_of_ok {r' : Router σ} {method pattern : String} {service : Service σ}
    (h : r.register method pattern service = .ok r') :
    r.handle method pattern service = (r', .ok ()) := by
  unfold register at h
  rcases hresult : r.handle method pattern service with ⟨next, result⟩
  rw [hresult] at h
  cases result with
  | ok u =>
      cases h
      rfl
  | error e => cases h

/-- A registration told at once. -/
theorem register_eq (r : Router σ) (method pattern : String) (service : Service σ) :
    r.register method pattern service = do
      let m ← readMethod method
      let p ← (Pattern.parse pattern).mapError (.malformedPattern pattern)
      let entries ← addRoute (r.bucket p.length) m p (r.filters.chain service)
      return r.entered m p entries := by
  unfold register handle
  cases readMethod method with
  | error e => rfl
  | ok m =>
      cases Pattern.parse pattern with
      | error fault => rfl
      | ok p =>
          have hparsed : (Except.ok p).mapError (RouteError.malformedPattern pattern) = .ok p := rfl
          simp only [enter_eq, hparsed, bind, Except.bind]
          cases addRoute (r.bucket p.length) m p (r.filters.chain service) with
          | error e => rfl
          | ok entries => rfl

/-- A registration leaves the mount point and the filters as they are. -/
theorem mount_of_register {r r' : Router σ} {method pattern : String} {service : Service σ}
    (h : r.register method pattern service = .ok r') :
    r'.mount = r.mount ∧ r'.filters = r.filters := by
  rw [register_eq] at h
  cases hm : readMethod method with
  | error e => simp [hm, bind, Except.bind] at h
  | ok m =>
    cases hp : (Pattern.parse pattern).mapError (RouteError.malformedPattern pattern) with
    | error e => simp [hm, hp, bind, Except.bind] at h
    | ok p =>
      cases he : addRoute (r.bucket p.length) m p (r.filters.chain service) with
      | error e => simp [hm, hp, he, bind, Except.bind] at h
      | ok entries =>
        simp only [hm, hp, he, bind, Except.bind, pure, Except.pure, Except.ok.injEq] at h
        subst h
        exact ⟨rfl, rfl⟩

theorem registerAll_cons (r : Router σ) (route : Route σ) (rest : List (Route σ)) :
    r.registerAll (route :: rest) =
      match r.register route.method route.pattern route.service with
      | .ok next => next.registerAll rest
      | .error e => ((r.registerAll rest).1, e :: (r.registerAll rest).2) := by
  rw [registerAll]
  cases h : r.register route.method route.pattern route.service with
  | ok next => rw [handle_of_ok h]
  | error e => rw [handle_of_error h]

end Router

end AppServer.Routing
