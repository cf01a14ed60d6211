import AppServer.Proofs.Http.HeaderValue
import AppServer.Proofs.Routing.Mount
import AppServer.Proofs.Routing.Table

/-!
# What a router finds

The scan over a bucket stops at the first pattern that accepts the path and has a route for the
method. Since the entries ascend and no two are rivals, that is the one with the fewest parameters,
and the answer can be told from the table of the router alone. Where no pattern for the path has
the method, the answer names every method that one of them has.
-/

namespace AppServer.Routing

open AppServer.Http AppServer.Pipeline AppServer.Text

variable {σ : Type}

namespace Router

/-- What serves a method on a pattern. -/
def chainOf? (r : Router σ) (m : Method) (p : Pattern) : Option (Chain σ) :=
  (r.table (some m) p).or (r.table none p)

/-- What is found for the segments of a path, told by the table. -/
inductive Answers (r : Router σ) (m : Method) (parts : List String) : Match σ → Prop
  | found {p : Pattern} {c : Chain σ} (accepts : p.accepts parts = true)
      (serves : r.chainOf? m p = some c)
      (fewest : ∀ q d, q.accepts parts = true → r.chainOf? m q = some d → q ≠ p →
        p.paramCount < q.paramCount) :
      Answers r m parts (.found c (p.capture parts) p)
  | notFound (absent : ∀ p m', p.accepts parts = true → r.table m' p = none) :
      Answers r m parts .notFound
  | methodNotAllowed {allowed : List Method}
      (matched : ∃ p m', p.accepts parts = true ∧ r.table m' p ≠ none)
      (unserved : ∀ p, p.accepts parts = true → r.chainOf? m p = none)
      (nodup : allowed.Nodup)
      (methods : ∀ m', m' ∈ allowed ↔ ∃ p, p.accepts parts = true ∧ r.table (some m') p ≠ none) :
      Answers r m parts (.methodNotAllowed allowed)

/-! ## The methods that a bucket names -/

theorem collect_eq (allowed : List Method) (e : Entry σ) :
    collect allowed e = (e.methods.map Prod.fst).foldl
      (fun found m => if found.contains m then found else found ++ [m]) allowed := by
  rw [collect, List.foldl_map]

theorem mem_collect {allowed : List Method} {e : Entry σ} {m : Method} :
    m ∈ collect allowed e ↔ m ∈ allowed ∨ (e.route? (some m)).isSome = true := by
  rw [collect_eq, Entry.isSome_route?_some]
  generalize e.methods.map Prod.fst = ms
  induction ms generalizing allowed with
  | nil => simp
  | cons x xs ih =>
      rw [List.foldl_cons, ih, List.mem_cons]
      split
      · rename_i hx
        rw [List.contains_iff_mem] at hx
        constructor
        · rintro (h | h)
          · exact .inl h
          · exact .inr (.inr h)
        · rintro (h | rfl | h)
          · exact .inl h
          · exact .inl hx
          · exact .inr h
      · simp [or_assoc]

theorem nodup_collect {allowed : List Method} (e : Entry σ) (h : allowed.Nodup) :
    (collect allowed e).Nodup := by
  rw [collect_eq]
  generalize e.methods.map Prod.fst = ms
  induction ms generalizing allowed with
  | nil => exact h
  | cons x xs ih =>
      rw [List.foldl_cons]
      apply ih
      split
      · exact h
      · rename_i hx
        rw [List.contains_iff_mem] at hx
        rw [List.nodup_append_comm, List.singleton_append]
        exact List.nodup_cons.mpr ⟨hx, h⟩

theorem mem_foldl_collect {entries : List (Entry σ)} {allowed : List Method} {m : Method} :
    m ∈ entries.foldl collect allowed ↔
      m ∈ allowed ∨ ∃ e ∈ entries, (e.route? (some m)).isSome = true := by
  induction entries generalizing allowed with
  | nil => simp
  | cons e es ih => simp [ih, mem_collect, or_assoc]

theorem nodup_foldl_collect (entries : List (Entry σ)) {allowed : List Method}
    (h : allowed.Nodup) : (entries.foldl collect allowed).Nodup := by
  induction entries generalizing allowed with
  | nil => exact h
  | cons e es ih => exact ih (nodup_collect e h)

/-! ## The scan -/

/-- The scan is a search for the first entry that serves the method. -/
theorem select_eq (m : Method) (parts : List String) (allowed : List Method) (matched : Bool)
    (entries : List (Entry σ)) :
    select m parts allowed matched entries =
      match entries.findSome? fun e => (e.chainFor? m).map fun c => (e, c) with
      | some (e, c) => .found c (e.pattern.capture parts) e.pattern
      | none =>
        if matched || !entries.isEmpty then .methodNotAllowed (entries.foldl collect allowed)
        else .notFound := by
  induction entries generalizing allowed matched with
  | nil => simp [select]
  | cons e es ih =>
      rw [select, List.findSome?_cons]
      cases e.chainFor? m with
      | some c => rfl
      | none =>
          rw [ih]
          simp

/-- The entries of a router whose patterns accept a path, in the order of the scan. -/
def candidates (r : Router σ) (parts : List String) : List (Entry σ) :=
  (r.bucket parts.length).filter (·.pattern.accepts parts)

variable {r : Router σ} {m : Method} {parts : List String}

theorem mem_candidates {e : Entry σ} :
    e ∈ r.candidates parts ↔ e ∈ r.bucket parts.length ∧ e.pattern.accepts parts = true :=
  List.mem_filter

theorem WellFormed.table_of_mem_candidates (hr : r.WellFormed) {e : Entry σ}
    (he : e ∈ r.candidates parts) (m : Option Method) : r.table m e.pattern = e.route? m := by
  obtain ⟨hmem, haccepts⟩ := mem_candidates.mp he
  unfold table
  rw [Pattern.length_of_accepts haccepts]
  exact (hr _).routeIn?_of_mem hmem m

theorem WellFormed.chainOf?_of_mem_candidates (hr : r.WellFormed) {e : Entry σ}
    (he : e ∈ r.candidates parts) (m : Method) : r.chainOf? m e.pattern = e.chainFor? m := by
  rw [chainOf?, hr.table_of_mem_candidates he, hr.table_of_mem_candidates he, Entry.chainFor?_eq]

/-- A pattern for the path that has any route is that of a candidate. -/
theorem WellFormed.exists_candidate (hr : r.WellFormed) {p : Pattern} {m : Option Method}
    (haccepts : p.accepts parts = true) (h : r.table m p ≠ none) :
    ∃ e ∈ r.candidates parts, e.pattern = p := by
  obtain ⟨c, hc⟩ := Option.ne_none_iff_exists'.mp h
  obtain ⟨e, he, rfl, -⟩ := hr.table_eq_some_iff.mp hc
  rw [Pattern.length_of_accepts haccepts] at he
  exact ⟨e, mem_candidates.mpr ⟨he, haccepts⟩, rfl⟩

theorem WellFormed.exists_candidate_of_chainOf? (hr : r.WellFormed) {p : Pattern} {c : Chain σ}
    (haccepts : p.accepts parts = true) (h : r.chainOf? m p = some c) :
    ∃ e ∈ r.candidates parts, e.pattern = p := by
  rcases Option.or_eq_some_iff.mp h with h | ⟨-, h⟩
  · exact hr.exists_candidate haccepts (h ▸ Option.some_ne_none c)
  · exact hr.exists_candidate haccepts (h ▸ Option.some_ne_none c)

/-- Before a candidate stand only those with fewer parameters. -/
theorem WellFormed.pairwise_candidates (hr : r.WellFormed) (parts : List String) :
    (r.candidates parts).Pairwise fun a b => a.pattern.paramCount < b.pattern.paramCount := by
  have hb := hr parts.length
  have hboth := (hb.ascending.and hb.apart).sublist
    (List.filter_sublist (p := fun e : Entry σ => e.pattern.accepts parts))
  refine hboth.imp_of_mem fun {a b} ha hb' hab => ?_
  have hne := Pattern.paramCount_ne_of_accepts hab.2 (mem_candidates.mp ha).2
    (mem_candidates.mp hb').2
  exact Nat.lt_of_le_of_ne hab.1 hne

/-- The first candidate that serves the method is the answer: one before it would have been taken,
one behind it has more parameters. -/
theorem WellFormed.answers_hit (hr : r.WellFormed) {before after : List (Entry σ)} {e : Entry σ}
    {c : Chain σ} (hsplit : r.candidates parts = before ++ e :: after)
    (hbefore : ∀ x ∈ before, x.chainFor? m = none) (hc : e.chainFor? m = some c) :
    r.Answers m parts (.found c (e.pattern.capture parts) e.pattern) := by
  have hmem : e ∈ r.candidates parts := by simp [hsplit]
  have hlater := hr.pairwise_candidates parts
  rw [hsplit, List.pairwise_append, List.pairwise_cons] at hlater
  refine .found (mem_candidates.mp hmem).2
    ((hr.chainOf?_of_mem_candidates hmem m).trans hc) fun q d haccepts hd hq => ?_
  obtain ⟨x, hx, rfl⟩ := hr.exists_candidate_of_chainOf? haccepts hd
  rw [hr.chainOf?_of_mem_candidates hx] at hd
  rw [hsplit, List.mem_append, List.mem_cons] at hx
  rcases hx with hx | rfl | hx
  · rw [hbefore x hx] at hd
    cases hd
  · exact absurd rfl hq
  · exact hlater.2.1.1 x hx

/-- Where candidates exist and none serves the method, their methods are named. -/
theorem WellFormed.answers_unserved (hr : r.WellFormed)
    (hnone : ∀ e ∈ r.candidates parts, e.chainFor? m = none) (hne : r.candidates parts ≠ []) :
    r.Answers m parts (.methodNotAllowed ((r.candidates parts).foldl collect [])) := by
  obtain ⟨e, he⟩ := List.exists_mem_of_ne_nil _ hne
  obtain ⟨hmem, haccepts⟩ := mem_candidates.mp he
  refine .methodNotAllowed ?_ (fun p hp => ?_) (nodup_foldl_collect _ .nil) fun m' => ?_
  · obtain ⟨m', hm'⟩ := (hr _).served e hmem
    refine ⟨e.pattern, m', haccepts, ?_⟩
    rw [hr.table_of_mem_candidates he]
    exact Option.isSome_iff_ne_none.mp hm'
  · by_contra hserved
    obtain ⟨c, hc⟩ := Option.ne_none_iff_exists'.mp hserved
    obtain ⟨x, hx, rfl⟩ := hr.exists_candidate_of_chainOf? hp hc
    rw [hr.chainOf?_of_mem_candidates hx, hnone x hx] at hc
    cases hc
  · rw [mem_foldl_collect]
    constructor
    · rintro (h | ⟨x, hx, hm'⟩)
      · cases h
      · refine ⟨x.pattern, (mem_candidates.mp hx).2, ?_⟩
        rw [hr.table_of_mem_candidates hx]
        exact Option.isSome_iff_ne_none.mp hm'
    · rintro ⟨p, hp, hm'⟩
      obtain ⟨x, hx, rfl⟩ := hr.exists_candidate hp hm'
      rw [hr.table_of_mem_candidates hx] at hm'
      exact .inr ⟨x, hx, Option.isSome_iff_ne_none.mpr hm'⟩

/-- The scan finds what the table says. -/
theorem WellFormed.answers_select (hr : r.WellFormed) (m : Method) (parts : List String) :
    r.Answers m parts (select m parts [] false (r.candidates parts)) := by
  rw [select_eq]
  cases h : (r.candidates parts).findSome? fun e => (e.chainFor? m).map fun c => (e, c) with
  | some found =>
      obtain ⟨before, e, after, hsplit, hhit, hbefore⟩ := List.findSome?_eq_some_iff.mp h
      obtain ⟨c, hc, rfl⟩ := Option.map_eq_some_iff.mp hhit
      exact hr.answers_hit hsplit (by simpa using hbefore) hc
  | none =>
      have hnone : ∀ e ∈ r.candidates parts, e.chainFor? m = none := by simpa using h
      by_cases hne : r.candidates parts = []
      · rw [hne]
        refine .notFound fun p m' haccepts => ?_
        by_contra hroute
        obtain ⟨e, he, -⟩ := hr.exists_candidate haccepts hroute
        rw [hne] at he
        cases he
      · simpa [hne] using hr.answers_unserved hnone hne

theorem covers_iff {path : String} : r.covers path = true ↔ ∃ rest, Under r.mount path rest := by
  rw [covers, Option.isSome_iff_exists]
  simp only [stripMount?_eq_some_iff]

theorem lookup_of_under {path rest : String} (h : Under r.mount path rest) (m : Method) :
    r.lookup m path = select m (segments rest) [] false (r.candidates (segments rest)) := by
  rw [lookup, stripMount?_eq_some_iff.mpr h]
  rfl

theorem lookup_of_not_under {path : String} (h : ∀ rest, ¬ Under r.mount path rest)
    (m : Method) : r.lookup m path = .notFound := by
  have hnone : stripMount? r.mount path = none := by
    rw [Option.eq_none_iff_forall_ne_some]
    exact fun rest hrest => h rest (stripMount?_eq_some_iff.mp hrest)
  rw [lookup, hnone]

theorem WellFormed.answers_lookup (hr : r.WellFormed) {path rest : String}
    (h : Under r.mount path rest) (m : Method) :
    r.Answers m (segments rest) (r.lookup m path) := by
  rw [lookup_of_under h]
  exact hr.answers_select m _

end Router

end AppServer.Routing
