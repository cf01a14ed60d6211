import AppServer.Proofs.Routing.Grammar
import AppServer.Proofs.Routing.Mount
import AppServer.Proofs.Routing.Table
import Mathlib.Data.List.Perm.Basic

/-!
# What a router lists

The table of a router is a list of entries for each length of pattern. The entries of one length have
different patterns of that length, in ascending order of their parameters, no two of which fit one path
with equally many parameters; each has a route, and no method twice. Taken together the entries hold
every route that the router lists, once. All of this holds of a router without routes and is kept by
every registration that is accepted; one that is refused leaves the router as it is.
-/

namespace AppServer.Routing

open AppServer.Http AppServer.Pipeline AppServer.Text

variable {σ : Type}

/-! ## Registrations that have been read -/

namespace Router

theorem readMethod_eq_ok_iff {name : String} {m : Option Method} :
    readMethod name = .ok m ↔
      methodLabel m = name ∧ ∀ x, m = some x → x.name ≠ anyMethod := by
  unfold readMethod
  by_cases hany : name = anyMethod
  · rw [if_pos hany, Except.ok.injEq]
    constructor
    · rintro rfl
      exact ⟨hany.symm, fun x hx => nomatch hx⟩
    · rintro ⟨hlabel, hname⟩
      cases m with
      | none => rfl
      | some x => exact absurd (hlabel.trans hany) (hname x rfl)
  · rw [if_neg hany]
    cases hname : Method.ofName? name with
    | none =>
        constructor
        · intro h
          cases h
        · rintro ⟨hlabel, -⟩
          cases m with
          | none => exact absurd hlabel.symm hany
          | some x =>
              rw [Method.ofName?_eq_some_iff.mpr hlabel] at hname
              cases hname
    | some x =>
        obtain rfl := Method.ofName?_eq_some_iff.mp hname
        simp only [Except.ok.injEq]
        constructor
        · rintro rfl
          exact ⟨rfl, fun y hy => Option.some.inj hy ▸ hany⟩
        · rintro ⟨hlabel, -⟩
          cases m with
          | none => exact absurd hlabel.symm hany
          | some y => rw [← hname, ← hlabel, methodLabel, Method.ofName?_name]

theorem readMethod_eq_error_iff {name : String} {e : RouteError} :
    readMethod name = .error e ↔
      e = .invalidMethod name ∧ name ≠ anyMethod ∧ isToken name = false := by
  unfold readMethod
  by_cases hany : name = anyMethod
  · simp [hany]
  · rw [if_neg hany, ← Method.ofName?_eq_none_iff]
    cases Method.ofName? name with
    | none => simp [hany, eq_comm]
    | some x => simp

theorem exists_readMethod_iff {name : String} :
    (∃ m, readMethod name = .ok m) ↔ name = anyMethod ∨ isToken name = true := by
  cases h : readMethod name with
  | error e =>
      obtain ⟨-, hany, htoken⟩ := readMethod_eq_error_iff.mp h
      simp [hany, htoken]
  | ok m =>
      refine iff_of_true ⟨m, rfl⟩ ?_
      by_contra hbad
      rw [not_or, Bool.not_eq_true] at hbad
      rw [readMethod_eq_error_iff.mpr ⟨rfl, hbad⟩] at h
      cases h

end Router

open Router (methodLabel readMethod)

theorem Route.read_eq_ok_iff {route : Route σ} {reg : Registration σ} :
    route.read = .ok reg ↔
      readMethod route.method = .ok reg.method ∧ Pattern.parse route.pattern = .ok reg.pattern ∧
        route.service = reg.service := by
  unfold Route.read
  cases readMethod route.method with
  | error e => simp [bind, Except.bind]
  | ok m =>
      cases Pattern.parse route.pattern with
      | error e => simp [bind, Except.bind, Except.mapError]
      | ok p =>
          obtain ⟨m', p', service⟩ := reg
          simp [bind, Except.bind, Except.mapError, pure, Except.pure]

namespace Registration

/-- A registration that some route stands for. -/
structure IsRead (reg : Registration σ) : Prop where
  pattern : reg.pattern.IsRead
  method : ∀ m, reg.method = some m → m.name ≠ anyMethod

theorem isRead_of_read {route : Route σ} {reg : Registration σ} (h : route.read = .ok reg) :
    reg.IsRead := by
  obtain ⟨hmethod, hpattern, -⟩ := Route.read_eq_ok_iff.mp h
  exact ⟨Pattern.isRead_of_parse hpattern, (Router.readMethod_eq_ok_iff.mp hmethod).2⟩

/-- A registration as it is listed. -/
def info (reg : Registration σ) : RouteInfo :=
  ⟨methodLabel reg.method, reg.pattern.render⟩

theorem methodLabel_of_read {route : Route σ} {reg : Registration σ} (h : route.read = .ok reg) :
    methodLabel reg.method = route.method :=
  (Router.readMethod_eq_ok_iff.mp (Route.read_eq_ok_iff.mp h).1).1

/-- Only registrations for one method of one pattern are listed alike. -/
theorem IsRead.eq_of_info {a b : Registration σ} (ha : a.IsRead) (hb : b.IsRead)
    (h : a.info = b.info) : a.pattern = b.pattern ∧ a.method = b.method := by
  obtain ⟨hlabel, hrender⟩ := RouteInfo.mk.inj h
  refine ⟨ha.pattern.eq_of_render hb.pattern hrender, ?_⟩
  have hmethod := Router.readMethod_eq_ok_iff.mpr ⟨hlabel, ha.method⟩
  rw [Router.readMethod_eq_ok_iff.mpr ⟨rfl, hb.method⟩] at hmethod
  exact (Except.ok.inj hmethod).symm

end Registration

/-! ## The routes of the entries -/

/-- The routes of an entry as they are listed. -/
def Entry.infos (e : Entry σ) : List RouteInfo :=
  e.any.toList.map (fun _ => ⟨anyMethod, e.pattern.render⟩) ++
    e.methods.map fun (m, _) => ⟨m.name, e.pattern.render⟩

theorem Entry.infos_add {e : Entry σ} {m : Option Method} (h : e.route? m = none) (c : Chain σ) :
    (e.add m c).infos.Perm (e.infos ++ [⟨methodLabel m, e.pattern.render⟩]) := by
  cases m with
  | none =>
      have hany : e.any = none := h
      have hadded : (e.add none c).infos =
          ⟨anyMethod, e.pattern.render⟩ :: e.methods.map fun (m, _) => ⟨m.name, e.pattern.render⟩ :=
        rfl
      have hinfos : e.infos = e.methods.map fun (m, _) => ⟨m.name, e.pattern.render⟩ := by
        rw [infos, hany]
        rfl
      rw [hadded, hinfos]
      exact (List.perm_append_singleton _ _).symm
  | some m =>
      have hadded : (e.add (some m) c).infos = e.infos ++ [⟨m.name, e.pattern.render⟩] := by
        simp [infos, add]
      rw [hadded]
      rfl

namespace Router

theorem updateEntry_eq_self {p : Pattern} {f : Entry σ → Entry σ} {entries : List (Entry σ)}
    (h : ∀ x ∈ entries, x.pattern ≠ p) : updateEntry p f entries = entries := by
  have hid : ∀ x ∈ entries, (if x.pattern == p then f x else x) = id x := by
    intro x hx
    rw [if_neg (by simpa using h x hx)]
    rfl
  rw [updateEntry, List.map_congr_left hid, List.map_id]

/-- In a bucket only one entry has its pattern. -/
theorem updateEntry_append_cons {n : Nat} {before after : List (Entry σ)} {e : Entry σ}
    (hb : Bucket n (before ++ e :: after)) (f : Entry σ → Entry σ) :
    updateEntry e.pattern f (before ++ e :: after) = before ++ f e :: after := by
  have hapart := hb.apart
  rw [List.pairwise_append, List.pairwise_cons] at hapart
  have hbefore : updateEntry e.pattern f before = before :=
    updateEntry_eq_self fun x hx heq => hapart.2.2 x hx e List.mem_cons_self (heq ▸ .refl _)
  have hafter : updateEntry e.pattern f after = after :=
    updateEntry_eq_self fun x hx heq => hapart.2.1.1 x hx (heq ▸ .refl _)
  unfold updateEntry at hbefore hafter ⊢
  rw [List.map_append, List.map_cons, hbefore, hafter, if_pos (beq_self_eq_true _)]

/-- Adding a route adds it to what the entries hold. -/
theorem perm_infos_addRoute {n : Nat} {entries entries' : List (Entry σ)} {m : Option Method}
    {p : Pattern} {c : Chain σ} (hb : Bucket n entries)
    (h : addRoute entries m p c = .ok entries') :
    (entries'.flatMap Entry.infos).Perm
      (entries.flatMap Entry.infos ++ [⟨methodLabel m, p.render⟩]) := by
  rcases addRoute_cases entries m p c with ⟨e, -, -, -, he⟩ | ⟨e, hmem, rfl, hm, he⟩ |
    ⟨e, -, -, -, he⟩ | ⟨hfree, he⟩
  · rw [he] at h
    cases h
  · rw [he] at h
    cases h
    obtain ⟨before, after, rfl⟩ := List.append_of_mem hmem
    rw [updateEntry_append_cons hb]
    simp only [List.flatMap_append, List.flatMap_cons, List.append_assoc]
    refine List.Perm.append_left _ (((Entry.infos_add hm c).append_right _).trans ?_)
    rw [List.append_assoc]
    exact List.perm_append_comm.append_left _
  · rw [he] at h
    cases h
  · rw [he] at h
    cases h
    have hnew : ((Entry.new p).add m c).infos.Perm [⟨methodLabel m, p.render⟩] :=
      Entry.infos_add (Entry.route?_new p m) c
    refine ((insertEntry_perm _ entries).flatMap_right Entry.infos).trans ?_
    rw [List.flatMap_cons]
    exact (hnew.append_right _).trans List.perm_append_comm

theorem mem_keys_setKey {β : Type} {n k : Nat} {v : β} {l : List (Nat × β)} :
    k ∈ (setKey n v l).map Prod.fst ↔ k = n ∨ k ∈ l.map Prod.fst := by
  induction l with
  | nil => simp [setKey]
  | cons x xs ih =>
      obtain ⟨i, old⟩ := x
      unfold setKey
      by_cases hin : i = n
      · simp [hin]
      · rw [if_neg hin, List.map_cons, List.mem_cons, ih, List.map_cons, List.mem_cons]
        exact or_left_comm

theorem nodup_keys_setKey {β : Type} {n : Nat} {v : β} {l : List (Nat × β)}
    (h : (l.map Prod.fst).Nodup) : ((setKey n v l).map Prod.fst).Nodup := by
  induction l with
  | nil => simp [setKey]
  | cons x xs ih =>
      obtain ⟨i, old⟩ := x
      obtain ⟨hfresh, hrest⟩ := List.nodup_cons.mp h
      unfold setKey
      by_cases hin : i = n
      · rw [if_pos hin, List.map_cons, List.nodup_cons]
        exact ⟨hin ▸ hfresh, hrest⟩
      · rw [if_neg hin, List.map_cons, List.nodup_cons, mem_keys_setKey, not_or]
        exact ⟨⟨hin, hfresh⟩, ih hrest⟩

/-- Replacing the value of a key by one that holds more adds that to what all values hold. -/
theorem perm_flatMap_setKey {β γ : Type} (f : β → List γ) {n : Nat} {v d : β} {more : List γ}
    {l : List (Nat × β)} (hd : f d = [])
    (h : (f v).Perm (f (((l.find? (·.1 == n)).map (·.2)).getD d) ++ more)) :
    ((setKey n v l).flatMap fun x => f x.2).Perm ((l.flatMap fun x => f x.2) ++ more) := by
  induction l with
  | nil => simpa [setKey, hd] using h
  | cons x xs ih =>
      obtain ⟨i, old⟩ := x
      unfold setKey
      by_cases hin : i = n
      · have hold : (f v).Perm (f old ++ more) := by simpa [hin] using h
        rw [if_pos hin, List.flatMap_cons, List.flatMap_cons, List.append_assoc]
        refine (hold.append_right _).trans ?_
        rw [List.append_assoc]
        exact List.perm_append_comm.append_left _
      · have hne : (i == n) = false := by simpa using hin
        rw [List.find?_cons, hne] at h
        rw [if_neg hin, List.flatMap_cons, List.flatMap_cons, List.append_assoc]
        exact (ih h).append_left _

/-- All routes that the entries of a router hold, as they are listed. -/
def listing (r : Router σ) : List RouteInfo :=
  r.buckets.flatMap fun (_, entries) => entries.flatMap Entry.infos

/-! ## Every router that can be reached -/

/-- `r` holds exactly the routes of `regs`, which it lists in their order. -/
structure Lists (r : Router σ) (regs : List (Registration σ)) : Prop extends r.Holds regs where
  keys : (r.buckets.map Prod.fst).Nodup
  routes : r.routes = regs.map Registration.info
  listing : r.listing.Perm r.routes
  apart : regs.Pairwise fun a b => ¬ a.Clashes b
  read : ∀ reg ∈ regs, reg.IsRead

theorem lists_withFilters (mount : String) (filters : FilterStack σ) :
    (withFilters mount filters).Lists [] where
  toHolds := holds_withFilters mount filters
  keys := .nil
  routes := rfl
  listing := .refl _
  apart := .nil
  read := by simp

namespace Lists

variable {r r' : Router σ} {regs : List (Registration σ)}

/-- An accepted registration is listed behind the others. -/
theorem register (hr : r.Lists regs) {route : Route σ} {reg : Registration σ}
    (hread : route.read = .ok reg)
    (h : r.register route.method route.pattern route.service = .ok r') :
    r'.Lists (regs ++ [reg]) := by
  obtain ⟨reg', hreg', hfree⟩ := hr.register_eq_ok_iff.mp ⟨r', h⟩
  rw [hread, Except.ok.injEq] at hreg'
  subst hreg'
  have hholds := hr.toHolds.register hread h
  obtain ⟨reg', entries, hreg', hadd, rfl⟩ := read_of_register h
  rw [hread, Except.ok.injEq] at hreg'
  subst hreg'
  have hroutes : (r.place reg entries).routes = r.routes ++ [reg.info] := rfl
  refine ⟨hholds, nodup_keys_setKey hr.keys, ?_, ?_, ?_, ?_⟩
  · rw [hroutes, hr.routes, List.map_append]
    rfl
  · have hentries := perm_infos_addRoute (hr.wellFormed _) hadd
    rw [hroutes]
    exact (perm_flatMap_setKey (List.flatMap Entry.infos) rfl hentries).trans
      (hr.listing.append_right _)
  · rw [List.pairwise_append]
    refine ⟨hr.apart, List.pairwise_singleton _ _, fun old hold new hnew => ?_⟩
    rw [List.mem_singleton.mp hnew]
    exact hfree old hold
  · intro x hx
    rcases List.mem_append.mp hx with hx | hx
    · exact hr.read x hx
    · rw [List.mem_singleton.mp hx]
      exact Registration.isRead_of_read hread

theorem registerAll (hr : r.Lists regs) (routes : List (Route σ)) :
    (r.registerAll routes).1.Lists (regs ++ r.accepted routes) := by
  induction routes generalizing r regs with
  | nil => simpa [Router.registerAll, accepted] using hr
  | cons route rest ih =>
      cases h : r.register route.method route.pattern route.service with
      | error e =>
          have := ih hr
          simpa [Router.registerAll_cons, accepted, h] using this
      | ok next =>
          obtain ⟨reg, -, hread, -, -⟩ := read_of_register h
          have := ih (hr.register hread h)
          simpa [Router.registerAll_cons, accepted, h, hread] using this

/-- No route is listed twice. -/
theorem nodup_routes (hr : r.Lists regs) : r.routes.Nodup := by
  rw [hr.routes, List.Nodup, List.pairwise_map]
  refine hr.apart.imp_of_mem fun {a b} ha hb hclash heq => hclash (.inl ?_)
  exact (hr.read a ha).eq_of_info (hr.read b hb) heq

theorem bucket_eq_of_mem (hr : r.Lists regs) {n : Nat} {entries : List (Entry σ)}
    (h : (n, entries) ∈ r.buckets) : r.bucket n = entries := by
  have hkeys := hr.keys
  obtain ⟨before, after, hsplit⟩ := List.append_of_mem h
  rw [hsplit, List.map_append, List.nodup_append] at hkeys
  have hnone : before.find? (·.1 == n) = none := by
    rw [List.find?_eq_none]
    intro x hx heq
    obtain rfl : x.1 = n := by simpa using heq
    exact hkeys.2.2 _ (List.mem_map_of_mem hx) _ List.mem_cons_self rfl
  rw [bucket, hsplit, List.find?_append, hnone]
  simp

theorem bucket_of_mem (hr : r.Lists regs) {n : Nat} {entries : List (Entry σ)}
    (h : (n, entries) ∈ r.buckets) : Bucket n entries :=
  hr.bucket_eq_of_mem h ▸ hr.wellFormed n

/-- A stored method is never written like the mark for every method. -/
theorem name_ne_anyMethod (hr : r.Lists regs) {n : Nat} {entries : List (Entry σ)} {e : Entry σ}
    (h : (n, entries) ∈ r.buckets) (he : e ∈ entries) {m : Method}
    (hm : m ∈ e.methods.map Prod.fst) : m.name ≠ anyMethod := by
  obtain ⟨c, hc⟩ := Option.isSome_iff_exists.mp (Entry.isSome_route?_some.mpr hm)
  have hmem : e ∈ r.bucket e.pattern.length := by
    rw [(hr.bucket_of_mem h).length e he, hr.bucket_eq_of_mem h]
    exact he
  obtain ⟨reg, hreg, hmethod, -⟩ :=
    hr.table.mp (hr.wellFormed.table_eq_some_iff.mpr ⟨e, hmem, rfl, hc⟩)
  exact (hr.read reg hreg).method m hmethod

/-- Of two registered patterns for one path, one has fewer parameters. -/
theorem eq_of_accepts (hr : r.Lists regs) {a b : Registration σ} (ha : a ∈ regs) (hb : b ∈ regs)
    {parts : List String} (hcount : a.pattern.paramCount = b.pattern.paramCount)
    (hap : a.pattern.accepts parts = true) (hbp : b.pattern.accepts parts = true) :
    a.pattern = b.pattern := by
  by_contra hne
  have hsymm : Std.Symm fun a b : Registration σ => ¬ a.Clashes b :=
    ⟨fun _ _ hab hba => hab hba.symm⟩
  have hdiff : a ≠ b := fun heq => hne (heq ▸ rfl)
  have hrivals : a.pattern.Rivals b.pattern := ⟨hcount, Pattern.overlaps_of_accepts hap hbp⟩
  exact hr.apart.forall ha hb hdiff (.inr ⟨hne, hrivals⟩)

end Lists

theorem lists_registerAll (mount : String) (filters : FilterStack σ) (routes : List (Route σ)) :
    ((withFilters mount filters).registerAll routes).1.Lists
      ((withFilters mount filters).accepted routes) := by
  simpa using (lists_withFilters mount filters).registerAll routes

/-- After any routes have been tried, the table is in order and holds the routes that are listed. -/
theorem buckets_hold_routes (mount : String) (filters : FilterStack σ) (routes : List (Route σ)) :
    let fresh := withFilters mount filters
    let r := (fresh.registerAll routes).1
    let regs := fresh.accepted routes
    (r.buckets.map Prod.fst).Nodup ∧
    (∀ n entries, (n, entries) ∈ r.buckets →
      (∀ e ∈ entries, e.pattern.length = n) ∧
      (entries.Pairwise fun a b => a.pattern.paramCount ≤ b.pattern.paramCount) ∧
      (entries.map (·.pattern)).Nodup ∧
      (entries.Pairwise fun a b => a.pattern.paramCount = b.pattern.paramCount →
        ∀ parts, ¬ (a.pattern.accepts parts = true ∧ b.pattern.accepts parts = true)) ∧
      ∀ e ∈ entries, (e.any ≠ none ∨ e.methods ≠ []) ∧ (e.methods.map Prod.fst).Nodup ∧
        ∀ m ∈ e.methods.map Prod.fst, m.name ≠ anyMethod) ∧
    r.listing.Perm r.routes ∧ r.routes.Nodup ∧ r.routes = regs.map Registration.info ∧
    ∀ a ∈ regs, ∀ b ∈ regs, a.pattern.paramCount = b.pattern.paramCount →
      ∀ path rest, Under (normalizeMount mount) path rest →
        a.pattern.accepts (segments rest) = true → b.pattern.accepts (segments rest) = true →
          a.pattern = b.pattern := by
  intro fresh r regs
  have hr : r.Lists regs := lists_registerAll mount filters routes
  refine ⟨hr.keys, fun n entries h => ?_, hr.listing, hr.nodup_routes, hr.routes, ?_⟩
  · have hb := hr.bucket_of_mem h
    refine ⟨hb.length, hb.ascending, ?_, ?_, fun e he => ⟨?_, hb.once e he, ?_⟩⟩
    · rw [List.Nodup, List.pairwise_map]
      refine hb.apart.imp fun {a b} hab => ?_
      intro heq
      exact hab (heq ▸ .refl _)
    · refine hb.apart.imp fun {a b} hab hcount parts hboth => hab ?_
      exact ⟨hcount, Pattern.overlaps_of_accepts hboth.1 hboth.2⟩
    · obtain ⟨m, hm⟩ := hb.served e he
      cases m with
      | none => exact .inl (Option.isSome_iff_ne_none.mp hm)
      | some m =>
          have hmem := Entry.isSome_route?_some.mp hm
          exact .inr fun hnil => by simp [hnil] at hmem
    · exact fun m hm => hr.name_ne_anyMethod h he hm
  · intro a ha b hb hcount path rest _ hap hbp
    exact hr.eq_of_accepts ha hb hcount hap hbp

end Router

end AppServer.Routing
