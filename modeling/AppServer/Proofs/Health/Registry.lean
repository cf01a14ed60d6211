import AppServer.Health.Registry
import AppServer.Proofs.Data.Sorted

/-!
# Checks registered one after the other

A registry is the result of registrations in some order, in which a name may occur any number of
times. It lists every name once, in the order of their first occurrences, and holds the check that was
registered last under each. A run calls these checks one after the other, in the order of the names.
-/

namespace AppServer

open Data Pipeline

variable {σ : Type}

namespace HealthRegistry

/-- The registry after some registrations. -/
def ofList (regs : List (String × Act σ HealthStatus)) : HealthRegistry σ :=
  regs.foldl (fun r (name, check) => r.register name check) .empty

theorem ofList_append_singleton (regs : List (String × Act σ HealthStatus)) (name : String)
    (check : Act σ HealthStatus) :
    ofList (regs ++ [(name, check)]) = (ofList regs).register name check := by
  unfold ofList
  rw [List.foldl_append]
  rfl

/-! ## What is registered -/

/-- A registry lists every name where it first occurs. -/
theorem names_ofList (regs : List (String × Act σ HealthStatus)) :
    (ofList regs).names = (regs.map Prod.fst).eraseDups := by
  induction regs using List.reverseRecOn with
  | nil => rfl
  | append_singleton regs reg ih =>
      obtain ⟨name, check⟩ := reg
      rw [ofList_append_singleton, names_register, ih, List.map_append, List.eraseDups_append]
      by_cases hmem : name ∈ regs.map Prod.fst
      · have hremoved : [name].removeAll (regs.map Prod.fst) = [] := by
          simp [List.removeAll, hmem]
        rw [if_pos (List.mem_eraseDups.mpr hmem), List.map_singleton, hremoved,
          List.eraseDups_nil, List.append_nil]
      · have hkept : [name].removeAll (regs.map Prod.fst) = [name] := by
          simp [List.removeAll, hmem]
        rw [if_neg (mt List.mem_eraseDups.mp hmem), List.map_singleton, hkept]
        rfl

theorem nodup_names_ofList (regs : List (String × Act σ HealthStatus)) :
    (ofList regs).names.Nodup := by
  induction regs using List.reverseRecOn with
  | nil => exact List.nodup_nil
  | append_singleton regs reg ih =>
      obtain ⟨name, check⟩ := reg
      rw [ofList_append_singleton, names_register]
      split
      · exact ih
      · rename_i hfresh
        rw [← List.concat_eq_append]
        exact ih.concat hfresh

theorem mem_names_ofList {regs : List (String × Act σ HealthStatus)} {name : String} :
    name ∈ (ofList regs).names ↔ name ∈ regs.map Prod.fst := by
  rw [names_ofList, List.mem_eraseDups]

/-- A check that is placed takes the place of the one with its name. -/
theorem mem_place {c x : HealthCheck σ} {cs : List (HealthCheck σ)}
    (hnames : (cs.map (·.name)).Nodup) (h : x ∈ place c cs) :
    x = c ∨ x ∈ cs ∧ x.name ≠ c.name := by
  induction cs with
  | nil => exact .inl (List.mem_singleton.mp h)
  | cons old rest ih =>
      obtain ⟨hfresh, hrest⟩ := List.nodup_cons.mp hnames
      unfold place at h
      by_cases hold : old.name = c.name
      · rw [if_pos hold] at h
        rcases List.mem_cons.mp h with rfl | hx
        · exact .inl rfl
        · refine .inr ⟨List.mem_cons_of_mem _ hx, ?_⟩
          intro hsame
          exact hfresh (List.mem_map.mpr ⟨x, hx, hsame.trans hold.symm⟩)
      · rw [if_neg hold] at h
        rcases List.mem_cons.mp h with rfl | hx
        · exact .inr ⟨List.mem_cons_self, hold⟩
        · rcases ih hrest hx with rfl | ⟨hmem, hne⟩
          · exact .inl rfl
          · exact .inr ⟨List.mem_cons_of_mem _ hmem, hne⟩

/-- A check that is held is the last one registered under its name. -/
theorem last_of_mem {regs : List (String × Act σ HealthStatus)} {c : HealthCheck σ}
    (h : c ∈ (ofList regs).checks) : lookup? c.name regs.reverse = some c.run := by
  induction regs using List.reverseRecOn with
  | nil => cases h
  | append_singleton regs reg ih =>
      obtain ⟨name, check⟩ := reg
      rw [ofList_append_singleton] at h
      rw [List.reverse_append, List.reverse_singleton, List.singleton_append, lookup?_cons]
      rcases mem_place (nodup_names_ofList regs) h with rfl | ⟨hmem, hne⟩
      · exact if_pos rfl
      · rw [if_neg (Ne.symm hne)]
        exact ih hmem

theorem isEmpty_ofList {regs : List (String × Act σ HealthStatus)} :
    (ofList regs).isEmpty = true ↔ regs = [] := by
  have hchecks : (ofList regs).isEmpty = true ↔ (ofList regs).names = [] := by
    rw [isEmpty, List.isEmpty_iff, names, List.map_eq_nil_iff]
  rw [hchecks]
  constructor
  · intro hnil
    cases regs with
    | nil => rfl
    | cons reg rest =>
        have hmem : reg.1 ∈ (ofList (reg :: rest)).names :=
          mem_names_ofList.mpr List.mem_cons_self
        rw [hnil] at hmem
        cases hmem
  · rintro rfl
    rfl

/-! ## What is called -/

/-- The world after it has been noted what a check found. -/
def noted (name : String) (status : HealthStatus) (w : World σ) : World σ :=
  match status.reason? with
  | some reason => { w with log := w.log ++ [.checkNotHealthy name reason] }
  | none => w

/-- `Runs regs names w results w'`: for each of the names in turn, the last check registered under it
is called, once, in the world that the calls before it have left. -/
inductive Runs (regs : List (String × Act σ HealthStatus)) :
    List String → World σ → List (String × HealthStatus) → World σ → Prop
  | nil {w : World σ} : Runs regs [] w [] w
  | call {name : String} {check : Act σ HealthStatus} {status : HealthStatus}
      {names : List String} {results : List (String × HealthStatus)} {w called w' : World σ}
      (last : lookup? name regs.reverse = some check) (calls : check.runIn w = (.ok status, called))
      (rest : Runs regs names (noted name status called) results w') :
      Runs regs (name :: names) w ((name, status) :: results) w'

variable {regs : List (String × Act σ HealthStatus)} {names : List String}
  {results : List (String × HealthStatus)} {w w' : World σ}

theorem Runs.names_eq (h : Runs regs names w results w') : results.map Prod.fst = names := by
  induction h with
  | nil => rfl
  | call _ _ _ ih => rw [List.map_cons, ih]

/-- Nothing about a run is left open. -/
theorem Runs.unique {results' : List (String × HealthStatus)} {v : World σ}
    (h : Runs regs names w results w') (h' : Runs regs names w results' v) :
    results = results' ∧ w' = v := by
  induction h generalizing results' with
  | nil =>
      cases h'
      exact ⟨rfl, rfl⟩
  | call last calls _ ih =>
      cases h' with
      | call last' calls' rest' =>
          obtain rfl := Option.some.inj (last.symm.trans last')
          obtain ⟨hstatus, rfl⟩ := Prod.mk.inj (calls.symm.trans calls')
          obtain rfl := Except.ok.inj hstatus
          obtain ⟨rfl, rfl⟩ := ih rest'
          exact ⟨rfl, rfl⟩

/-- Checks that do not panic are all called. -/
theorem exists_runs (hcalm : ∀ reg ∈ regs, ∀ w, ∃ status w', reg.2.runIn w = (.ok status, w'))
    (hnames : ∀ name ∈ names, name ∈ regs.map Prod.fst) (w : World σ) :
    ∃ results w', Runs regs names w results w' := by
  induction names generalizing w with
  | nil => exact ⟨[], w, .nil⟩
  | cons name names ih =>
      obtain ⟨hname, hrest⟩ := List.forall_mem_cons.mp hnames
      have hregistered : name ∈ regs.reverse.map Prod.fst := by
        rw [List.map_reverse]
        exact List.mem_reverse.mpr hname
      obtain ⟨check, hlast⟩ := exists_lookup? hregistered
      obtain ⟨status, called, hcalls⟩ :=
        hcalm (name, check) (List.mem_reverse.mp (mem_of_lookup? hlast)) w
      obtain ⟨results, w', hruns⟩ := ih hrest (noted name status called)
      exact ⟨(name, status) :: results, w', .call hlast hcalls hruns⟩

/-- Running the checks of a registry is calling them by their names. -/
theorem Runs.runFrom_eq {cs : List (HealthCheck σ)}
    (hlast : ∀ c ∈ cs, lookup? c.name regs.reverse = some c.run)
    (h : Runs regs (cs.map (·.name)) w results w') (report : HealthReport) :
    (runFrom report cs).runIn w =
      (.ok (results.foldl (fun r (name, status) => r.insert name status) report), w') := by
  induction cs generalizing w results report with
  | nil =>
      cases h
      rfl
  | cons c cs ih =>
      obtain ⟨hc, hcs⟩ := List.forall_mem_cons.mp hlast
      cases h with
      | @call _ check status _ results _ called _ last calls rest =>
          obtain rfl : c.run = check := Option.some.inj (hc.symm.trans last)
          have hrest := ih hcs rest (report.insert c.name status)
          rw [runFrom, Act.runIn_bind, calls]
          cases hreason : status.reason? with
          | none =>
              rw [noted, hreason] at hrest
              simp only [hreason]
              exact hrest
          | some reason =>
              rw [noted, hreason] at hrest
              simp only [hreason, Act.runIn_bind, Act.runIn_log]
              exact hrest

end HealthRegistry

end AppServer
