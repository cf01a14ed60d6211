import AppServer.Pipeline.Recovery
import AppServer.Proofs.Pipeline.Tally

/-!
# What a recovery filter makes of a panic

A recovery filter passes on what the rest of its chain does, and puts the fixed response and one
event in the place of a panic. Dropping what the panic carried may be another panic, which then leaves
the filter instead. To count the panics that reach recovery filters anywhere in a chain, a filter is
placed just inside each of them that notes every panic on its way out. Whatever else stands in the
chain, there is then one event for every note, as long as the other filters and the terminal service
write neither notes nor events of recovery themselves.
-/

namespace AppServer.Pipeline

open AppServer.Http

variable {σ α β : Type}

/-- The event of a panic that was recovered. -/
def panicEvent (req : Request) (p : Payload) : Event :=
  .panicRecovered req.method.name req.uri.path p.message

/-- What comes of a panic that is recovered: the fixed response, unless dropping what the panic carried
panics. -/
def aftermath (p : Payload) : Except Payload Response :=
  match p.dropped with
  | some next => .error next
  | none => .ok recoveryResponse

/-- A run as it leaves a recovery filter. -/
def recovered (req : Request) : Except Payload Response × World σ → Except Payload Response × World σ
  | (.ok response, w) => (.ok response, w)
  | (.error p, w) => (aftermath p, { w with log := w.log ++ [panicEvent req p] })

theorem aftermath_of_quiet {p : Payload} (h : p.dropped = none) :
    aftermath p = .ok recoveryResponse := by
  rw [aftermath, h]

@[simp] theorem aftermath_text (s : String) : aftermath (.text s) = .ok recoveryResponse := rfl

theorem aftermath_eq_ok_iff {p : Payload} {response : Response} :
    aftermath p = .ok response ↔ p.dropped = none ∧ response = recoveryResponse := by
  unfold aftermath
  cases p.dropped with
  | none => simp [eq_comm]
  | some next => simp

theorem aftermath_eq_error_iff {p next : Payload} :
    aftermath p = .error next ↔ p.dropped = some next := by
  unfold aftermath
  cases p.dropped with
  | none => simp
  | some raised => simp

/-! ## One recovery filter -/

theorem runIn_recover (req : Request) (p : Payload) (w : World σ) :
    (recover req p).runIn w = (aftermath p, { w with log := w.log ++ [panicEvent req p] }) := by
  rw [recover, Act.runIn_bind, Act.runIn_log]
  dsimp only
  rw [Act.runIn_bind, Act.runIn_discard, aftermath]
  cases p.dropped <;> rfl

theorem runIn_settle (req : Request) (pending : Pending σ) (w : World σ) :
    (settle req pending).runIn w = recovered req (pending.runIn w) := by
  rw [settle, Act.runIn_bind, Act.runIn_attempt]
  rcases pending.runIn w with ⟨r, w'⟩
  cases r with
  | ok response => rfl
  | error p => exact runIn_recover req p w'

/-- The first stage. A panic is dealt with there and then. -/
theorem runIn_recoveryFilter (next : Service σ) (req : Request) (w : World σ) :
    (recoveryFilter.around next req).runIn w =
      match (next req).runIn w with
      | (.ok pending, w') => (.ok (settle req pending), w')
      | (.error p, w') =>
        ((aftermath p).map fun response => (pure response : Act σ Response),
          { w' with log := w'.log ++ [panicEvent req p] }) := by
  show (Act.attempt (next req) >>= _).runIn w = _
  rw [Act.runIn_bind, Act.runIn_attempt]
  rcases (next req).runIn w with ⟨r, w'⟩
  cases r with
  | ok pending => rfl
  | error p =>
      show (recover req p >>= fun response => pure (pure response)).runIn w' = _
      rw [Act.runIn_bind, runIn_recover]
      dsimp only
      cases aftermath p <;> rfl

/-- Both stages. It does not matter in which of them the rest of the chain panics. -/
theorem runIn_run_recoveryFilter (next : Service σ) (req : Request) (w : World σ) :
    ((recoveryFilter.around next).run req).runIn w = recovered req ((next.run req).runIn w) := by
  rw [Service.run, Service.run, Act.runIn_bind, Act.runIn_bind, runIn_recoveryFilter]
  rcases (next req).runIn w with ⟨r, w'⟩
  cases r with
  | ok pending => exact runIn_settle req pending w'
  | error p =>
      dsimp only [recovered]
      cases aftermath p <;> rfl

/-- There is a response unless a panic came with what cannot be dropped quietly. -/
theorem recovered_fst_iff (req : Request) (run : Except Payload Response × World σ) :
    (∃ response, (recovered req run).1 = .ok response) ↔
      ∀ p, run.1 = .error p → p.dropped = none := by
  rcases run with ⟨r, w⟩
  cases r with
  | ok response => simp [recovered]
  | error p => simp [recovered, aftermath_eq_ok_iff]

/-- What still panics does so in dropping what was caught, which is logged. -/
theorem exists_dropped_of_recovered {req : Request} {run : Except Payload Response × World σ}
    {next : Payload} (h : (recovered req run).1 = .error next) :
    ∃ p, p.dropped = some next ∧ (recovered req run).2.log.getLast? = some (panicEvent req p) := by
  rcases run with ⟨r, w⟩
  cases r with
  | ok response => cases h
  | error p =>
      refine ⟨p, aftermath_eq_error_iff.mp h, ?_⟩
      simp [recovered]

theorem state_recovered (req : Request) (run : Except Payload Response × World σ) :
    (recovered req run).2.state = run.2.state := by
  rcases run with ⟨r, w⟩
  cases r <;> rfl

/-! ## Relations that a chain keeps -/

/-- A run leads to a world that is related to the one before, and returns only what satisfies `Q`. -/
def Act.Keeps (R : World σ → World σ → Prop) (Q : α → Prop) (x : Act σ α) : Prop :=
  ∀ w, R w (x.runIn w).2 ∧ ∀ a, (x.runIn w).1 = .ok a → Q a

/-- Both stages of a service keep a relation. -/
def Service.Keeps (R : World σ → World σ → Prop) (s : Service σ) : Prop :=
  ∀ req, (s req).Keeps R fun pending : Pending σ => pending.Keeps R fun _ => True

/-! ## Counting panics -/

/-- A state with the panics noted so far, each with the request that was being answered. -/
abbrev Watched (σ : Type) := Tallied σ (Request × Payload)

/-- Runs a computation, notes its panic and lets it go on. -/
def noticing (req : Request) (x : Act (Watched σ) α) : Act (Watched σ) α := do
  match ← Act.attempt x with
  | .ok a => return a
  | .error p => do
    Act.note (req, p)
    Act.raise p

/-- Notes every panic of the rest of the chain and changes nothing. -/
def noticeFilter : Filter (Watched σ) where
  name := "notice"
  process req next := return noticing req (← noticing req (next req))

/-- A layer of a chain: a recovery filter, or a filter of the application's own. -/
inductive Layer (σ : Type)
  | recovery
  | own (f : Filter σ)

/-- The filters of a layer, panics noted just inside a recovery filter. -/
def Layer.watched : Layer (Watched σ) → List (Filter (Watched σ))
  | recovery => [recoveryFilter, noticeFilter]
  | own f => [f]

/-- The events of recovery filters. -/
def recoveries (log : List Event) : List Event :=
  log.filter (·.target == "melon::recovery")

/-- Between two worlds there was one event of a recovery filter for every panic noted. -/
def Counted (w w' : World (Watched σ)) : Prop :=
  ∃ seen : List (Request × Payload), w'.state.notes = w.state.notes ++ seen ∧
    recoveries w'.log = recoveries w.log ++ seen.map fun (req, p) => panicEvent req p

/-- Nothing was noted, and no event is one of recovery. The state may be another. -/
structure Quiet (w w' : World (Watched σ)) : Prop where
  notes : w'.state.notes = w.state.notes
  log : ∃ events : List Event, w'.log = w.log ++ events ∧
    ∀ e ∈ events, e.target ≠ "melon::recovery"

/-- A relation that holds wherever something quiet happens, and over several steps if over each. -/
structure Lawful (R : World (Watched σ) → World (Watched σ) → Prop) : Prop where
  quiet : ∀ {a b}, Quiet a b → R a b
  trans : ∀ {a b c}, R a b → R b c → R a c

/-- A service that is quiet in all it does. -/
def Service.Discreet (s : Service (Watched σ)) : Prop :=
  ∀ R, Lawful R → s.Keeps R

/-- A filter that is quiet but for what the rest of the chain does. -/
def Filter.Discreet (f : Filter (Watched σ)) : Prop :=
  ∀ R, Lawful R → ∀ next : Service (Watched σ), next.Keeps R → (f.around next).Keeps R

theorem Quiet.refl (w : World (Watched σ)) : Quiet w w :=
  ⟨rfl, [], by simp, by simp⟩

theorem Lawful.refl {R : World (Watched σ) → World (Watched σ) → Prop} (hR : Lawful R)
    (w : World (Watched σ)) : R w w :=
  hR.quiet (.refl w)

theorem Act.Keeps.bind {R : World (Watched σ) → World (Watched σ) → Prop} (hR : Lawful R)
    {P : α → Prop} {Q : β → Prop} {x : Act (Watched σ) α} {f : α → Act (Watched σ) β}
    (hx : x.Keeps R P) (hf : ∀ a, P a → (f a).Keeps R Q) : (x >>= f).Keeps R Q := by
  intro w
  obtain ⟨hrel, hres⟩ := hx w
  rw [Act.runIn_bind]
  rcases hrun : x.runIn w with ⟨r, w'⟩
  rw [hrun] at hrel hres
  cases r with
  | error p => exact ⟨hrel, fun b hb => nomatch hb⟩
  | ok a =>
      obtain ⟨hrel', hres'⟩ := hf a (hres a rfl) w'
      exact ⟨hR.trans hrel hrel', hres'⟩

theorem Service.Keeps.run {R : World (Watched σ) → World (Watched σ) → Prop} (hR : Lawful R)
    {s : Service (Watched σ)} (h : s.Keeps R) (req : Request) :
    (s.run req).Keeps R fun _ => True :=
  (h req).bind hR fun _ hpending => hpending

theorem Counted.trans {a b c : World (Watched σ)} (h : Counted a b) (h' : Counted b c) :
    Counted a c := by
  obtain ⟨seen, hnotes, hlog⟩ := h
  obtain ⟨seen', hnotes', hlog'⟩ := h'
  refine ⟨seen ++ seen', ?_, ?_⟩
  · rw [hnotes', hnotes, List.append_assoc]
  · rw [hlog', hlog, List.map_append, List.append_assoc]

theorem Quiet.counted {a b : World (Watched σ)} (h : Quiet a b) : Counted a b := by
  obtain ⟨events, hlog, hother⟩ := h.log
  have hnone : recoveries events = [] := by
    rw [recoveries, List.filter_eq_nil_iff]
    intro e he
    simpa using hother e he
  refine ⟨[], by simp [h.notes], ?_⟩
  rw [hlog, recoveries, List.filter_append]
  simpa [recoveries] using hnone

theorem lawful_counted : Lawful (Counted (σ := σ)) :=
  ⟨Quiet.counted, Counted.trans⟩

/-- A panic that was noted and then recovered. -/
theorem counted_noted_recovered (w : World (Watched σ)) (req : Request) (p : Payload) :
    Counted w ⟨{ w.state with notes := w.state.notes ++ [(req, p)] },
      w.log ++ [panicEvent req p]⟩ := by
  refine ⟨[(req, p)], rfl, ?_⟩
  rw [recoveries, List.filter_append]
  rfl

theorem runIn_noticing (req : Request) (x : Act (Watched σ) α) (w : World (Watched σ)) :
    (noticing req x).runIn w =
      match x.runIn w with
      | (.ok a, w') => (.ok a, w')
      | (.error p, w') =>
        (.error p, { w' with state := { w'.state with notes := w'.state.notes ++ [(req, p)] } }) := by
  rw [noticing, Act.runIn_bind, Act.runIn_attempt]
  rcases x.runIn w with ⟨r, w'⟩
  cases r <;> rfl

/-- A recovery filter with the notes taken just inside it. In either stage, a panic leaves one note
and one event. -/
theorem Service.Keeps.recovery_notice {next : Service (Watched σ)} (h : next.Keeps Counted) :
    (recoveryFilter.around (noticeFilter.around next)).Keeps Counted := by
  -- the second stage, in whatever world it is run
  have hsettle : ∀ (req : Request) (pending : Pending (Watched σ)),
      pending.Keeps Counted (fun _ => True) →
      (settle req (noticing req pending)).Keeps Counted fun _ => True := by
    intro req pending hpending w
    obtain ⟨hrel, -⟩ := hpending w
    rw [runIn_settle, runIn_noticing]
    rcases hrun : pending.runIn w with ⟨r, w'⟩
    rw [hrun] at hrel
    cases r with
    | ok response => exact ⟨hrel, fun _ _ => trivial⟩
    | error p => exact ⟨hrel.trans (counted_noted_recovered w' req p), fun _ _ => trivial⟩
  intro req w
  obtain ⟨hrel, hres⟩ := h req w
  have hnotice : (noticeFilter.around next req).runIn w =
      match (next req).runIn w with
      | (.ok pending, w') => (.ok (noticing req pending), w')
      | (.error p, w') =>
        (.error p, { w' with state := { w'.state with notes := w'.state.notes ++ [(req, p)] } }) := by
    show (noticing req (next req) >>= _).runIn w = _
    rw [Act.runIn_bind, runIn_noticing]
    rcases (next req).runIn w with ⟨r, w'⟩
    cases r <;> rfl
  rw [runIn_recoveryFilter, hnotice]
  rcases hrun : (next req).runIn w with ⟨r, w'⟩
  rw [hrun] at hrel hres
  cases r with
  | ok pending =>
      refine ⟨hrel, fun a ha => ?_⟩
      obtain rfl := Except.ok.inj ha
      exact hsettle req pending (hres pending rfl)
  | error p =>
      -- what is left to run does nothing any more
      refine ⟨hrel.trans (counted_noted_recovered w' req p), fun a ha => ?_⟩
      dsimp only at ha
      cases haftermath : aftermath p with
      | error next =>
          rw [haftermath] at ha
          cases ha
      | ok response =>
          rw [haftermath] at ha
          obtain rfl := Except.ok.inj ha
          exact fun w'' => ⟨lawful_counted.refl w'', fun _ _ => trivial⟩

/-- Through a whole chain, with recovery filters anywhere in it. -/
theorem Service.Discreet.counted_chain {layers : List (Layer (Watched σ))}
    {terminal : Service (Watched σ)} (hterminal : terminal.Discreet)
    (hlayers : ∀ f, .own f ∈ layers → f.Discreet) :
    (Chain.new (layers.flatMap Layer.watched) terminal).entry.Keeps Counted := by
  -- outwards from the terminal service
  induction layers with
  | nil => exact hterminal Counted lawful_counted
  | cons layer layers ih =>
      have hinner := ih fun f hf => hlayers f (List.mem_cons_of_mem _ hf)
      cases layer with
      | recovery => exact hinner.recovery_notice
      | own f => exact hlayers f List.mem_cons_self Counted lawful_counted _ hinner

/-! ## Discreet filters and services -/

namespace Act

variable {R : World (Watched σ) → World (Watched σ) → Prop} {Q : α → Prop}

theorem keeps_pure (hR : Lawful R) {a : α} (h : Q a) : (pure a : Act (Watched σ) α).Keeps R Q :=
  fun w => ⟨hR.refl w, fun b hb => by obtain rfl := Except.ok.inj hb; exact h⟩

theorem keeps_raise (hR : Lawful R) (p : Payload) : (raise p : Act (Watched σ) α).Keeps R Q :=
  fun w => ⟨hR.refl w, fun _ hb => nomatch hb⟩

theorem keeps_log (hR : Lawful R) {e : Event} (h : e.target ≠ "melon::recovery") :
    (log e : Act (Watched σ) Unit).Keeps R fun _ => True :=
  fun w => ⟨hR.quiet ⟨rfl, [e], rfl, by simpa using h⟩, fun _ _ => trivial⟩

/-- What a computation that is unaware of the notes does, if it writes no event of recovery. -/
theorem keeps_beside (hR : Lawful R) {x : Act σ α}
    (h : ∀ w, ∃ events : List Event, (x.runIn w).2.log = w.log ++ events ∧
      ∀ e ∈ events, e.target ≠ "melon::recovery") :
    (beside x : Act (Watched σ) α).Keeps R fun _ => True :=
  fun w => ⟨hR.quiet ⟨rfl, h ⟨w.state.state, w.log⟩⟩, fun _ _ => trivial⟩

end Act

end AppServer.Pipeline
