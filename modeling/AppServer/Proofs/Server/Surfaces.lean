import AppServer.Proofs.Routing.Lookup
import AppServer.Proofs.Server.Registration
import AppServer.Server.Basic

/-!
# Telling the surfaces apart

In the shared layout a valid configuration has different context paths. The application is mounted
where the root path leads from its own, which is another place than the admin surface unless the root
path makes up just the difference between the two. The admin surface is asked first, and everything
under its mount point is its own. So the surface that answers is the one with the longest mount point
above a path, unless the application is mounted below the admin surface.
-/

namespace AppServer

open Pipeline Routing Text

variable {σ : Type}

namespace Config

variable {c valid : Config}

/-- Everything that a valid configuration has passed. -/
theorem validate_eq_ok_iff :
    c.validate = .ok valid ↔ ∃ application admin, c.applicationSocket = .ok application ∧
      c.adminSocket = .ok admin ∧ c.normalized.conflict? application admin = none ∧
      valid = c.normalized := by
  unfold validate
  cases happ : c.applicationSocket with
  | error e => simp [bind, Except.bind]
  | ok application =>
      cases hadmin : c.adminSocket with
      | error e => simp [bind, Except.bind]
      | ok admin =>
          cases hconflict : c.normalized.conflict? application admin with
          | some e => simp [bind, Except.bind, hconflict]
          | none => simp [bind, Except.bind, hconflict, eq_comm]

theorem valid_of_validate (hlayout : c.layout = .shared) (h : c.validate = .ok valid) :
    valid = c.normalized ∧ valid.applicationContext ≠ valid.adminContext := by
  obtain ⟨application, admin, -, -, hconflict, rfl⟩ := validate_eq_ok_iff.mp h
  refine ⟨rfl, ?_⟩
  intro hsame
  have hshared : c.normalized.layout = .shared := hlayout
  rw [conflict?, hshared] at hconflict
  simp only [if_pos hsame] at hconflict
  cases hconflict

theorem isMount_normalized (c : Config) :
    IsMount c.normalized.applicationContext ∧ IsMount c.normalized.adminContext ∧
      IsMount c.normalized.rootPath :=
  ⟨isMount_normalizeMount _, isMount_normalizeMount _, isMount_normalizeMount _⟩

theorem mountPoints_shared (hlayout : c.layout = .shared) :
    c.mountPoints = (joinPath c.applicationContext c.rootPath, c.adminContext) := by
  rw [mountPoints, hlayout]

end Config

namespace Server

/-- The routers of a server are mounted where a configuration says. -/
structure Mounted (s : Server σ) (c : Config) : Prop where
  application : s.application.mount = normalizeMount c.mountPoints.1
  admin : s.admin.mount = normalizeMount c.mountPoints.2

/-- The router for a path on the shared connector covers the path, and no router that does has a
longer mount point. -/
structure ServesLongest (s : Server σ) (path : String) : Prop where
  covers : (s.routerFor .shared path).covers path = true
  longest : ∀ r ∈ [s.application, s.admin], r.covers path = true →
    r.mount.length ≤ (s.routerFor .shared path).mount.length

variable {s : Server σ} {path : String}

theorem routerFor_of_covers (h : s.admin.covers path = true) :
    s.routerFor .shared path = s.admin := by
  rw [routerFor, if_pos h]

theorem routerFor_of_not_covers (h : ¬ s.admin.covers path = true) :
    s.routerFor .shared path = s.application := by
  rw [routerFor, if_neg h]

/-- The longest mount point above a path is served, unless the application has it and lies below
the admin surface, which is asked first. -/
theorem servesLongest_iff (happ : IsMount s.application.mount) (hadmin : IsMount s.admin.mount)
    (hcovered : s.application.covers path = true ∨ s.admin.covers path = true) :
    s.ServesLongest path ↔
      ¬ (Encloses s.admin.mount s.application.mount ∧ s.application.covers path = true) := by
  by_cases hasked : s.admin.covers path = true
  · have hrouter := routerFor_of_covers hasked
    constructor
    · rintro ⟨-, hlongest⟩ ⟨hencloses, happcovers⟩
      have hle := hlongest s.application (by simp) happcovers
      have hlt := hencloses.length_lt hadmin happ
      rw [hrouter] at hle
      omega
    · intro hnot
      refine ⟨by rw [hrouter]; exact hasked, ?_⟩
      intro r hr hcovers
      rw [hrouter]
      rcases List.mem_pair.mp hr with rfl | rfl
      · obtain ⟨rest, hunder⟩ := Router.covers_iff.mp hcovers
        obtain ⟨rest', hunder'⟩ := Router.covers_iff.mp hasked
        rcases hunder.encloses_or hunder' with hsame | hencloses | hencloses
        · exact Nat.le_of_eq (congrArg String.length (happ.eq_of_segments hadmin hsame))
        · exact Nat.le_of_lt (hencloses.length_lt happ hadmin)
        · exact absurd ⟨hencloses, hcovers⟩ hnot
      · exact Nat.le_refl _
  · have hrouter := routerFor_of_not_covers hasked
    have happcovers := hcovered.resolve_right hasked
    have hright : ¬ (Encloses s.admin.mount s.application.mount ∧
        s.application.covers path = true) := by
      rintro ⟨hencloses, -⟩
      obtain ⟨rest, hunder⟩ := Router.covers_iff.mp happcovers
      exact hasked (Router.covers_iff.mpr (hencloses.under hadmin happ hunder))
    refine iff_of_true ⟨by rw [hrouter]; exact happcovers, ?_⟩ hright
    intro r hr hcovers
    rw [hrouter]
    rcases List.mem_pair.mp hr with rfl | rfl
    · exact Nat.le_refl _
    · exact absurd hcovers hasked

end Server

/-! ## Built servers -/

/-- The router of an application that has started. -/
structure Application.Started (a : Application σ) (mount : String) (r : Router σ) : Prop where
  holds : r.Holds (Routing.registrations a.registrations)
  mount : r.mount = normalizeMount mount
  filters : r.filters = a.filters.prepend recoveryFilter

theorem Application.started_of_start {a : Application σ} {mount : String} {r : Router σ}
    (h : (a.start mount).1 = .ok r) : a.Started mount r := by
  have hregistered := Application.registerAll_of_start h
  obtain ⟨hmount, hfilters⟩ :=
    Router.mount_registerAll (Router.withFilters mount a.filters) a.registrations
  have hholds := (Router.holds_withFilters mount a.filters).registerAll a.registrations
  rw [List.nil_append, Router.accepted_eq_registrations (congrArg Prod.snd hregistered)] at hholds
  rw [hregistered] at hmount hfilters hholds
  exact ⟨hholds, hmount, hfilters⟩

theorem Application.mount_start {a : Application σ} {mount : String} {r : Router σ}
    (h : (a.start mount).1 = .ok r) : r.mount = normalizeMount mount :=
  (Application.started_of_start h).mount

theorem Admin.mount_start {a : Admin σ} {mount : String} {r : Router σ}
    (h : (a.start mount).1 = .ok r) : r.mount = normalizeMount mount := by
  rw [a.start_eq_outcome] at h
  obtain ⟨rfl, -⟩ := Router.outcome_eq_ok h
  exact (Router.mount_registerAll _ _).1

/-- A build is a server just when the configuration is valid and both surfaces start. -/
theorem Blueprint.build_eq_ok_iff {b : Blueprint σ} {s : Server σ} :
    b.build.1 = .ok s ↔ b.config.validate = .ok s.config ∧
      (b.application.start s.config.mountPoints.1).1 = .ok s.application ∧
      (b.admin.start s.config.mountPoints.2).1 = .ok s.admin := by
  constructor
  · intro h
    unfold Blueprint.build at h
    split at h
    · cases h
    · rename_i valid hvalid
      simp only at h
      split at h
      · cases h
      · rename_i happ
        split at h
        · cases h
        · rename_i hadmin
          cases h
          exact ⟨hvalid, congrArg Prod.fst happ, congrArg Prod.fst hadmin⟩
  · rintro ⟨hvalid, happ, hadmin⟩
    unfold Blueprint.build
    rw [hvalid]
    simp only
    rcases hstart : b.application.start s.config.mountPoints.1 with ⟨result, log⟩
    rcases hstart' : b.admin.start s.config.mountPoints.2 with ⟨result', more⟩
    rw [hstart] at happ
    rw [hstart'] at hadmin
    subst happ hadmin
    rfl

/-- A server that is built has its routers where its configuration says. -/
theorem Blueprint.mounted_of_build {b : Blueprint σ} {s : Server σ} (h : b.build.1 = .ok s) :
    b.config.validate = .ok s.config ∧ s.Mounted s.config := by
  obtain ⟨hvalid, happ, hadmin⟩ := Blueprint.build_eq_ok_iff.mp h
  exact ⟨hvalid, Application.mount_start happ, Admin.mount_start hadmin⟩

/-! ## Mount points of a valid configuration -/

theorem Config.isMount_mountPoints {c valid : Config} (hlayout : c.layout = .shared)
    (h : c.validate = .ok valid) :
    IsMount valid.mountPoints.1 ∧ IsMount valid.mountPoints.2 := by
  obtain ⟨rfl, -⟩ := Config.valid_of_validate hlayout h
  obtain ⟨happ, hadmin, hroot⟩ := c.isMount_normalized
  have hshared : c.normalized.layout = .shared := hlayout
  rw [Config.mountPoints_shared hshared]
  exact ⟨happ.joinPath hroot, hadmin⟩

/-- The mount points coincide just if the root path leads from the one context path to the other. -/
theorem Config.mountPoints_eq_iff {c valid : Config} (hlayout : c.layout = .shared)
    (h : c.validate = .ok valid) :
    valid.mountPoints.1 = valid.mountPoints.2 ↔
      segments valid.applicationContext ++ segments valid.rootPath =
        segments valid.adminContext := by
  obtain ⟨rfl, -⟩ := Config.valid_of_validate hlayout h
  obtain ⟨happ, hadmin, hroot⟩ := c.isMount_normalized
  have hshared : c.normalized.layout = .shared := hlayout
  rw [Config.mountPoints_shared hshared, ← happ.segments_joinPath hroot]
  constructor
  · exact fun hsame => congrArg segments hsame
  · exact (happ.joinPath hroot).eq_of_segments hadmin

/-- In a valid configuration of the shared layout the mount points differ unless the root path leads
from the context path of the application to that of the admin surface. Whatever a surface covers is
served by one that covers it, the admin surface where both do; and that has the longest mount point,
unless the application covers the path and is mounted below the admin surface. -/
theorem validate_tells_surfaces_apart {c valid : Config} (hlayout : c.layout = .shared)
    (h : c.validate = .ok valid) (s : Server σ) (hs : s.Mounted valid) :
    (segments valid.applicationContext ++ segments valid.rootPath ≠ segments valid.adminContext →
      valid.mountPoints.1 ≠ valid.mountPoints.2) ∧
    ∀ path, s.application.covers path = true ∨ s.admin.covers path = true →
      (s.routerFor .shared path).covers path = true ∧
      (s.admin.covers path = true → s.routerFor .shared path = s.admin) ∧
      (s.ServesLongest path ↔
        ¬ (Encloses valid.mountPoints.2 valid.mountPoints.1 ∧
          s.application.covers path = true)) := by
  obtain ⟨happ, hadmin⟩ := Config.isMount_mountPoints hlayout h
  have happmount : s.application.mount = valid.mountPoints.1 := hs.application.trans happ
  have hadminmount : s.admin.mount = valid.mountPoints.2 := hs.admin.trans hadmin
  refine ⟨mt (Config.mountPoints_eq_iff hlayout h).mp, fun path hcovered => ⟨?_, ?_, ?_⟩⟩
  · by_cases hasked : s.admin.covers path = true
    · rw [Server.routerFor_of_covers hasked]
      exact hasked
    · rw [Server.routerFor_of_not_covers hasked]
      exact hcovered.resolve_right hasked
  · exact Server.routerFor_of_covers
  · rw [← happmount] at happ ⊢
    rw [← hadminmount] at hadmin ⊢
    exact Server.servesLongest_iff happ hadmin hcovered

/-- A server without routes, mounted where a configuration says. -/
def Server.bare (c : Config) : Server Unit :=
  ⟨c, .new c.mountPoints.1, .new c.mountPoints.2⟩

theorem Server.mounted_bare (c : Config) : (Server.bare c).Mounted c :=
  ⟨rfl, rfl⟩

/-- The application is mounted above the admin surface, below its own context path. -/
def adminInside : Config :=
  { layout := .shared, applicationContext := "/", adminContext := "/api//admin/", rootPath := "api" }

/-- The mount points differ. Both surfaces cover the path, and the admin surface is mounted further
down. -/
theorem servesLongest_adminInside :
    adminInside.layout = .shared ∧ adminInside.validate = .ok adminInside.normalized ∧
    adminInside.normalized.mountPoints.1 ≠ adminInside.normalized.mountPoints.2 ∧
    (Server.bare adminInside.normalized).application.covers "/api/admin/ping" = true ∧
    (Server.bare adminInside.normalized).admin.covers "/api/admin/ping" = true ∧
    (Server.bare adminInside.normalized).ServesLongest "/api/admin/ping" := by
  have hvalid : adminInside.validate = .ok adminInside.normalized := by rfl
  have hpoints : adminInside.normalized.mountPoints = ("/api", "/api/admin") := by rfl
  have hparts : segments adminInside.normalized.applicationContext ++
      segments adminInside.normalized.rootPath ≠ segments adminInside.normalized.adminContext := by
    decide
  have happ : (Server.bare adminInside.normalized).application.covers "/api/admin/ping" = true := by
    rfl
  have hadmin : (Server.bare adminInside.normalized).admin.covers "/api/admin/ping" = true := by
    rfl
  obtain ⟨hapart, hserved⟩ := validate_tells_surfaces_apart rfl hvalid _ (Server.mounted_bare _)
  obtain ⟨-, -, hserves⟩ := hserved "/api/admin/ping" (.inr hadmin)
  refine ⟨rfl, hvalid, hapart hparts, happ, hadmin, hserves.mpr ?_⟩
  rw [hpoints]
  rintro ⟨⟨parts, hne, hsegments⟩, -⟩
  have hlen := congrArg List.length hsegments
  simp [segments, splitOn] at hlen

/-- The root path leads from the application to the admin surface. -/
def sameMount : Config :=
  { layout := .shared, applicationContext := "/shop", adminContext := "/shop/api", rootPath := "/api" }

/-- The admin surface is mounted at the root, above the application. -/
def adminOutside : Config :=
  { layout := .shared, adminContext := "/" }

/-- Valid configurations of the shared layout may mount both surfaces in one place. Even where they do
not, a path may be given to the shorter of two mount points. -/
theorem not_validate_tells_surfaces_apart :
    (¬ ∀ c valid : Config, c.layout = .shared → c.validate = .ok valid →
      valid.mountPoints.1 ≠ valid.mountPoints.2) ∧
    ¬ ∀ (c valid : Config) (s : Server Unit), c.layout = .shared → c.validate = .ok valid →
      s.Mounted valid → valid.mountPoints.1 ≠ valid.mountPoints.2 →
      ∀ path, s.application.covers path = true ∨ s.admin.covers path = true →
        s.ServesLongest path := by
  constructor
  · intro hclaim
    have hvalid : sameMount.validate = .ok sameMount.normalized := by rfl
    exact hclaim sameMount _ rfl hvalid (by rfl)
  · intro hclaim
    have hvalid : adminOutside.validate = .ok adminOutside.normalized := by rfl
    have hpoints : adminOutside.normalized.mountPoints = ("/application", "/") := by rfl
    have hcovers : (Server.bare adminOutside.normalized).application.covers
        "/application/status" = true := by rfl
    have hserves := hclaim adminOutside _ (Server.bare adminOutside.normalized) rfl hvalid
      (Server.mounted_bare _) (by rw [hpoints]; decide) "/application/status" (.inl hcovers)
    have hle := hserves.longest _ (by simp) hcovers
    -- the admin surface is asked, under a mount point of one character
    have hrouter : ((Server.bare adminOutside.normalized).routerFor .shared
        "/application/status").mount.length = 1 := by rfl
    have hmount : (Server.bare adminOutside.normalized).application.mount.length = 12 := by rfl
    omega

end AppServer
