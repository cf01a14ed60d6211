import AppServer.Config.Variables
import AppServer.Proofs.Server.Build
import AppServer.Proofs.Server.Surfaces

/-!
# Validation settles a configuration

Validation returns a configuration that passes it again and stays as it is: its addresses can be
read, and its paths are in the form that mount points have, each by itself and joined. So a build
validates once more without effect, and its routers are mounted exactly where the configuration
says.
-/

namespace AppServer

open Net Pipeline Routing

variable {σ : Type}

namespace Config

/-- Nothing of the configuration is left to refuse or to change. -/
structure Settled (c : Config) : Prop where
  addresses : ∃ application admin, Address.parse? c.applicationAddress = some application ∧
    Address.parse? c.adminAddress = some admin
  fixed : c.validate = .ok c
  applicationContext : normalizeMount c.applicationContext = c.applicationContext
  adminContext : normalizeMount c.adminContext = c.adminContext
  rootPath : normalizeMount c.rootPath = c.rootPath
  mountPoints : ∀ layout, let points := { c with layout }.mountPoints
    normalizeMount points.1 = points.1 ∧ normalizeMount points.2 = points.2

variable {c valid : Config}

theorem parse?_of_readAddress {setting value : String} {a : Address}
    (h : readAddress setting value = .ok a) : Address.parse? value = some a := by
  unfold readAddress at h
  split at h
  · rename_i hparse
    cases h
    exact hparse
  · cases h

theorem normalized_normalized (c : Config) : c.normalized.normalized = c.normalized := by
  obtain ⟨happ, hadmin, hroot⟩ := c.isMount_normalized
  rw [IsMount] at happ hadmin hroot
  conv_lhs => rw [normalized, happ, hadmin, hroot]

/-- Where the paths are mount points, so are those that either layout makes of them. -/
theorem isMount_mountPoints_of_paths (happ : IsMount c.applicationContext)
    (hadmin : IsMount c.adminContext) (hroot : IsMount c.rootPath) :
    IsMount c.mountPoints.1 ∧ IsMount c.mountPoints.2 := by
  unfold mountPoints
  cases c.layout with
  | separate => exact ⟨hroot, isMount_normalizeMount "/"⟩
  | shared => exact ⟨happ.joinPath hroot, hadmin⟩

theorem settled_of_validate (h : c.validate = .ok valid) : valid.Settled := by
  obtain ⟨application, admin, happAddress, hadminAddress, hconflict, rfl⟩ :=
    validate_eq_ok_iff.mp h
  obtain ⟨happ, hadmin, hroot⟩ := c.isMount_normalized
  refine ⟨⟨application, admin, ?_, ?_⟩, ?_, happ, hadmin, hroot, fun layout => ?_⟩
  · exact parse?_of_readAddress happAddress
  · exact parse?_of_readAddress hadminAddress
  · -- the addresses and the layout are kept, so the conflict that was ruled out is the same
    rw [validate_eq_ok_iff, normalized_normalized]
    exact ⟨application, admin, happAddress, hadminAddress, hconflict, rfl⟩
  · exact isMount_mountPoints_of_paths happ hadmin hroot

/-- A configuration read from variables has been validated. -/
theorem ofVariables_eq_ok_iff {settings : List (String × String)} :
    ofVariables settings = .ok valid ↔
      ∃ c, applyVariables {} [] settings = .ok c ∧ c.validate = .ok valid := by
  unfold ofVariables
  cases applyVariables {} [] settings with
  | error e => simp [Except.mapError, bind, Except.bind]
  | ok c => simp [Except.mapError, bind, Except.bind]

end Config

namespace Blueprint

/-- A build finds no fault with its configuration, and a server that it yields has the configuration
`valid`, its routers exactly at the mount points of that. -/
structure BuildsWith (b : Blueprint σ) (valid : Config) : Prop where
  accepted : ∀ e, b.build.1 ≠ .error (.config e)
  config : ∀ s, b.build.1 = .ok s → s.config = valid
  mounts : ∀ s, b.build.1 = .ok s →
    (s.application.mount, s.admin.mount) = valid.mountPoints

theorem buildsWith_of_validate {b : Blueprint σ} {valid : Config}
    (h : b.config.validate = .ok valid) : b.BuildsWith valid := by
  have hconfig : ∀ s, b.build.1 = .ok s → s.config = valid := by
    intro s hbuild
    have hsame := (mounted_of_build hbuild).1
    rw [h] at hsame
    exact (Except.ok.inj hsame).symm
  refine ⟨?_, hconfig, ?_⟩
  · intro e hbuild
    unfold build at hbuild
    rw [h] at hbuild
    -- what is left to go wrong are the routes of one of the surfaces
    simp only at hbuild
    split at hbuild
    · cases hbuild
    · split at hbuild
      · cases hbuild
      · cases hbuild
  · intro s hbuild
    obtain ⟨-, hmounted⟩ := mounted_of_build hbuild
    rw [hconfig s hbuild] at hmounted
    obtain ⟨happ, hadmin⟩ := (Config.settled_of_validate h).mountPoints valid.layout
    exact Prod.ext (hmounted.application.trans happ) (hmounted.admin.trans hadmin)

end Blueprint

/-- What validation returns is settled, and a build goes on with exactly that. What is read from
variables has been validated, so a build takes it as it is. -/
theorem Config.validate_reaches_fixed_point :
    (∀ c valid : Config, c.validate = .ok valid →
      valid.Settled ∧ ∀ b : Blueprint σ, b.config = c → b.BuildsWith valid) ∧
    ∀ settings loaded, Config.ofVariables settings = .ok loaded →
      loaded.Settled ∧ ∀ b : Blueprint σ, b.config = loaded → b.BuildsWith loaded := by
  constructor
  · intro c valid hvalid
    refine ⟨settled_of_validate hvalid, ?_⟩
    rintro b rfl
    exact Blueprint.buildsWith_of_validate hvalid
  · intro settings loaded hloaded
    obtain ⟨raw, -, hvalid⟩ := ofVariables_eq_ok_iff.mp hloaded
    have hsettled := settled_of_validate hvalid
    refine ⟨hsettled, ?_⟩
    rintro b rfl
    exact Blueprint.buildsWith_of_validate hsettled.fixed

namespace Config

/-- Paths with slashes too many and too few, and an address of groups. -/
def untidy : Config :=
  { layout := .shared, adminAddress := "[::1]:8081", applicationContext := "//shop/",
    adminContext := "shop//admin", rootPath := "api/v1/" }

/-- What is tidied once is not touched again, whether it was set in place or by a variable. -/
theorem validate_reaches_fixed_point_untidy :
    untidy.validate = .ok untidy.normalized ∧ untidy.normalized.Settled ∧
    untidy.normalized.mountPoints = ("/shop/api/v1", "/shop/admin") ∧
    (∃ s, (Blueprint.new untidy Blueprint.host : Blueprint Unit).build.1 = .ok s ∧
      s.config = untidy.normalized ∧
      (s.application.mount, s.admin.mount) = ("/shop/api/v1", "/shop/admin")) ∧
    ofVariables [("MELON_ROOT_PATH", "api//v1/")] = .ok { rootPath := "/api/v1" } ∧
    ({ rootPath := "/api/v1" } : Config).Settled := by
  have hvalid : untidy.validate = .ok untidy.normalized := by rfl
  have hpoints : untidy.normalized.mountPoints = ("/shop/api/v1", "/shop/admin") := by rfl
  obtain ⟨hreached, hloaded⟩ := validate_reaches_fixed_point (σ := Unit)
  obtain ⟨hsettled, hbuild⟩ := hreached _ _ hvalid
  have hwith := hbuild (.new untidy Blueprint.host) rfl
  have hvariables : ofVariables [("MELON_ROOT_PATH", "api//v1/")] =
      .ok { rootPath := "/api/v1" } := by
    have hname : settingName? "MELON_ROOT_PATH" = some "ROOT_PATH" := by rfl
    have hsetting : Setting.ofName? "ROOT_PATH" = some .rootPath := by rfl
    have hraw : ({ rootPath := "api//v1/" } : Config).validate = .ok { rootPath := "/api/v1" } :=
      validate_eq_ok_iff.mpr ⟨.v4 ⟨0, 0, 0, 0⟩ 8080, .v4 ⟨0, 0, 0, 0⟩ 8081, rfl, rfl, rfl, rfl⟩
    refine ofVariables_eq_ok_iff.mpr ⟨_, ?_, hraw⟩
    simp only [applyVariables, hname, hsetting]
    rfl
  refine ⟨hvalid, hsettled, hpoints, ?_, hvariables, (hloaded _ _ hvariables).1⟩
  obtain ⟨s, hs⟩ : ∃ s, (Blueprint.new (σ := Unit) untidy Blueprint.host).build.1 = .ok s :=
    ⟨_, rfl⟩
  exact ⟨s, hs, hwith.config s hs, (hwith.mounts s hs).trans hpoints⟩

end Config

end AppServer
