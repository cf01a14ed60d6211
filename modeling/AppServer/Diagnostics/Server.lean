import AppServer.Diagnostics.Routing
import AppServer.Server.Basic

/-!
# Diagnostic text of servers and of what they are built from
-/

namespace AppServer.Diagnostics

variable {σ : Type}

instance : Inspect HealthStatus where
  inspect
    | .healthy => "Healthy"
    | .unhealthy reason => record "Unhealthy" [("reason", inspect reason)]
    | .degraded reason => record "Degraded" [("reason", inspect reason)]

instance : Inspect (HealthRegistry σ) where
  inspect r := record "HealthRegistry" [("checks", inspect r.names)]

instance : Inspect (MenuEntry σ) where
  inspect e := record "AdminHandler" [("path", inspect e.path), ("name", inspect e.name)]

instance : Inspect (Task σ) where
  inspect t := record "Task" [("name", inspect t.name)]

/-- The moment of the start is not shown. -/
instance : Inspect (Admin σ) where
  inspect a := record "AdminEnvironment" [("handlers", inspect a.menu), ("tasks", inspect a.tasks),
    ("health", inspect a.health), ("filters", inspect a.filters), ("started", "_")]

instance : Inspect (Application σ) where
  inspect a := record "ServerEnvironment" [("routes", inspect a.routes.length),
    ("resources", inspect a.resources.length), ("providers", inspect a.providers.length),
    ("filters", inspect a.filters)]

instance : Inspect Layout where
  inspect
    | .separate => "Default"
    | .shared => "Simple"

instance : Inspect Config where
  inspect c := record "ServerConfig" [("server_type", inspect c.layout),
    ("application_addr", inspect c.applicationAddress), ("admin_addr", inspect c.adminAddress),
    ("application_context_path", inspect c.applicationContext),
    ("admin_context_path", inspect c.adminContext), ("root_path", inspect c.rootPath),
    ("max_body_size", inspect c.maxBodySize)]

instance : Inspect ConfigError where
  inspect
    | .settings fault => wrapped "Env" (wrapped "Custom" (inspect fault.message))
    | .invalidAddress setting value =>
      record "InvalidAddr" [("field", inspect setting), ("value", inspect value),
        ("reason", inspect ConfigError.addressSyntax)]
    | .addressConflict address => wrapped "AddrConflict" address.render
    | .contextConflict path => wrapped "ContextConflict" (inspect path)

instance : Inspect BindFault where
  inspect f := record "Os" [("code", inspect f.code), ("kind", f.kind), ("message", inspect f.text)]

instance : Inspect StartupError where
  inspect
    | .routes errors => wrapped "Routes" (inspect errors)
    | .config e => wrapped "Config" (inspect e)
    | .bind address fault =>
      record "Bind" [("addr", inspect address), ("source", inspect fault)]

instance : Inspect (Server σ) where
  inspect s := record "Server" [("config", inspect s.config),
    ("application", inspect s.application), ("admin", inspect s.admin)]

instance : Inspect (Blueprint σ) where
  inspect b := record "Melon" [("config", inspect b.config), ("server", inspect b.application),
    ("admin", inspect b.admin)]

end AppServer.Diagnostics
