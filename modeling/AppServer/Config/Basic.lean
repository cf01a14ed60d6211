import AppServer.Net.Address
import AppServer.Routing.Mount
import AppServer.Text.Quoted

/-!
# Configuration

Where the two surfaces of a server listen and under which paths they are mounted. A configuration
is validated before it is used: its addresses can be read, its paths are mount points, and the
surfaces can be told apart.
-/

namespace AppServer

/-- How the surfaces are laid out. -/
inductive Layout
  /-- The application and the admin surface have a listener each. -/
  | separate
  /-- One listener serves both; their paths tell them apart. -/
  | shared
deriving DecidableEq, Repr, Inhabited

namespace Layout

/-- The word for a layout in a setting. -/
def word : Layout → String
  | separate => "default"
  | shared => "simple"

def ofWord? (s : String) : Option Layout :=
  [separate, shared].find? (·.word == s)

theorem ofWord?_word (l : Layout) : ofWord? l.word = some l := by
  cases l <;> decide

end Layout

/-- The settings of a server. -/
structure Config where
  layout : Layout := .separate
  applicationAddress : String := "0.0.0.0:8080"
  adminAddress : String := "0.0.0.0:8081"
  /-- Where the application is mounted in the shared layout. -/
  applicationContext : String := "/application"
  /-- Where the admin surface is mounted in the shared layout. -/
  adminContext : String := "/admin"
  /-- Where the routes of the application are mounted. -/
  rootPath : String := "/"
  /-- The number of bytes a request body may have. -/
  maxBodySize : Nat := 1048576
deriving DecidableEq, Repr, Inhabited

/-- Why the variables of an environment make no configuration. -/
inductive VariableFault
  | unknownLayout (value : String)
  | repeatedSetting (name : String)
  /-- The value of a variable is not a whole number in range. -/
  | notWhole (cause : Number.WholeError) (value key : String)
deriving DecidableEq, Repr

def VariableFault.message : VariableFault → String
  | unknownLayout value =>
    "unknown variant `" ++ value ++ "`, expected `default` or `simple`"
  | repeatedSetting name => "duplicate field `" ++ name ++ "`"
  | notWhole cause value key =>
    cause.message ++ " while parsing value '" ++ value ++ "' provided by " ++ key

/-- Why a configuration was refused. -/
inductive ConfigError
  | settings (fault : VariableFault)
  | invalidAddress (setting value : String)
  /-- Both surfaces would listen on one address. -/
  | addressConflict (address : Net.Address)
  /-- Both surfaces would be mounted on one path. -/
  | contextConflict (path : String)
deriving DecidableEq, Repr

namespace ConfigError

/-- What is said of every text that is not a socket address. -/
def addressSyntax : String := "invalid socket address syntax"

def message : ConfigError → String
  | settings fault => "configuration error: " ++ fault.message
  | invalidAddress setting value =>
    "invalid " ++ setting ++ " " ++ Text.quoted value ++ ": " ++ addressSyntax
  | addressConflict address =>
    "application and admin connectors cannot both bind " ++ address.render
  | contextConflict path =>
    "application and admin context paths must differ, both are " ++ Text.quoted path

end ConfigError

namespace Config

open Net Routing

/-- Reads the address of a setting. -/
def readAddress (setting value : String) : Except ConfigError Address :=
  match Address.parse? value with
  | some a => .ok a
  | none => .error (.invalidAddress setting value)

def applicationSocket (c : Config) : Except ConfigError Address :=
  readAddress "application_addr" c.applicationAddress

def adminSocket (c : Config) : Except ConfigError Address :=
  readAddress "admin_addr" c.adminAddress

/-- The configuration with its paths as mount points. -/
def normalized (c : Config) : Config :=
  { c with
    applicationContext := normalizeMount c.applicationContext
    adminContext := normalizeMount c.adminContext
    rootPath := normalizeMount c.rootPath }

/-- Whether the surfaces cannot be told apart, given their addresses. -/
def conflict? (c : Config) (application admin : Address) : Option ConfigError :=
  match c.layout with
  | .separate => if application = admin then some (.addressConflict application) else none
  | .shared =>
    if c.applicationContext = c.adminContext then some (.contextConflict c.applicationContext)
    else none

/-- Checks a configuration and normalizes its paths. -/
def validate (c : Config) : Except ConfigError Config := do
  let application ← c.applicationSocket
  let admin ← c.adminSocket
  match c.normalized.conflict? application admin with
  | some e => .error e
  | none => .ok c.normalized

/-- Where the application and the admin surface are mounted. -/
def mountPoints (c : Config) : String × String :=
  match c.layout with
  | .separate => (c.rootPath, "/")
  | .shared => (joinPath c.applicationContext c.rootPath, c.adminContext)

end Config

end AppServer
