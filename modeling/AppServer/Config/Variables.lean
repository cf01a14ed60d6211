import AppServer.Config.Basic

/-!
# Configuration from variables

A variable whose name begins with the mark of the server sets the setting named by the rest, in
any case of letters. Variables are read in order, the first fault counts, and names without a
setting are passed over.
-/

namespace AppServer

open Number

/-- What the names of the server's variables begin with. -/
def variableMark : List Char := "MELON_".toList

/-- A name without the mark, as often as it begins with it. -/
def stripMark (fuel : Nat) (name : List Char) : List Char :=
  match fuel with
  | 0 => name
  | fuel + 1 =>
    match variableMark.isPrefixOf? name with
    | some rest => stripMark fuel rest
    | none => name

/-- The name of a variable without its mark, if it has one. -/
def settingName? (key : String) : Option String :=
  let name := key.toList
  if variableMark.isPrefixOf name then some (String.ofList (stripMark name.length name)) else none

/-- The settings. -/
inductive Setting
  | layout
  | applicationAddress
  | adminAddress
  | applicationContext
  | adminContext
  | rootPath
  | maxBodySize
deriving DecidableEq, Repr

namespace Setting

def all : List Setting :=
  [layout, applicationAddress, adminAddress, applicationContext, adminContext, rootPath,
    maxBodySize]

def name : Setting → String
  | layout => "server_type"
  | applicationAddress => "application_addr"
  | adminAddress => "admin_addr"
  | applicationContext => "application_context_path"
  | adminContext => "admin_context_path"
  | rootPath => "root_path"
  | maxBodySize => "max_body_size"

/-- The setting of a name, whatever the case of its letters. -/
def ofName? (name : String) : Option Setting :=
  all.find? (·.name == Text.lower name)

/-- The largest number of bytes that can be set. -/
def maxSize : Nat := UInt64.size - 1

/-- Sets a setting to the value of a variable, given by its name without the mark. -/
def apply (s : Setting) (key value : String) (c : Config) : Except VariableFault Config :=
  match s with
  | layout =>
    match Layout.ofWord? value with
    | some l => .ok { c with layout := l }
    | none => .error (.unknownLayout value)
  | applicationAddress => .ok { c with applicationAddress := value }
  | adminAddress => .ok { c with adminAddress := value }
  | applicationContext => .ok { c with applicationContext := value }
  | adminContext => .ok { c with adminContext := value }
  | rootPath => .ok { c with rootPath := value }
  | maxBodySize =>
    match readNat maxSize value.toList with
    | .ok n => .ok { c with maxBodySize := n }
    | .error cause => .error (.notWhole cause value key)

end Setting

namespace Config

/-- Goes through variables, `seen` being the settings already set. -/
def applyVariables (c : Config) (seen : List Setting) :
    List (String × String) → Except VariableFault Config
  | [] => .ok c
  | (key, value) :: rest =>
    match settingName? key with
    | none => applyVariables c seen rest
    | some name =>
      match Setting.ofName? name with
      | none => applyVariables c seen rest
      | some s =>
        if seen.contains s then .error (.repeatedSetting s.name)
        else do
          let c ← s.apply name value c
          applyVariables c (s :: seen) rest

/-- The validated configuration that some variables describe. -/
def ofVariables (settings : List (String × String)) : Except ConfigError Config := do
  let c ← (applyVariables {} [] settings).mapError .settings
  c.validate

end Config

end AppServer
