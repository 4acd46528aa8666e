import DeployConfig.Environment.Form
import DeployConfig.FileTree
import DeployConfig.Toml.Reader

/-!
# Settings

The settings of a configuration root stand in an optional file at the root: which config types
there are, which keys are never taken from an overriding component, further properties of the
system, and whether values of the system are written for consumers that read backslashes as
escapes. Fields that the file leaves out keep their defaults.
-/

set_option autoImplicit false

namespace DeployConfig

/-- A kind of configuration that components have. Its layer files start with `opening`, or with its
name when there is none. -/
structure ConfigType where
  name : String
  opening : Option String
deriving DecidableEq, BEq, Repr

/-- The start of the names of layer files of the config type. -/
def ConfigType.fileOpening (configType : ConfigType) : String :=
  configType.opening.getD configType.name

/-- The settings of a configuration root. -/
structure Settings where
  configTypes : List ConfigType := [⟨"app", some "application"⟩, ⟨"deploy", some "deploy"⟩]
  protectedKeys : List String := []
  systemProperties : Dictionary String := .empty
  escapesBackslashes : Bool := false

/-- Why settings cannot be had. -/
inductive SettingsError where
  | unreadable (reason : String)
  | malformed (path reason : String)
  | invalid (path message : String)
deriving DecidableEq

/-- The message of the error. -/
def SettingsError.message : SettingsError → String
  | .unreadable reason => s!"Filesystem Error: {reason}"
  | .malformed path reason => s!"Error parsing TOML in '{path}': {reason}"
  | .invalid path message => s!"Invalid settings in '{path}': {message}"

/-- The messages of the errors that led to this one. -/
def SettingsError.causes : SettingsError → List String
  | .unreadable reason => [reason]
  | .malformed _ reason => [reason]
  | .invalid _ _ => []

namespace Settings

open Json (Value)

/-- The name of the settings file. -/
def fileName : String := "fleetcfg.toml"

/-- Reads a config type. -/
def readConfigType (value : Value) : Option ConfigType := do
  let fields ← Form.toml.fields? ["name", "file_prefix"] value
  return {
    name := ← (← fields.lookup "name").string?
    opening := ← Form.field? fields "file_prefix" (Form.nullable? Value.string?) none }

/-- Reads settings from the object that a document holds. -/
def read (value : Value) : Option Settings := do
  let fields ← Form.toml.fields?
    ["config_types", "non_overridable_keys", "system_properties", "windows_paths"] value
  let standard : Settings := {}
  return {
    configTypes := ← Form.field? fields "config_types" (fun
      | .array items => items.mapM readConfigType
      | _ => none) standard.configTypes
    protectedKeys := ← Form.field? fields "non_overridable_keys" Form.texts? []
    systemProperties := ←
      Form.field? fields "system_properties" (Form.dictionary? Value.string?) .empty
    escapesBackslashes := ← Form.field? fields "windows_paths" (fun
      | .bool value => some value
      | _ => none) false }

/-- Loads the settings of a root. A root without a settings file has the standard settings; a file
must list at least one config type, unless it leaves them out. -/
def load (tree : FileTree) (root : Path) : Except SettingsError Settings :=
  let path := root.join fileName
  if !tree.isFile path then .ok {}
  else
    match tree.read path with
    | .error reason => .error (.unreadable reason.message)
    | .ok document =>
      match (Toml.parse? document).bind fun entries => read (Toml.Value.table entries).toJson with
      | none => .error (.malformed path.text "the document does not have the form of settings")
      | some settings =>
        if settings.configTypes.isEmpty then
          .error (.invalid path.text "'config_types' must list at least one type")
        else .ok settings

/-- The name of the config type that is meant when none is named. -/
def defaultConfigType (settings : Settings) : String :=
  match settings.configTypes with
  | first :: _ => first.name
  | [] => "app"

/-- The config type of a name. -/
def configType? (settings : Settings) (name : String) : Option ConfigType :=
  settings.configTypes.find? (·.name == name)

end Settings

end DeployConfig
