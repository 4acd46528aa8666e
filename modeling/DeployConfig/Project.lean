import DeployConfig.Fleet
import DeployConfig.Host
import DeployConfig.Settings

/-!
# Projects

A project is a directory with the settings, the environments and the components of a fleet, opened
on a host. Everything of a project but its settings is read when it is needed.
-/

set_option autoImplicit false

namespace DeployConfig

/-- A project that has been opened. -/
structure Project where
  root : Path
  destination : Path
  settings : Settings
  host : Host
  stores : Stores

/-- Why a project cannot be opened. -/
inductive OpenError where
  | inaccessible (path reason : String)
  | settings (error : SettingsError)
deriving DecidableEq

/-- The message of the error. -/
def OpenError.message : OpenError → String
  | .inaccessible path reason => s!"Config root '{path}' is not accessible: {reason}"
  | .settings error => error.message

/-- The messages of the errors that led to this one. -/
def OpenError.causes : OpenError → List String
  | .inaccessible _ reason => [reason]
  | .settings error => error.causes

namespace Project

/-- The directory of environments below the root. -/
def environmentsName : String := "envs"

/-- The directory of components below the root. -/
def componentsName : String := "components"

/-- The directory below the root that configurations are written to when none is given. -/
def destinationName : String := "build"

/-- The path of a project's root without detours, if it exists. -/
def canonicalRoot (tree : FileTree) (directory root : Path) : Except OpenError Path :=
  let missing := OpenError.inaccessible root.text FileTree.Unreadable.missing.message
  if root.text == "" then .error missing
  else
    match tree.locate (directory.join root.text) with
    | some address => .ok (FileTree.pathOf address)
    | none => .error missing

/-- Opens a project. The given system properties come before those of the settings. -/
def openAt (tree : FileTree) (host : Host) (root : Path) (destination : Option Path)
    (systemProperties : Dictionary String) : Except OpenError Project := do
  let root ← canonicalRoot tree host.directory root
  let settings ← (Settings.load tree root).mapError .settings
  let settings :=
    { settings with systemProperties := systemProperties.layeredOver settings.systemProperties }
  return {
    root, settings, host
    destination :=
      match destination with
      | some path => Path.absolute host.directory path
      | none => root.join destinationName
    stores := {
      catalog := .ofDirectory (root.join environmentsName)
      directories := .below (root.join componentsName)
      supply := .of (.files settings.configTypes) } }

/-- The informants of a config type, in order. -/
def informants (project : Project) (configType : String) : List Informant :=
  let settings := project.settings
  [ .reserved Host.systemName (settings.systemProperties.layeredOver project.host.facts)
      settings.escapesBackslashes,
    .reserved Host.variablesName (.ofList project.host.bindings.texts)
      settings.escapesBackslashes,
    .identity project.root project.destination,
    .descriptor,
    .properties configType ]

/-- The fleet of a project when its files are as in `tree`. -/
def fleet (project : Project) (tree : FileTree) : Fleet :=
  let names := project.settings.configTypes.map (·.name)
  { configTypes := names
    informants := .ofList (names.map fun name => (name, project.informants name))
    protectedKeys := fixedKeys ++ project.settings.protectedKeys
    sources := project.stores.sources tree }

/-- The project after a computation has consulted its sources. -/
def settled (project : Project) (tree : FileTree) (consulted : List Consulted) : Project :=
  { project with stores := project.stores.settled tree consulted }

end Project

end DeployConfig
