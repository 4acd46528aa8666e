import DeployConfig.CommandLine.Arguments
import DeployConfig.Json.Printer
import DeployConfig.Project

/-!
# The command line

Runs a command on the files of a snapshot and gives what the program prints. Results go to the
standard output. An error is printed with everything that led to it and makes the program fail; so
does a component that cannot be built, although the others are printed.
-/

set_option autoImplicit false

namespace DeployConfig.CommandLine

/-- What the program prints, and its exit code. -/
structure Output where
  exitCode : Nat
  stdout : String := ""
  stderr : String := ""

namespace Output

/-- The output of a command that succeeded. -/
def success (stdout : String) : Output := { exitCode := 0, stdout }

/-- Adds the end of a command that failed: an error, after the contexts it arose in and before the
errors that led to it. -/
def failing (output : Output) (chain : List String) : Output :=
  { output with
    exitCode := 1
    stderr := output.stderr ++ "\nError: " ++ ": ".intercalate chain ++ "\n" }

/-- The output of a command that failed at once. -/
def failure (chain : List String) : Output :=
  failing { exitCode := 1 } chain

end Output

/-! ## Opening the project -/

/-- Reads the system properties that are defined on the command line. Of several definitions of a
key the last one counts. -/
def readDefines (defines : List String) : Except (List String) (Dictionary String) := do
  let source : Source := .special (.ofType Host.systemName) "command line"
  let entries ← defines.mapM fun define =>
    match Property.parse define "" source with
    | .ok property => .ok (property.key, property.value)
    | .error error => .error [s!"Invalid -D flag '{define}'", error.message]
  return .ofList entries

/-- Opens the project that the options name. -/
def openProject (host : Host) (tree : FileTree) (globals : Globals) :
    Except (List String) Project := do
  let expand (written : String) : Except (List String) Path :=
    (Path.expand host.bindings written).mapError fun error => [error.message]
  let root ← expand globals.root
  let destination ← globals.destination.mapM expand
  let defines ← readDefines globals.defines
  (Project.openAt tree host root destination defines).mapError fun error =>
    s!"Could not open config root '{root.text}'" :: error.message :: error.causes

/-! ## Commands -/

/-- The result of a computation of a fleet. -/
def finish {α : Type} (run : Fleet.Run α) (contexts : List String) : Except (List String) α :=
  match run.outcome with
  | .done value => .ok value
  | .failed error => .error (contexts ++ error.message :: error.causes)
  | .unfinished => .error (contexts ++ ["The resolution does not come to an end."])

/-- Prints the names of the environments. -/
def listEnvironments (project : Project) (fleet : Fleet) : Except (List String) Output :=
  match fleet.sources.environments.names with
  | .error error => .error [error.message]
  | .ok [] => .ok (.success s!"No environments found under '{project.root.text}'.\n")
  | .ok names => .ok (.success (String.join (names.map (· ++ "\n"))))

/-- A configuration as a listing of keys and values. Config types without values are left out. -/
def listing (configuration : Configuration) : String :=
  let sections := configuration.values.entries.map fun (configType, values) =>
    if values.entries.isEmpty then ""
    else
      s!"  [{configType}]\n" ++
        String.join (values.entries.map fun (key, value) => s!"    {key} = {value}\n")
  s!"\n--- {configuration.component.name} [{configuration.environment}] ---\n" ++
    String.join sections

/-- A configuration as a JSON object. -/
def toJson (configuration : Configuration) : Json.Value :=
  let component := configuration.component
  let texts (values : Dictionary String) : Json.Value :=
    .object (values.entries.map fun (key, value) => (key, .string value))
  .object
    [ ("component",
        .object [("name", .string component.name), ("component_type", .string component.type)]),
      ("environment", .string configuration.environment),
      ("config_types",
        .object (configuration.values.entries.map fun (name, values) => (name, texts values))) ]

/-- Prints the configurations of an environment, and the components that failed. -/
def build (fleet : Fleet) (environment : String) (components : List String) (json : Bool) :
    Except (List String) Output := do
  let results ←
    finish (fleet.configurations Resolution.standardSteps environment components) []
  let built := results.filterMap fun (_, result) => result.toOption
  let failures := results.filterMap fun (component, result) =>
    match result with
    | .ok _ => none
    | .error error => some s!"✖ {component.name}: {error.message}\n"
  let stdout :=
    if json then (Json.Value.array (built.map toJson)).pretty "" ++ "\n"
    else String.join (built.map listing)
  if failures.isEmpty then return .success stdout
  else
    let output : Output := { exitCode := 1, stdout, stderr := String.join failures }
    return output.failing
      [s!"{failures.length} of {results.length} components of '{environment}' failed to build."]

/-- Prints a value resolved for a component. -/
def resolve (project : Project) (fleet : Fleet) (environment component value : String)
    (configType : Option String) : Except (List String) Output := do
  let settings := project.settings
  match configType with
  | some name =>
    if (settings.configType? name).isNone then
      .error [s!"Unknown config type '{name}'. Configured types: [" ++
        ", ".intercalate (settings.configTypes.map (·.name)) ++ "]"]
  | none => pure ()
  let text ← finish
    (fleet.resolveValue Resolution.standardSteps value component environment
      (configType.getD settings.defaultConfigType))
    [s!"Could not resolve '{value}' for '{component}[{environment}]'"]
  return .success (text ++ "\n")

/-- Runs a command. -/
def perform (host : Host) (tree : FileTree) (request : Request) :
    Except (List String) Output := do
  let project ← openProject host tree request.globals
  let fleet := project.fleet tree
  match request.command with
  | .envs => listEnvironments project fleet
  | .build environment components json => build fleet environment components json
  | .resolve environment component value configType =>
    resolve project fleet environment component value configType

/-! ## The program -/

/-- The name and version of the program. -/
def versionText : String := "fleetcfg 0.1.0\n"

/-- How the program is called. -/
def usageText : String :=
  "Usage: fleetcfg [OPTIONS] envs\n" ++
  "       fleetcfg [OPTIONS] build [-c NAME]... [--json] ENV\n" ++
  "       fleetcfg [OPTIONS] resolve [-t TYPE] ENV COMPONENT VALUE\n" ++
  "\n" ++
  "Options:\n" ++
  "  -r, --root PATH         the config root (default: .)\n" ++
  "  -d, --destination PATH  the output directory (default: build in the root)\n" ++
  "  -D KEY=VALUE            a system property; may be repeated\n" ++
  "  -c, --component NAME    build only this component; may be repeated\n" ++
  "      --json              print JSON\n" ++
  "  -t, --config-type TYPE  the config type of unqualified references\n" ++
  "  -h, --help              print this text\n" ++
  "  -V, --version           print the version\n"

/-- The files that the program reads. -/
def filesRead (host : Host) (arguments : List String) : List Path :=
  match Request.read arguments with
  | .error _ => []
  | .ok request =>
    match Path.expand host.bindings request.globals.root with
    | .error _ => []
    | .ok root =>
      let root := host.directory.join root.text
      root :: [Settings.fileName, Project.environmentsName, Project.componentsName].map root.join

/-- Runs the program on the files of a snapshot. -/
def run (host : Host) (tree : FileTree) (arguments : List String) : Output :=
  match Request.read arguments with
  | .error .version => .success versionText
  | .error .help => .success usageText
  | .error (.usage message) =>
    { exitCode := 2, stderr := s!"error: {message}\n\n" ++ usageText }
  | .ok request =>
    match perform host tree request with
    | .ok output => output
    | .error chain => .failure chain

end DeployConfig.CommandLine
