import DeployConfig.Stores

/-!
# Fleets

A fleet is what configurations are made from: its config types, who answers for each of them, and
the sources as they are at one moment. From it come the configuration of a component
(`configuration`), the configurations of all components of an environment (`configurations`) and
the resolved form of a single value (`resolveValue`). Each of them lists what it consults.
-/

set_option autoImplicit false

namespace DeployConfig

/-- Why a configuration cannot be had. -/
inductive ConfigurationError where
  | environment (error : EnvironmentError)
  | supply (error : SupplyError)
  | property (root : Placed) (key : String) (cause : ResolutionError)
  | value (cause : ResolutionError)
  | unknownComponents (place : String) (names : List String)
deriving DecidableEq

/-- The message of the error. -/
def ConfigurationError.message : ConfigurationError → String
  | .environment error => error.message
  | .supply error => error.message
  | .property root key cause =>
    s!"Failed to resolve '{key}' of '{root.text}': {cause.message}"
  | .value cause => cause.message
  | .unknownComponents place names =>
    s!"Components not found in environment '{place}': " ++ ", ".intercalate names

/-- The messages of the errors that led to this one. -/
def ConfigurationError.causes : ConfigurationError → List String
  | .property _ _ cause => cause.message :: cause.causes
  | .value cause => cause.causes
  | _ => []

/-- The finished configuration of a component: the values of each config type, by key. -/
structure Configuration where
  component : Component
  environment : String
  values : Dictionary (Dictionary String)

/-- What configurations are made from. -/
structure Fleet where
  configTypes : List String
  informants : Dictionary (List Informant)
  protectedKeys : List String
  sources : Sources

namespace Fleet

/-- A computation of a fleet. -/
abbrev Run := Traced Consulted ConfigurationError

/-- The world of the fleet's resolutions. -/
def world (fleet : Fleet) : World :=
  .ofInformants fleet.sources fleet.informants fleet.protectedKeys

/-- A resolution as a computation of the fleet. -/
def resolving {α : Type} (fleet : Fleet) (errors : ResolutionError → ConfigurationError)
    (run : Traced Resolution.Event ResolutionError α) : Run α :=
  run.restate (·.flatMap (·.reads fleet.sources fleet.informants)) errors

/-- Consults the environments. -/
def consultEnvironments {α : Type} (result : Except EnvironmentError α) : Run α := do
  .note .environments
  (Traced.ofExcept result).restate id .environment

/-- The raw properties of a component. -/
def properties (fleet : Fleet) (key : SupplyKey) : Run PropertyMap := do
  .note (.properties key)
  (Traced.ofExcept (fleet.sources.properties key)).restate id .supply

/-- Resolves a value for the component that a reference means in an environment. -/
def resolveValue (fleet : Fleet) (steps : Nat) (value reference environment configType : String) :
    Run String := do
  let component ← consultEnvironments (fleet.sources.environments.component reference environment)
  fleet.resolving .value
    (Resolution.resolveValue fleet.world steps value ⟨component, environment⟩ configType)

/-- The resolved properties of a component for a config type. The transient ones are left out. -/
def values (fleet : Fleet) (steps : Nat) (root : Placed) (configType : String) :
    Run (Dictionary String) := do
  let properties ← fleet.properties ⟨root.component, root.environment, configType⟩
  let values ← (properties.entries.filter (!·.2.transient)).mapM fun (key, property) => do
    let value ← fleet.resolving (.property root key)
      (Resolution.resolve fleet.world steps property root configType)
    return (key, value)
  return .ofList values

/-- The configuration of a component. The first property that fails ends it. -/
def configuration (fleet : Fleet) (steps : Nat) (root : Placed) : Run Configuration := do
  let values ← fleet.configTypes.mapM fun configType => do
    let values ← fleet.values steps root configType
    return (configType, values)
  return ⟨root.component, root.environment, .ofList values⟩

/-- The configurations of the components of an environment, or only of those named in `only`. A
component that fails does not affect the others. -/
def configurations (fleet : Fleet) (steps : Nat) (name : String) (only : List String) :
    Run (List (Component × Except ConfigurationError Configuration)) := do
  let environment ← consultEnvironments (fleet.sources.environments.environment name)
  let unknown := only.filter fun wanted => (environment.componentNamed wanted).isNone
  if !unknown.isEmpty then .fail (.unknownComponents name unknown)
  else
    (environment.components.filter fun component =>
        only.isEmpty || only.contains component.name).mapM fun component => do
      let result ← (fleet.configuration steps ⟨component, name⟩).attempt
      return (component, result)

end Fleet

end DeployConfig
