import DeployConfig.Environment.Catalog
import DeployConfig.Supply

/-!
# Informants

An informant answers the question for the value of a key of a component in an environment, or
declines. Some components are reserved for values of the host; the identity of a component and
its place in the environment answer fixed keys; everything else is looked up among its properties.
Several informants are tried in order, and the first answer counts (`firstAnswer`).

What an informant consults is told by `reads`, because a source keeps what it gave when it was first
consulted.
-/

set_option autoImplicit false

namespace DeployConfig

/-- The question for a key of a component in an environment. -/
structure Query where
  component : Component
  key : String
  environment : String
deriving DecidableEq

/-- Why a question cannot be answered. -/
inductive LookupError where
  | environment (error : EnvironmentError)
  | supply (error : SupplyError)
deriving DecidableEq

/-- The message of the error. -/
def LookupError.message : LookupError → String
  | .environment error => error.message
  | .supply error => error.message

/-- What informants consult. -/
structure Sources where
  environments : Environments
  directory : String → Path
  properties : SupplyKey → Except SupplyError PropertyMap

/-- A part of the sources. -/
inductive Consulted where
  | environments
  | directories
  | properties (key : SupplyKey)

/-! ## Keys with fixed answers -/

/-- The key of a component's name. -/
def nameKey : String := "name"

/-- The key of the directory with the files of a component's type. -/
def configDirKey : String := "configDir"

/-- The key of the directory that a component's configuration is written to. -/
def resultDirKey : String := "resultDir"

/-- The key of the configuration root. -/
def configRootKey : String := "configRoot"

/-- The key of a component's index in its group. -/
def orderKey : String := "order"

/-- The key of the name of the environment. -/
def environmentKey : String := "env"

/-- The key of the name of a component's group. -/
def groupKey : String := "group"

/-- The key of the address of a component's group. -/
def ipKey : String := "ip"

/-- The key of the port offset of the environment. -/
def portOffsetKey : String := "portOffset"

/-- The keys with fixed answers. A component never takes them over from another one. -/
def fixedKeys : List String :=
  [nameKey, configDirKey, resultDirKey, configRootKey, orderKey, environmentKey, groupKey, ipKey,
    portOffsetKey]

/-! ## Answers -/

/-- A way to answer questions. -/
inductive Informant where
  /-- Answers for one reserved component from fixed values. -/
  | reserved (name : String) (values : Dictionary String) (escapesBackslashes : Bool)
  /-- Answers what is known of a component wherever it is deployed. -/
  | identity (root destination : Path)
  /-- Answers from the place of a component in the environment. -/
  | descriptor
  /-- Answers from the properties of a component for a config type. -/
  | properties (configType : String)

namespace Informant

/-- What is known of a component wherever it is deployed. -/
def identityValue? (sources : Sources) (root destination : Path) (component : Component)
    (key : String) : Option String :=
  if key == nameKey then some component.name
  else if key == configDirKey then some (sources.directory component.type).withSlashes
  else if key == resultDirKey then some (destination.join component.name).withSlashes
  else if key == configRootKey then some root.withSlashes
  else none

/-- What the place of a component in an environment tells. The properties of its group come before
those of the environment. -/
def descriptorValue? (environment : Environment) (position : Position) (key : String) :
    Option String :=
  if key == orderKey then some (toString position.index)
  else if key == environmentKey then some environment.name
  else if key == groupKey then some position.group.name
  else if key == ipKey then position.group.ip
  else if key == portOffsetKey then environment.portOffset.map toString
  else (position.group.properties.get? key).or (environment.properties.get? key)

/-- The answer from the place of a component in an environment. An environment that does not exist
has no answers. -/
def describe (environments : Environments) (query : Query) :
    Except LookupError (Option Property) :=
  match environments.environment query.environment with
  | .error (.notFound _ _) => .ok none
  | .error error => .error (.environment error)
  | .ok environment =>
    match environment.locate query.component.name with
    | none => .ok none
    | some position =>
      .ok <| (descriptorValue? environment position query.key).map fun value =>
        ⟨query.key, value, query.environment, false,
          .special query.component s!"environment {environment.name}"⟩

/-- The answer of an informant; `none` when it declines. -/
def answer (sources : Sources) (query : Query) : Informant → Except LookupError (Option Property)
  | .reserved name values escapesBackslashes =>
    if query.component.name != name then .ok none
    else
      .ok <| (values.get? query.key).map fun value =>
        let property : Property :=
          ⟨query.key, value, query.environment, true, .special query.component name⟩
        if escapesBackslashes then property.escapeBackslashes else property
  | .identity root destination =>
    .ok <| (identityValue? sources root destination query.component query.key).map fun value =>
      ⟨query.key, value, query.environment, false, .special query.component "identity"⟩
  | .descriptor => describe sources.environments query
  | .properties configType =>
    match sources.properties ⟨query.component, query.environment, configType⟩ with
    | .error error => .error (.supply error)
    | .ok found => .ok (found.get? query.key)

/-- What an informant consults for its answer. -/
def reads (query : Query) : Informant → Option Consulted
  | .reserved .. => none
  | .identity .. => if query.key == configDirKey then some .directories else none
  | .descriptor => some .environments
  | .properties configType =>
    some (.properties ⟨query.component, query.environment, configType⟩)

/-- The first answer of several informants. An error comes before all answers of later ones. -/
def firstAnswer (sources : Sources) (query : Query) :
    List Informant → Except LookupError (Option Property)
  | [] => .ok none
  | informant :: rest =>
    match informant.answer sources query with
    | .ok none => firstAnswer sources query rest
    | answered => answered

/-- What several informants consult up to the first answer. -/
def readsInTurn (sources : Sources) (query : Query) : List Informant → List Consulted
  | [] => []
  | informant :: rest =>
    (informant.reads query).toList ++
      match informant.answer sources query with
      | .ok none => readsInTurn sources query rest
      | _ => []

end Informant

end DeployConfig
