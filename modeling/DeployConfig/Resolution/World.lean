import DeployConfig.Placeholder
import DeployConfig.Informant

/-!
# What a resolution asks, and how it fails

A resolution sees its surroundings as a `World`: which component a reference means in an
environment, who answers questions for each config type, and which keys a component never takes
over from another one. Every error of a resolution names the component that it is made for, its
root.
-/

set_option autoImplicit false

namespace DeployConfig

/-- Answers questions for one config type; `none` when there is no answer. -/
abbrev Answerer := Query → Except LookupError (Option Property)

/-- The surroundings of a resolution. -/
structure World where
  /-- The component that a reference means in an environment. -/
  locate : String → String → Except EnvironmentError Component
  answerers : Dictionary Answerer
  protectedKeys : List String

namespace World

/-- The world in which the informants of each config type answer from `sources`. -/
def ofInformants (sources : Sources) (informants : Dictionary (List Informant))
    (protectedKeys : List String) : World where
  locate := sources.environments.component
  answerers := informants.map fun inTurn query => Informant.firstAnswer sources query inTurn
  protectedKeys := protectedKeys

/-- The config types that have an answerer, in order. -/
def configTypes (world : World) : List String :=
  world.answerers.keys

end World

/-- Why a value cannot be resolved. -/
inductive ResolutionError where
  /-- Nobody answers the placeholder, and it has no default. -/
  | unresolved (placeholder : Placeholder) (property : Property) (root : Placed)
  /-- The last placeholder of the chain is being expanded already. -/
  | cyclic (chain : List Placeholder) (property : Property) (root : Placed)
  | unsupportedConfigType (name : String) (configured : List String)
  | tooDeep (limit : Nat) (property : Property) (root : Placed)
  | lookup (placeholder : Placeholder) (cause : LookupError)
deriving DecidableEq

/-- The message of the error. -/
def ResolutionError.message : ResolutionError → String
  | .unresolved placeholder property root =>
    s!"Could not resolve placeholder '{placeholder.text}' in property '{property.key}' " ++
      s!"({property.source.text}) while building '{root.text}'."
  | .cyclic chain property root =>
    s!"Found cyclic dependencies in property '{property.key}' while building '{root.text}': " ++
      " -> ".intercalate (chain.map (·.explicit.text))
  | .unsupportedConfigType name configured =>
    s!"Unsupported config type '{name}'. Configured types: [" ++ ", ".intercalate configured ++ "]"
  | .tooDeep limit property root =>
    s!"Maximum resolution depth ({limit}) exceeded in property '{property.key}' " ++
      s!"while building '{root.text}'."
  | .lookup placeholder cause => s!"Lookup of '{placeholder.text}' failed: {cause.message}"

/-- The messages of the errors that led to this one. -/
def ResolutionError.causes : ResolutionError → List String
  | .lookup _ cause => [cause.message]
  | _ => []

end DeployConfig
