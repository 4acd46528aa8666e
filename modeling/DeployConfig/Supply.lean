import DeployConfig.Memo
import DeployConfig.Supply.Declarations
import DeployConfig.Supply.Files

/-!
# The supply of properties

A supply gives the raw properties of a component in an environment for a config type, either from
declarations or from files. What it gives for one request it gives for every later request of the
same kind, whatever has become of the files.
-/

set_option autoImplicit false

namespace DeployConfig

/-- What properties are asked for. -/
structure SupplyKey where
  component : Component
  environment : String
  configType : String
deriving DecidableEq, BEq

/-- Where properties come from. -/
inductive Supply.Origin where
  | declared (declarations : Declarations)
  | files (configTypes : List ConfigType)

/-- A supply, with the answers it has given. -/
structure Supply where
  origin : Supply.Origin
  kept : Memo SupplyKey SupplyError PropertyMap

namespace Supply

/-- A supply that was not asked yet. -/
def of (origin : Origin) : Supply := ⟨origin, .empty⟩

/-- What the supply reads for a request that it has not answered before. -/
def load (supply : Supply) (files : LayerFiles) (key : SupplyKey) :
    Except SupplyError PropertyMap :=
  match supply.origin with
  | .declared declarations =>
    declarations.properties key.component key.environment key.configType
  | .files configTypes =>
    files.properties configTypes key.component key.environment key.configType

/-- The answer to a request at a moment when the files are `files`. -/
def properties (supply : Supply) (files : LayerFiles) (key : SupplyKey) :
    Except SupplyError PropertyMap :=
  (supply.kept.request key fun _ => supply.load files key).1.outcome

/-- The supply after it has given `answer` to a request. -/
def giving (supply : Supply) (key : SupplyKey) (answer : Except SupplyError PropertyMap) :
    Supply :=
  { supply with kept := (supply.kept.request key fun _ => answer).2 }

/-- The component types that the supply has properties for. -/
def types (supply : Supply) (files : LayerFiles) : List String :=
  match supply.origin with
  | .declared declarations => declarations.types
  | .files _ => (files.directories.current files.tree).keys

/-- The config types that the supply has properties for. -/
def configTypes (supply : Supply) : List String :=
  match supply.origin with
  | .declared declarations => declarations.configTypes
  | .files configTypes => configTypes.map (·.name)

/-- The properties in one environment, by component and config type. Those of the given components
and of whole component types are remembered. -/
def propertiesIn (supply : Supply) (files : LayerFiles) (environment : String)
    (components : List Component) :
    Remembered (Component × String) (Except SupplyError PropertyMap) :=
  let components := components ++ (supply.types files).map .ofType
  .of (components.flatMap fun component => supply.configTypes.map fun name => (component, name))
    fun (component, configType) => supply.properties files ⟨component, environment, configType⟩

/-- Remembering the properties in an environment changes none of them. -/
@[simp] theorem propertiesIn_apply (supply : Supply) (files : LayerFiles) (environment : String)
    (components : List Component) (component : Component) (configType : String) :
    supply.propertiesIn files environment components (component, configType) =
      supply.properties files ⟨component, environment, configType⟩ :=
  Remembered.value_of _ _ _

/-- Whether answering a request looks up directories of component types. -/
def asksDirectories (supply : Supply) (key : SupplyKey) : Bool :=
  match supply.origin with
  | .declared _ => false
  | .files configTypes =>
    (supply.kept.find? key).isNone && configTypes.any (·.name == key.configType)

end Supply

end DeployConfig
