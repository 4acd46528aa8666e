import DeployConfig.Resolution
import DeployConfig.Informant

/-!
# Stores

The sources of a configuration keep what they gave: the environments and the directories of
component types are read when they are first consulted, and the properties of a component are read
once for each environment and config type. So what a computation consulted has to be noted when it
is over, before the files change (`Stores.settled`).
-/

set_option autoImplicit false

namespace DeployConfig

/-- The sources of a configuration, with what they keep. -/
structure Stores where
  catalog : EnvironmentCatalog
  directories : ComponentDirectories
  supply : Supply

namespace Stores

/-- The properties in each environment, by component and config type. -/
def properties (stores : Stores) (files : LayerFiles) (environments : Environments) :
    Remembered String (Remembered (Component × String) (Except SupplyError PropertyMap)) :=
  .of (environments.names.toOption.getD []) fun name =>
    let components :=
      match environments.environment name with
      | .ok environment => environment.components
      | .error _ => []
    stores.supply.propertiesIn files name components

/-- The sources when the files are as in `tree`. What they give is worked out when it is first asked
for, and then kept. -/
def sources (stores : Stores) (tree : FileTree) : Sources :=
  let environments := stores.catalog.environments tree
  let directories := stores.directories.used tree
  let properties := stores.properties (.of tree directories) environments
  { environments
    directory := directories.directory tree
    properties := fun key => properties key.environment (key.component, key.configType) }

/-- The sources give the properties that the supply gives for the files of the moment. -/
theorem properties_sources (stores : Stores) (tree : FileTree) (key : SupplyKey) :
    (stores.sources tree).properties key =
      stores.supply.properties (.of tree (stores.directories.used tree)) key := by
  simp [sources, properties]

/-- The stores after a source has been consulted. -/
def consult (tree : FileTree) (sources : Sources) (stores : Stores) : Consulted → Stores
  | .environments => { stores with catalog := stores.catalog.used tree }
  | .directories => { stores with directories := stores.directories.used tree }
  | .properties key =>
    { stores with
      supply := stores.supply.giving key (sources.properties key)
      directories :=
        if stores.supply.asksDirectories key then stores.directories.used tree
        else stores.directories }

/-- The stores after several sources have been consulted. -/
def settled (stores : Stores) (tree : FileTree) (consulted : List Consulted) : Stores :=
  consulted.foldl (consult tree (stores.sources tree)) stores

end Stores

/-- What a resolution consults when it goes through an event. -/
def Resolution.Event.reads (sources : Sources) (informants : Dictionary (List Informant)) :
    Resolution.Event → List Consulted
  | .met .. | .entered .. => []
  | .located .. => [.environments]
  | .asked configType query =>
    Informant.readsInTurn sources query ((informants.get? configType).getD [])

end DeployConfig
