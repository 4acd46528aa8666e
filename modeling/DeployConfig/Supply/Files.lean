import DeployConfig.Layer.Contents
import DeployConfig.Layer.FileName
import DeployConfig.Remembered
import DeployConfig.Settings
import DeployConfig.Supply.Directories

/-!
# Properties from files

The layers of a component type are files in its directory. Which of them apply to an environment,
and in which order, is told by their names (`LayerRank.select`); what they hold, by their contents
(`Layer.ofTable`). Components of one type share their files, so each file is read at most once.
-/

set_option autoImplicit false

namespace DeployConfig

/-- The files of component types at one moment, with the layer that each of them holds. -/
structure LayerFiles where
  tree : FileTree
  directories : ComponentDirectories
  layer : Remembered Path (Except SupplyError Layer)

namespace LayerFiles

/-- The layer that a file holds. -/
def readLayer (tree : FileTree) (path : Path) : Except SupplyError Layer :=
  match tree.read path with
  | .error reason => .error (.unreadable path.text reason.message)
  | .ok document =>
    match (Toml.parse? document).bind Toml.Value.entriesChecked? with
    | some table => Layer.ofTable path table
    | none => .error (.malformed path.text "the document does not have the form of a layer")

/-- A file holds a layer exactly when its document holds a table that is one. -/
theorem readLayer_eq_ok_iff {tree : FileTree} {path : Path} {layer : Layer} :
    readLayer tree path = .ok layer ↔
      ∃ document table, tree.read path = .ok document ∧
        (Toml.parse? document).bind Toml.Value.entriesChecked? = some table ∧
        Layer.ofTable path table = .ok layer := by
  unfold readLayer
  constructor
  · intro read
    split at read
    · cases read
    · next document held =>
      split at read
      · next table found => exact ⟨document, table, held, found, read⟩
      · cases read
  · rintro ⟨document, table, held, found, holds⟩
    simp only [held, found, holds]

/-- The files in the directories of component types when they are as in `tree`. -/
def of (tree : FileTree) (directories : ComponentDirectories) : LayerFiles where
  tree := tree
  directories := directories
  layer := .of (directories.files tree) (readLayer tree)

/-- Reading each file at most once changes none of the layers. -/
@[simp] theorem layer_of (tree : FileTree) (directories : ComponentDirectories) (path : Path) :
    (of tree directories).layer path = readLayer tree path :=
  Remembered.value_of _ _ _

/-- The layers in the directory of a component type that apply to an environment. -/
def layers (files : LayerFiles) (opening type environment : String) :
    Except SupplyError (List Layer) :=
  let directory := files.directories.directory files.tree type
  if files.tree.isDirectory directory then
    (LayerRank.select (files.tree.namesIn directory) opening environment).mapM fun fileName =>
      files.layer (directory.join fileName)
  else .ok []

/-- The properties of a component, for a config type among `configTypes`. -/
def properties (files : LayerFiles) (configTypes : List ConfigType) (component : Component)
    (environment configType : String) : Except SupplyError PropertyMap :=
  match configTypes.find? (·.name == configType) with
  | none => .error (.unknownConfigType configType)
  | some found => Assembly.assembled (files.layers found.fileOpening) component environment

end LayerFiles

end DeployConfig
