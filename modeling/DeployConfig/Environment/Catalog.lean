import DeployConfig.Environment.Form
import DeployConfig.Environment.Index
import DeployConfig.FileTree
import DeployConfig.Json.Reader
import DeployConfig.Remembered
import DeployConfig.Toml.Reader

/-!
# Catalogs of environments

A catalog has its definitions in memory or in the files of a directory, each file defining the
environment it is named after. The files are read once, when an environment is first asked for;
later changes of the files do not show. What a catalog knows at one moment are its environments
(`Environments`), each of which is made when it is first asked for.
-/

set_option autoImplicit false

namespace DeployConfig

/-- Where definitions come from. -/
inductive EnvironmentCatalog.Origin where
  | memory (index : EnvironmentIndex)
  | directory (path : Path)

/-- A catalog; `held` is what was read at first use. -/
structure EnvironmentCatalog where
  origin : EnvironmentCatalog.Origin
  held : Option (Except EnvironmentError EnvironmentIndex)

/-- The environments of a catalog at one moment: their names and aliases, in order, and the
environment under each of them. -/
structure Environments where
  names : Except EnvironmentError (List String)
  environment : Remembered String (Except EnvironmentError Environment)

namespace Environments

/-- The environments of an index, if there is one. -/
def ofIndex (index : Except EnvironmentError EnvironmentIndex) : Environments :=
  let names := index.map (·.names)
  { names
    environment := .of (names.toOption.getD []) fun name => index.bind (·.environment name) }

/-- The environments of an index are those that the index makes. -/
@[simp] theorem environment_ofIndex (index : Except EnvironmentError EnvironmentIndex)
    (name : String) :
    (ofIndex index).environment name = index.bind (·.environment name) :=
  Remembered.value_of _ _ _

/-- The component that a reference means in an environment: the one of that name, or else the type.
In an environment that does not exist every reference means a type. -/
def component (environments : Environments) (reference name : String) :
    Except EnvironmentError Component :=
  match environments.environment name with
  | .ok environment =>
    .ok ((environment.componentNamed reference).getD (.ofType reference))
  | .error (.notFound _ _) => .ok (.ofType reference)
  | .error error => .error error

end Environments

namespace EnvironmentCatalog

/-- A catalog with definitions in memory. -/
def ofIndex (index : EnvironmentIndex) : EnvironmentCatalog := ⟨.memory index, none⟩

/-- A catalog with definitions in a directory, which has not been read yet. -/
def ofDirectory (path : Path) : EnvironmentCatalog := ⟨.directory path, none⟩

/-- Whether a path has the extension of a definition file. -/
def isDefinitionFile (path : Path) : Bool :=
  path.extension? == some "toml" || path.extension? == some "json"

/-- The definition that a document holds; the extension of its file tells its format. -/
def readDocument (path : Path) (document : String) : Option Environment.Definition :=
  if path.extension? == some "json" then
    (Json.parse? document).bind Form.json.environment?
  else
    (Toml.parse? document).bind fun entries =>
      Form.toml.environment? (Toml.Value.table entries).toJson

/-- What a definition file holds. -/
def readFile (tree : FileTree) (path : Path) : Registered where
  origin := path.text
  definition :=
    match tree.read path with
    | .error reason => .error (.unreadable path.text reason.message)
    | .ok document =>
      match readDocument path document with
      | some definition => .ok definition
      | none =>
        .error (.malformed path.text "the document does not have the form of a definition")

/-- Reads the definition files below a directory, in path order. -/
def readDirectory (tree : FileTree) (directory : Path) :
    Except EnvironmentError EnvironmentIndex :=
  let files := (tree.below directory).filterMap fun (path, entry) =>
    match entry with
    | .file _ => if isDefinitionFile path then some path else none
    | .directory => none
  (Path.sort files).foldlM (fun index path =>
    match path.stem? with
    | some name => index.register name (readFile tree path)
    | none => .ok index) .empty

/-- What the catalog knows when the files are as in `tree`. -/
def current (catalog : EnvironmentCatalog) (tree : FileTree) :
    Except EnvironmentError EnvironmentIndex :=
  match catalog.origin with
  | .memory index => .ok index
  | .directory path => catalog.held.getD (readDirectory tree path)

/-- The environments of the catalog when the files are as in `tree`. -/
def environments (catalog : EnvironmentCatalog) (tree : FileTree) : Environments :=
  .ofIndex (catalog.current tree)

/-- The catalog after an environment has been asked for. -/
def used (catalog : EnvironmentCatalog) (tree : FileTree) : EnvironmentCatalog :=
  { catalog with held := some (catalog.current tree) }

/-- What a catalog knew when it was first asked it goes on to know. -/
@[simp] theorem current_used (catalog : EnvironmentCatalog) (tree later : FileTree) :
    (catalog.used tree).current later = catalog.current tree := by
  obtain ⟨origin, held⟩ := catalog
  cases origin <;> rfl

end EnvironmentCatalog

end DeployConfig
