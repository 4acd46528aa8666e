import DeployConfig.Dictionary
import DeployConfig.FileTree

/-!
# Directories of component types

The files of a component type stand in a directory named like the type, anywhere below the
directory of all components. Of several directories with one name the first in path order counts. A
type without a directory has the place where its directory would be.

The directories are looked up once, when the first of them is asked for; later changes of the files
do not show.
-/

set_option autoImplicit false

namespace DeployConfig

/-- The directories of component types below `root`; `held` is what was found at first use. -/
structure ComponentDirectories where
  root : Path
  held : Option (Dictionary Path)

namespace ComponentDirectories

/-- Directories of which none has been asked for yet. -/
def below (root : Path) : ComponentDirectories := ⟨root, none⟩

/-- Adds a directory under its name, unless the name is taken. -/
def add (found : Dictionary Path) (directory : Path) : Dictionary Path :=
  match directory.fileName? with
  | some name => if found.contains name then found else found.insert name directory
  | none => found

/-- The directories below a root, by name. -/
def find (tree : FileTree) (root : Path) : Dictionary Path :=
  let directories := (tree.below root).filterMap fun (path, entry) =>
    match entry with
    | .directory => some path
    | .file _ => none
  (Path.sort directories).foldl add .empty

/-- What is known of the directories when the files are as in `tree`. -/
def current (directories : ComponentDirectories) (tree : FileTree) : Dictionary Path :=
  directories.held.getD (find tree directories.root)

/-- The directory of a component type. -/
def directory (directories : ComponentDirectories) (tree : FileTree) (type : String) : Path :=
  ((directories.current tree).get? type).getD (directories.root.join type)

/-- The files below the root when they are as in `tree`. -/
def files (directories : ComponentDirectories) (tree : FileTree) : List Path :=
  (tree.below directories.root).filterMap fun (path, entry) =>
    match entry with
    | .directory => none
    | .file _ => some path

/-- The directories after one has been asked for. -/
def used (directories : ComponentDirectories) (tree : FileTree) : ComponentDirectories :=
  { directories with held := some (directories.current tree) }

end ComponentDirectories

end DeployConfig
