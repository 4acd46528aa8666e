import DeployConfig.Text.Blank

/-!
# Names of layer files

A component keeps its layers for a config type in files whose names start with the prefix of the
type. `prefix.toml` applies to every environment, `prefix.dev.toml` to the environment `dev`, and
`prefix.dev.qa.toml` to each of the environments it lists. The more specific a file, the later its
layer; files for several environments come in the order of their names.
-/

set_option autoImplicit false

namespace DeployConfig

/-- How specific a layer file is. -/
inductive LayerRank where
  | everywhere
  | several
  | single
deriving DecidableEq, Repr

namespace LayerRank

/-- The place of a rank in the order of layers. -/
def toNat : LayerRank → Nat
  | everywhere => 0
  | several => 1
  | single => 2

/-- The characters of the parts of a layer file's name. -/
def isNameChar (c : Char) : Bool :=
  c.isAlphanum || c == '_' || c == '-'

/-- The parts of a layer file's name before its extension. Each is a word of ASCII letters, digits,
underscores and hyphens. -/
def parts? (fileName : String) : Option (List String) :=
  let parts := Text.splitAll (· == '.') fileName.toList
  match parts.getLast?, parts.dropLast with
  | some ['t', 'o', 'm', 'l'], first :: rest =>
    if (first :: rest).all fun part => !part.isEmpty && part.all isNameChar then
      some ((first :: rest).map String.ofList)
    else none
  | _, _ => none

/-- The rank of a file among the layers of an environment; none if it does not apply there. -/
def ofFileName? (fileName opening environment : String) : Option LayerRank :=
  match parts? fileName with
  | some (first :: environments) =>
    if first == opening then
      match environments with
      | [] => some everywhere
      | [only] => if only == environment then some single else none
      | environments => if environments.contains environment then some several else none
    else none
  | _ => none

/-- The order of layer files: by rank and then by name. -/
def le (first second : LayerRank × String) : Bool :=
  first.1.toNat < second.1.toNat ||
    (first.1.toNat == second.1.toNat && first.2 ≤ second.2)

/-- The names of the files that apply to an environment, in the order of their layers. -/
def select (fileNames : List String) (opening environment : String) : List String :=
  let ranked := fileNames.filterMap fun fileName =>
    (ofFileName? fileName opening environment).map fun rank => (rank, fileName)
  (ranked.mergeSort le).map (·.2)

end LayerRank

end DeployConfig
