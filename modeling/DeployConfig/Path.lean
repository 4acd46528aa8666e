import DeployConfig.Text.Blank

/-!
# Paths

A path is kept as the text it was written as, because that text is shown in messages and values.
Its parts are the names between slashes. Paths are ordered part by part, so a directory's contents
stand together: `a/x` comes before `a-b/x`, although `-` is a smaller character than `/`.
-/

set_option autoImplicit false

namespace DeployConfig

/-- A path, as written. -/
structure Path where
  text : String
deriving DecidableEq, BEq, Hashable, Inhabited

namespace Path

/-- A path that starts at the root of the file system. -/
def isAbsolute (path : Path) : Bool :=
  path.text.startsWith "/"

/-- Everything between slashes, empty names included. -/
def pieces (path : Path) : List String :=
  (Text.splitAll (· == '/') path.text.toList).map String.ofList

/-- The names on the path. Empty names and single dots name nothing. -/
def parts (path : Path) : List String :=
  path.pieces.filter fun piece => piece != "" && piece != "."

/-- Continues `base` with `more`; an absolute `more` stands for itself. -/
def join (base : Path) (more : String) : Path :=
  if more.startsWith "/" then ⟨more⟩
  else if base.text == "" || base.text.endsWith "/" then ⟨base.text ++ more⟩
  else ⟨base.text ++ "/" ++ more⟩

/-- Whether one list of names stands before another or is equal to it. -/
def leParts : List String → List String → Bool
  | [], _ => true
  | _ :: _, [] => false
  | first :: more, second :: others =>
    first < second || (first == second && leParts more others)

/-- Whether `first` stands before `second` or is equal to it, part by part. -/
def le (first second : Path) : Bool :=
  leParts first.parts second.parts

/-- Puts paths in order. -/
def sort (paths : List Path) : List Path :=
  paths.mergeSort le

/-- The last name on the path, unless it leads upwards. -/
def fileName? (path : Path) : Option String :=
  match path.parts.getLast? with
  | some ".." => none
  | name? => name?

/-- Cuts a file name at its last dot. A name with no dot, or with its only dot in front, has no
extension. -/
def cutName (name : String) : String × Option String :=
  let characters := name.toList
  match Text.cut? (· == '.') characters.reverse with
  | some (extension, stem) =>
    if stem.isEmpty then (name, none)
    else (String.ofList stem.reverse, some (String.ofList extension.reverse))
  | none => (name, none)

/-- The file name without its extension. -/
def stem? (path : Path) : Option String :=
  path.fileName?.map fun name => (cutName name).1

/-- What follows the last dot of the file name. -/
def extension? (path : Path) : Option String :=
  path.fileName?.bind fun name => (cutName name).2

/-- The text with every backslash turned into a slash. -/
def withSlashes (path : Path) : String :=
  Text.substitute '\\' '/' path.text

/-- The path seen from the root of the file system, when the working directory is `directory`.
Nothing is looked up: names that lead upwards stay. Two leading slashes and a slash at the end keep
their meaning. The empty path has no absolute form and stays empty. -/
def absolute (directory path : Path) : Path :=
  if path.text == "" then path
  else
    let start : Path :=
      if path.text.startsWith "///" then ⟨"/"⟩
      else if path.text.startsWith "//" then ⟨"//"⟩
      else if path.isAbsolute then ⟨"/"⟩
      else directory
    let whole := path.parts.foldl join start
    if path.text.endsWith "/" then whole.join "" else whole

end Path

end DeployConfig
