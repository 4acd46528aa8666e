import DeployConfig.Layer.Assembly
import DeployConfig.Decimal.Shortest
import DeployConfig.Toml.Value

/-!
# The contents of layer files

A layer file is a TOML table. `_include` lists the component types it includes, the table `_vars`
holds transient properties, and everything else is a property. Nested tables are flattened: the key
of a value is the path to it, joined by dots. An array of scalars is one value, its texts joined by
commas; any other array is flattened by the numbers of its items.
-/

set_option autoImplicit false

namespace DeployConfig.Layer

open Toml (Value)

/-- The key of the table of transient properties. -/
def varsKey : String := "_vars"

/-- Whether a value is neither a table nor an array. -/
def isScalar : Value → Bool
  | .table _ => false
  | .array _ => false
  | _ => true

/-- The text of a scalar. -/
def scalarText : Value → String
  | .string value => value
  | .integer value => toString value
  | .float value => Decimal.ofFloat value
  | .boolean value => if value then "true" else "false"
  | .datetime value => value.text
  | .misfit => ""
  | .array _ => ""
  | .table _ => ""

mutual

/-- The entries of a value under a key. -/
def flatten (transient : Bool) (key : String) : Value → List Entry
  | .table entries => flattenEntries transient key entries
  | .array items =>
    if items.all isScalar then [⟨key, ",".intercalate (items.map scalarText), transient⟩]
    else flattenItems transient key 0 items
  | value => [⟨key, scalarText value, transient⟩]

/-- The entries of the values of a table. -/
def flattenEntries (transient : Bool) (key : String) : List (String × Value) → List Entry
  | [] => []
  | (child, value) :: rest =>
    flatten transient (key ++ "." ++ child) value ++ flattenEntries transient key rest

/-- The entries of the items of an array, from number `index` on. -/
def flattenItems (transient : Bool) (key : String) (index : Nat) : List Value → List Entry
  | [] => []
  | item :: rest =>
    flatten transient (key ++ "." ++ toString index) item ++
      flattenItems transient key (index + 1) rest

end

/-- The entries of one key of a layer file. Includes are no entries. -/
def entriesOf (key : String) (value : Value) : List Entry :=
  if key == includeKey then []
  else if key == varsKey then
    match value with
    | .table entries => entries.flatMap fun (name, value) => flatten true name value
    | value => flatten false key value
  else flatten false key value

/-- Reads one item of the includes. -/
def readInclude (path : Path) (item : String) : Except SupplyError Include :=
  match Include.parse? item with
  | some other => .ok other
  | none => .error (.invalidInclude path.text s!"malformed entry '{item}'")

/-- Reads the includes of a layer file: a text or a list of texts. -/
def readIncludes (path : Path) : Value → Except SupplyError (List Include)
  | .string item => do return [← readInclude path item]
  | .array items => do
    let texts ← items.mapM fun
      | .string item => .ok item
      | _ => .error (.invalidInclude path.text "expected a list of strings")
    texts.mapM (readInclude path)
  | _ => .error (.invalidInclude path.text "expected a string or a list of strings")

/-- The layer that a file holds. -/
def ofTable (path : Path) (table : List (String × Value)) : Except SupplyError Layer := do
  let includes ←
    match table.lookup includeKey with
    | some value => readIncludes path value
    | none => .ok []
  return ⟨some path, includes, table.flatMap fun (key, value) => entriesOf key value⟩

end DeployConfig.Layer
