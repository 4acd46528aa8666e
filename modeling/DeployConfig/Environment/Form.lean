import DeployConfig.Environment.Definition
import DeployConfig.Json.Value

/-!
# The form of definition documents

A definition is written as an object whose members are the fields of the definition. It may also be
written as the list of its fields in the order of their declaration; fields at the end that have a
default may then be missing. A field that is not known, that is written twice or that has a value
of another kind makes the whole document unfit, and so does a missing name. Whether a list may be
longer than the fields it gives depends on the format of the document.
-/

set_option autoImplicit false

namespace DeployConfig

/-- How strictly a format reads a list of fields. -/
structure Form where
  /-- Whether items behind the last field are refused. -/
  refusesExtraItems : Bool

namespace Form

open Json (Value)

/-- The fields written in a value, by name. -/
def fields? (form : Form) (names : List String) : Value → Option (List (String × Value))
  | .object members =>
    let written := members.map (·.1)
    if written.all names.contains && written.eraseDups.length == written.length then some members
    else none
  | .array items =>
    if form.refusesExtraItems && items.length > names.length then none
    else some (names.zip items)
  | _ => none

/-- Reads a field that may be missing. -/
def field? {α : Type} (fields : List (String × Value)) (name : String) (read : Value → Option α)
    (default : α) : Option α :=
  match fields.lookup name with
  | none => some default
  | some value => read value

/-- Reads a value that may be null. -/
def nullable? {α : Type} (read : Value → Option α) : Value → Option (Option α)
  | .null => some none
  | value => (read value).map some

/-- Reads a list of texts. -/
def texts? : Value → Option (List String)
  | .array items => items.mapM Value.string?
  | _ => none

/-- Whether a whole number is a signed one of 64 bits. -/
def isSigned (value : Int) : Bool :=
  Int64.minValue.toInt ≤ value && value ≤ Int64.maxValue.toInt

/-- Reads a whole number of 64 bits. -/
def integer? : Value → Option Int
  | .integer value => if isSigned value then some value else none
  | _ => none

/-- Reads a scalar. A whole number of 64 bits that is too large for a signed one is a double. -/
def scalar? : Value → Option Scalar
  | .string value => some (.text value)
  | .integer value =>
    if isSigned value then some (.integer value)
    else if 0 ≤ value && value < UInt64.size then
      some (.float value.toNat.toUInt64.toFloat)
    else none
  | .float value => some (.float value)
  | .bool value => some (.boolean value)
  | _ => none

/-- Reads an object with members of one kind; of members with the same name the last counts. -/
def dictionary? {α : Type} (read : Value → Option α) : Value → Option (Dictionary α)
  | .object members => do
    let entries ← members.mapM fun (name, value) => (read value).map fun value => (name, value)
    return .ofList entries
  | _ => none

/-- Reads what a definition includes. -/
def inclusion? (form : Form) (value : Value) : Option Environment.Inclusion := do
  let fields ← form.fields? ["env", "exclude_groups"] value
  let environment ← (← fields.lookup "env").string?
  return ⟨environment, ← field? fields "exclude_groups" texts? []⟩

/-- Reads the definition of a group. -/
def group? (form : Form) (value : Value) : Option Group.Definition := do
  let fields ←
    form.fields? ["name", "ip", "components", "exclude", "append", "properties"] value
  return {
    name := ← (← fields.lookup "name").string?
    ip := ← field? fields "ip" (nullable? Value.string?) none
    components := ← field? fields "components" texts? []
    exclude := ← field? fields "exclude" texts? []
    append := ← field? fields "append" texts? []
    properties := ← field? fields "properties" (dictionary? scalar?) .empty }

/-- Reads the definition of an environment. -/
def environment? (form : Form) (value : Value) : Option Environment.Definition := do
  let fields ←
    form.fields? ["aliases", "include", "ip", "port_offset", "properties", "groups"] value
  return {
    aliases := ← field? fields "aliases" texts? []
    inclusion := ← field? fields "include" (nullable? form.inclusion?) none
    ip := ← field? fields "ip" (nullable? Value.string?) none
    portOffset := ← field? fields "port_offset" (nullable? integer?) none
    properties := ← field? fields "properties" (dictionary? scalar?) .empty
    groups := ← field? fields "groups" (fun
      | .array items => items.mapM form.group?
      | _ => none) [] }

/-- JSON documents give exactly the fields they list. -/
def json : Form := ⟨true⟩

/-- TOML documents may list more items than there are fields. -/
def toml : Form := ⟨false⟩

end Form

end DeployConfig
