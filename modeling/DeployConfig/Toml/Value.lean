import DeployConfig.Dictionary
import DeployConfig.Json.Value
import DeployConfig.Toml.Datetime

/-!
# TOML values

The values of a TOML document. The entries of a table are in the order of their keys, whatever
their order in the file, and their keys are distinct (`Value.ofEntries`). Whole numbers are kept as
they are written; whether one fits the 64 bits that a reader wants is for that reader to decide.

A word can have the outline of a number and still stand for none, such as a decimal number that is
too large for a double. It is a `misfit`: every reader refuses it, but a document is not spoilt by
one that nobody reads.
-/

set_option autoImplicit false

namespace DeployConfig.Toml

/-- A TOML value. -/
inductive Value where
  | string (value : String)
  | integer (value : Int)
  | float (value : Float)
  | boolean (value : Bool)
  | datetime (value : Datetime)
  | misfit
  | array (items : List Value)
  | table (entries : List (String × Value))

namespace Value

/-- The table with these entries, put in order. -/
def ofEntries (entries : List (String × Value)) : Value :=
  .table (Dictionary.ofList entries).entries

/-- The entries of a table. -/
def entries? : Value → Option (List (String × Value))
  | table entries => some entries
  | _ => none

/-- The key of an object or table that stands for a date and time. -/
def datetimeKey : String := "$__toml_private_datetime"

mutual

/-- The value seen in JSON. A table is an object, and a date and time is an object with its text
under a key of its own. A misfit is seen as a whole number with more than 64 bits, which every
reader refuses too. -/
def toJson : Value → Json.Value
  | string value => .string value
  | integer value => .integer value
  | float value => .float value
  | boolean value => .bool value
  | datetime value => .object [(datetimeKey, .string value.text)]
  | misfit => .integer UInt64.size
  | array items => .array (itemsToJson items)
  | table entries => .object (entriesToJson entries)

/-- The items of an array seen in JSON. -/
def itemsToJson : List Value → List Json.Value
  | [] => []
  | item :: rest => item.toJson :: itemsToJson rest

/-- The entries of a table seen in JSON. -/
def entriesToJson : List (String × Value) → List (String × Json.Value)
  | [] => []
  | (key, value) :: rest => (key, value.toJson) :: entriesToJson rest

end

/-- What a table holds for the date and time that it stands for. A table stands for one when
`datetimeKey` is the first of its keys; its other entries do not count then. -/
def datetimeEntry? : List (String × Value) → Option Value
  | (key, value) :: _ => if key == datetimeKey then some value else none
  | [] => none

mutual

/-- The value for a reader that takes values of any kind: whole numbers must be signed numbers of
64 bits, and a table that stands for a date and time, which must hold the text of one, is read
as it. The other entries of such a table are not read. -/
def checked? : Value → Option Value
  | integer value =>
    if Int64.minValue.toInt ≤ value && value ≤ Int64.maxValue.toInt then some (integer value)
    else none
  | misfit => none
  | array items => (itemsChecked? items).map array
  | table entries =>
    match datetimeEntry? entries with
    | some (string text) => (Datetime.parse? text.toList).map datetime
    | some _ => none
    | none => (entriesChecked? entries).map table
  | value => some value

/-- The items of an array for such a reader. -/
def itemsChecked? : List Value → Option (List Value)
  | [] => some []
  | item :: rest => do return (← item.checked?) :: (← itemsChecked? rest)

/-- The entries of a table for such a reader. -/
def entriesChecked? : List (String × Value) → Option (List (String × Value))
  | [] => some []
  | (key, value) :: rest => do return (key, ← value.checked?) :: (← entriesChecked? rest)

end

end Value

end DeployConfig.Toml
