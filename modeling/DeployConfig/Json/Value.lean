/-!
# JSON values

The values of a JSON document. An object is the list of its members as they are written, so that a
reader of a fixed form can tell a repeated member from a single one. Whole numbers of at most 64
bits are kept exactly; every other number is a double.
-/

set_option autoImplicit false

namespace DeployConfig.Json

/-- A JSON value. -/
inductive Value where
  | null
  | bool (value : Bool)
  | integer (value : Int)
  | float (value : Float)
  | string (value : String)
  | array (items : List Value)
  | object (members : List (String × Value))

namespace Value

/-- The member of an object that is in force for a name: the last one written. -/
def member? (name : String) : Value → Option Value
  | object members => members.reverse.lookup name
  | _ => none

/-- The text of a string value. -/
def string? : Value → Option String
  | string value => some value
  | _ => none

/-- The items of an array. -/
def items? : Value → Option (List Value)
  | array items => some items
  | _ => none

end Value

end DeployConfig.Json
