import DeployConfig.Decimal.Shortest

/-!
# Scalars

The value of a property of an environment or a group: a text, a whole number, another number or a
truth value. It is used through its text.
-/

set_option autoImplicit false

namespace DeployConfig

/-- A single value of a definition file. -/
inductive Scalar where
  | text (value : String)
  | integer (value : Int)
  | float (value : Float)
  | boolean (value : Bool)

namespace Scalar

/-- The text that the value stands for. -/
def toText : Scalar → String
  | text value => value
  | integer value => toString value
  | float value => Decimal.ofFloat value
  | boolean value => if value then "true" else "false"

end Scalar

end DeployConfig
