import DeployConfig.Decimal.Shortest
import DeployConfig.Json.Value

/-!
# Printing JSON

Values are printed either on one line without blank space, or spread over lines with two blanks of
indentation for each level. An empty array or object stays on one line.
-/

set_option autoImplicit false

namespace DeployConfig.Json

/-- The hexadecimal digits of a control character, four of them. -/
def hex4 (value : Nat) : List Char :=
  let digits := Nat.toDigits 16 value
  List.replicate (4 - digits.length) '0' ++ digits

/-- A character inside a string. Quotes, backslashes and control characters are escaped. -/
def escapeChar (c : Char) : List Char :=
  match c with
  | '"' => ['\\', '"']
  | '\\' => ['\\', '\\']
  | '\x08' => ['\\', 'b']
  | '\x0c' => ['\\', 'f']
  | '\n' => ['\\', 'n']
  | '\r' => ['\\', 'r']
  | '\t' => ['\\', 't']
  | c => if c.toNat < 0x20 then '\\' :: 'u' :: hex4 c.toNat else [c]

/-- A string in quotes. -/
def quote (text : String) : String :=
  String.ofList ('"' :: text.toList.flatMap escapeChar ++ ['"'])

/-- Opening and closing brackets around lines of items. -/
def bracket (opening closing indent : String) (items : List String) : String :=
  if items.isEmpty then opening ++ closing
  else
    let inner := indent ++ "  "
    opening ++ "\n" ++ inner ++ (",\n" ++ inner).intercalate items ++ "\n" ++ indent ++ closing

/-- What stands before the members of an object. -/
def objectOpening : String := "\x7b"

/-- What stands behind the members of an object. -/
def objectClosing : String := "\x7d"

mutual

/-- The value on one line. -/
def Value.compact : Value → String
  | .null => "null"
  | .bool value => if value then "true" else "false"
  | .integer value => toString value
  | .float value => Decimal.ofFloat value
  | .string value => quote value
  | .array items => "[" ++ ",".intercalate (compactItems items) ++ "]"
  | .object members =>
    objectOpening ++ ",".intercalate (compactMembers members) ++ objectClosing

/-- The items of an array, each on one line. -/
def compactItems : List Value → List String
  | [] => []
  | item :: rest => item.compact :: compactItems rest

/-- The members of an object, each on one line. -/
def compactMembers : List (String × Value) → List String
  | [] => []
  | (name, value) :: rest => (quote name ++ ":" ++ value.compact) :: compactMembers rest

end

mutual

/-- The value spread over lines; `indent` stands in front of its closing bracket. -/
def Value.pretty (indent : String) : Value → String
  | .null => "null"
  | .bool value => if value then "true" else "false"
  | .integer value => toString value
  | .float value => Decimal.ofFloat value
  | .string value => quote value
  | .array items => bracket "[" "]" indent (prettyItems (indent ++ "  ") items)
  | .object members =>
    bracket objectOpening objectClosing indent (prettyMembers (indent ++ "  ") members)

/-- The items of an array, each spread over lines. -/
def prettyItems (indent : String) : List Value → List String
  | [] => []
  | item :: rest => item.pretty indent :: prettyItems indent rest

/-- The members of an object, each spread over lines. -/
def prettyMembers (indent : String) : List (String × Value) → List String
  | [] => []
  | (name, value) :: rest =>
    (quote name ++ ": " ++ value.pretty indent) :: prettyMembers indent rest

end

end DeployConfig.Json
