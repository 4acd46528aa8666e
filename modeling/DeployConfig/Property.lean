import DeployConfig.Component
import DeployConfig.Path

/-!
# Properties

A property is a key with a raw value. It remembers the environment it was read for and where it was
declared, because its value is resolved from there. A transient property can be referred to but is
not part of a finished configuration.

Properties are declared in lines `key=value` or `key:value`; `#var ` in front makes one transient.
-/

set_option autoImplicit false

namespace DeployConfig

/-- Where a property was declared. -/
inductive Source where
  /-- In a file of the component, at a line if it is known. -/
  | file (component : Component) (path : Path) (line : Option Nat)
  /-- Not in a file; `origin` tells who answered. -/
  | special (component : Component) (origin : String)
deriving DecidableEq, Inhabited

namespace Source

/-- The component that declared the property. -/
def component : Source → Component
  | .file component _ _ => component
  | .special component _ => component

/-- The text of a source. -/
def text : Source → String
  | .file _ path (some line) => s!"{path.text}:{line}"
  | .file _ path none => path.text
  | .special component origin => s!"<{origin}> of '{component.text}'"

end Source

/-- A key, its raw value and where both come from. -/
structure Property where
  key : String
  value : String
  environment : String
  transient : Bool
  source : Source
deriving DecidableEq, Inhabited

/-- What is wrong with a declaration line. -/
inductive DeclarationError where
  | missingSeparator (line : String)
  | emptyKey (line : String)
deriving DecidableEq

/-- The message of the error. -/
def DeclarationError.message : DeclarationError → String
  | .missingSeparator line =>
    s!"Invalid property declaration '{line}': expected 'key=value' or 'key:value'."
  | .emptyKey line => s!"Invalid property declaration '{line}': key is empty."

namespace Property

/-- The key of the home directory, whose value is a path. -/
def homeKey : String := "user.home"

/-- The mark of a transient declaration. -/
def transientMark : List Char := "#var ".toList

/-- The component that declared the property. -/
def component (property : Property) : Component :=
  property.source.component

/-- Reads a declaration. The first `=` or `:` separates the key from the value; both are trimmed,
and the key must not be blank. -/
def parse (line environment : String) (source : Source) : Except DeclarationError Property :=
  let characters := line.toList
  let (transient, body) :=
    match Text.dropOpening? transientMark characters with
    | some rest => (true, rest)
    | none => (false, characters)
  match Text.cut? (fun c => c == '=' || c == ':') body with
  | none => .error (.missingSeparator line)
  | some (key, value) =>
    let key := Text.trim key
    if key.isEmpty then .error (.emptyKey line)
    else
      .ok ⟨String.ofList key, String.ofList (Text.trim value), environment, transient, source⟩

/-- The same property with another value. -/
def withValue (property : Property) (value : String) : Property :=
  { property with value }

/-- Replaces each pair of backslashes by one, from left to right. -/
def joinBackslashes : List Char → List Char
  | '\\' :: '\\' :: rest => '\\' :: joinBackslashes rest
  | c :: rest => c :: joinBackslashes rest
  | [] => []

/-- Writes every backslash twice. -/
def doubleBackslashes (text : List Char) : List Char :=
  text.flatMap fun c => if c == '\\' then ['\\', '\\'] else [c]

/-- The value for consumers that read backslashes as escapes. The home directory is written with
slashes; in any other value the backslashes are escaped, unless they are already. -/
def escapeBackslashes (property : Property) : Property :=
  if property.key == homeKey then
    property.withValue (Text.substitute '\\' '/' property.value)
  else
    property.withValue
      (String.ofList (doubleBackslashes (joinBackslashes property.value.toList)))

/-- The text of a property. -/
def text (property : Property) : String :=
  s!"{property.key}={property.value} ({property.source.text})"

end Property

end DeployConfig
