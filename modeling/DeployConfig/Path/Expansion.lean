import DeployConfig.Path
import DeployConfig.Text.Alphanumeric

/-!
# Variables and the home directory in a path

A path given by the user may name variables of the process as `$NAME` or as `${NAME}`, the latter
also with a text to use when the variable is not set (`${NAME:-text}`), and may start with `~` for
the home directory. Two dollar signs stand for one. A dollar sign that starts neither form stands
for itself, and so does `${` without a closing brace.
-/

set_option autoImplicit false

namespace DeployConfig

/-- The environment variables of a process. The values are bytes, which need not be a text. -/
structure Variables where
  entries : List (String × ByteArray)

namespace Variables

/-- Why a variable has no text. -/
inductive Missing where
  | notSet
  | notUnicode (bytes : ByteArray)

/-- The text of a variable. -/
def get (bindings : Variables) (name : String) : Except Missing String :=
  match bindings.entries.lookup name with
  | none => .error .notSet
  | some bytes =>
    match String.fromUTF8? bytes with
    | some text => .ok text
    | none => .error (.notUnicode bytes)

/-- The variables that have a text. -/
def texts (bindings : Variables) : List (String × String) :=
  bindings.entries.filterMap fun entry =>
    (String.fromUTF8? entry.2).map fun text => (entry.1, text)

/-- One byte of a value that is not a text: itself when it is a printable ASCII character, else its
two hexadecimal digits. -/
def shownByte (byte : UInt8) : List Char :=
  let n := byte.toNat
  if n == 0x22 || n == 0x5c then ['\\', Char.ofNat n]
  else if 0x20 ≤ n && n < 0x7f then [Char.ofNat n]
  else
    let digits := (Nat.toDigits 16 n).map Char.toUpper
    ['\\', 'x'] ++ List.replicate (2 - digits.length) '0' ++ digits

/-- The reason as it is shown to the user. -/
def Missing.message : Missing → String
  | .notSet => "environment variable not found"
  | .notUnicode bytes =>
    "environment variable was not valid unicode: \"" ++
      String.ofList (bytes.toList.flatMap shownByte) ++ "\""

end Variables

namespace Path

/-- A path that names a variable without a text. -/
structure ExpansionError where
  path : String
  variableName : String
  reason : Variables.Missing

/-- The message of the error. -/
def ExpansionError.message (error : ExpansionError) : String :=
  s!"Could not expand path '{error.path}': error looking key '{error.variableName}' up: " ++
    error.reason.message

/-- The characters of a variable's name written without braces. -/
def isVariableChar (c : Char) : Bool :=
  Text.isAlphanumeric c || c == '_'

/-- Cuts the inside of `${…}` into the name and the text to use when it is not set. An empty name
takes no such text. -/
def cutFallback (inside : List Char) : List Char × Option (List Char) :=
  match go inside with
  | some ([], _) | none => (inside, none)
  | some (name, fallback) => (name, some fallback)
where
  go : List Char → Option (List Char × List Char)
    | ':' :: '-' :: fallback => some ([], fallback)
    | c :: rest => (go rest).map fun (name, fallback) => (c :: name, fallback)
    | [] => none

/-- The text of a variable, or the text to use when there is none. -/
def variableText (bindings : Variables) (name : List Char) (fallback : Option (List Char)) :
    Except (String × Variables.Missing) (List Char) :=
  match bindings.get (String.ofList name), fallback with
  | .ok text, _ => .ok text.toList
  | .error _, some fallback => .ok fallback
  | .error reason, none => .error (String.ofList name, reason)

/-- Replaces the variables in a text. Each step takes at least one character, so the length of the
text bounds the steps. -/
def expandVariables (bindings : Variables) :
    Nat → List Char → Except (String × Variables.Missing) (List Char)
  | 0, text => .ok text
  | _, [] => .ok []
  | steps + 1, '$' :: '$' :: rest => return '$' :: (← expandVariables bindings steps rest)
  | steps + 1, '$' :: '{' :: rest =>
    match Text.cut? (· == '}') rest with
    | none => return '$' :: '{' :: (← expandVariables bindings steps rest)
    | some (inside, rest) => do
      let (name, fallback) := cutFallback inside
      return (← variableText bindings name fallback) ++ (← expandVariables bindings steps rest)
  | steps + 1, '$' :: rest =>
    match rest.takeWhile isVariableChar with
    | [] => return '$' :: (← expandVariables bindings steps rest)
    | name => do
      let value ← variableText bindings name none
      return value ++ (← expandVariables bindings steps (rest.dropWhile isVariableChar))
  | steps + 1, c :: rest => return c :: (← expandVariables bindings steps rest)

/-- Replaces a leading `~` that is the whole path or is followed by a slash. -/
def expandHome (home : Option String) : List Char → List Char
  | '~' :: rest =>
    match home, rest with
    | some home, [] => home.toList
    | some home, '/' :: _ => home.toList ++ rest
    | _, _ => '~' :: rest
  | text => text

/-- Expands the variables and the home directory in a path as the user wrote it. A `~` that a
variable brings to the front is left alone. -/
def expand (bindings : Variables) (written : String) : Except ExpansionError Path :=
  let text := written.toList
  match expandVariables bindings (text.length + 1) text with
  | .error (name, reason) => .error ⟨written, name, reason⟩
  | .ok expanded =>
    if written.startsWith "~" then
      let home := (bindings.get "HOME").toOption.filter (· != "")
      .ok ⟨String.ofList (expandHome home expanded)⟩
    else .ok ⟨String.ofList expanded⟩

end Path

end DeployConfig
