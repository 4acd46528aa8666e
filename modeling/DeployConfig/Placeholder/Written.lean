import DeployConfig.Text.Alphanumeric

/-!
# Placeholders in a text

A placeholder is written `${type::component[environment]@key:default}`; the type with its two
colons, the environment with its brackets and the default with its colon may each be left out.
This module recognises the written form: `Written` holds the pieces of one placeholder,
`Written.characters` puts them together again, `atStart?` reads a placeholder at the start of a
text, and `leftmost?` tries every place of a text in turn. The search that is used goes through a
text only once; it is the scanner of `DeployConfig.Placeholder.Scanner`.

The pieces before the default are runs of a character class, so each is read as the longest such
run. A default is closed by the brace that balances it: braces opened by `${` or `#{` inside it
nest. When no brace does, it is closed by the last closing brace of the whole text.
-/

set_option autoImplicit false

namespace DeployConfig

/-- The characters of types, components and environments. -/
def isIdentifierChar (c : Char) : Bool :=
  Text.isAlphanumeric c || c == '.' || c == '_' || c == '-'

/-- The characters of keys, which may also hold path separators. -/
def isKeyChar (c : Char) : Bool :=
  isIdentifierChar c || c == '/' || c == '\\'

/-- The pieces of one written placeholder, without the punctuation between them. -/
structure Written where
  configType : Option (List Char)
  component : List Char
  environment : Option (List Char)
  key : List Char
  fallback : Option (List Char)
deriving DecidableEq, Repr

namespace Written

/-- The text of a placeholder made of these pieces. -/
def characters (written : Written) : List Char :=
  '$' :: '{' ::
    ((written.configType.map (· ++ [':', ':'])).getD [] ++
      written.component ++
      (written.environment.map fun name => '[' :: name ++ [']']).getD [] ++
      '@' :: written.key ++
      (written.fallback.map (':' :: ·)).getD [] ++ ['}'])

/-! ## Reading the pieces, last one first -/

/-- Cuts a text at the brace that closes a default which has `inner` nested braces open. `marked`
tells that the character before is one that makes an opening brace nest. -/
def closeBalanced (inner : Nat) (marked : Bool) : List Char → Option (List Char × List Char)
  | [] => none
  | c :: rest =>
    let marks := c == '$' || c == '#'
    let kept := fun (fallback, after) => (c :: fallback, after)
    if c == '}' then
      match inner with
      | 0 => some ([], rest)
      | inner + 1 => (closeBalanced inner marks rest).map kept
    else if c == '{' && marked then (closeBalanced (inner + 1) marks rest).map kept
    else (closeBalanced inner marks rest).map kept

/-- Cuts a text at its last closing brace. -/
def closeLast : List Char → Option (List Char × List Char)
  | [] => none
  | c :: rest =>
    match closeLast rest with
    | some (fallback, after) => some (c :: fallback, after)
    | none => if c == '}' then some ([], rest) else none

/-- Cuts a text at the brace that closes a default starting here: the balancing one, or else the
last one. -/
def closeDefault (text : List Char) : Option (List Char × List Char) :=
  (closeBalanced 0 false text).or (closeLast text)

/-- Reads the key and what follows it up to the closing brace. -/
def readKey (configType : Option (List Char)) (component : List Char)
    (environment : Option (List Char)) (text : List Char) : Option (Written × List Char) :=
  let key := text.takeWhile isKeyChar
  if key.isEmpty then none
  else
    match text.dropWhile isKeyChar with
    | '}' :: after => some (⟨configType, component, environment, key, none⟩, after)
    | ':' :: rest =>
      (closeDefault rest).map fun (fallback, after) =>
        (⟨configType, component, environment, key, some fallback⟩, after)
    | _ => none

/-- Reads what follows the component: an environment in brackets, if there is one, and the rest. -/
def readEnvironment (configType : Option (List Char)) (component : List Char) :
    List Char → Option (Written × List Char)
  | '@' :: rest => readKey configType component none rest
  | '[' :: rest =>
    let environment := rest.takeWhile isIdentifierChar
    if environment.isEmpty then none
    else
      match rest.dropWhile isIdentifierChar with
      | ']' :: '@' :: rest => readKey configType component (some environment) rest
      | _ => none
  | _ => none

/-- Reads the component and what follows it. -/
def readComponent (configType : Option (List Char)) (text : List Char) :
    Option (Written × List Char) :=
  let component := text.takeWhile isIdentifierChar
  if component.isEmpty then none
  else readEnvironment configType component (text.dropWhile isIdentifierChar)

/-- Reads everything behind the opening brace: a run of identifier characters before two colons is
the type. -/
def readInside (text : List Char) : Option (Written × List Char) :=
  match text.dropWhile isIdentifierChar with
  | ':' :: ':' :: rest =>
    let configType := text.takeWhile isIdentifierChar
    if configType.isEmpty then none else readComponent (some configType) rest
  | _ => readComponent none text

/-- Reads a placeholder at the start of a text; gives its pieces and the text behind it. -/
def atStart? : List Char → Option (Written × List Char)
  | '$' :: '{' :: rest => readInside rest
  | _ => none

end Written

/-! ## Placeholders in a text -/

/-- A placeholder in a text, with the text before it and the text behind it. -/
structure Occurrence where
  before : List Char
  written : Written
  after : List Char
deriving DecidableEq, Repr

namespace Occurrence

/-- The same placeholder with more text before it. -/
def behind (front : List Char) (found : Occurrence) : Occurrence :=
  { found with before := front ++ found.before }

/-- The first placeholder of a text, by reading one at every place in turn. -/
def leftmost? : List Char → Option Occurrence
  | [] => none
  | c :: rest =>
    match Written.atStart? (c :: rest) with
    | some (written, after) => some ⟨[], written, after⟩
    | none => (leftmost? rest).map (behind [c])

end Occurrence

end DeployConfig
