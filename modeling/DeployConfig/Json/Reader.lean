import DeployConfig.Json.Number

/-!
# Reading JSON

A document is one value with blank space around it. Every step of the reader takes at least one
character or one level of nesting, so the length of the text bounds the steps.
-/

set_option autoImplicit false

namespace DeployConfig.Json

/-- Blank space between the parts of a document. -/
def isSpace (c : Char) : Bool :=
  c == ' ' || c == '\t' || c == '\n' || c == '\r'

/-- The text behind any blank space. -/
def skipSpace (text : List Char) : List Char :=
  text.dropWhile isSpace

/-- The value of a hexadecimal digit. -/
def hexValue? (c : Char) : Option Nat :=
  if '0' ≤ c && c ≤ '9' then some (c.toNat - '0'.toNat)
  else if 'a' ≤ c && c ≤ 'f' then some (c.toNat - 'a'.toNat + 10)
  else if 'A' ≤ c && c ≤ 'F' then some (c.toNat - 'A'.toNat + 10)
  else none

/-- Reads the four hexadecimal digits of an escape. -/
def readHex4 : List Char → Option (Nat × List Char)
  | a :: b :: c :: d :: rest => do
    let value := ((← hexValue? a) * 16 + (← hexValue? b)) * 16 + (← hexValue? c)
    return (value * 16 + (← hexValue? d), rest)
  | _ => none

/-- Reads the rest of an escape behind `\u`: one unit, or the two units of a pair. A unit of a pair
does not stand alone. -/
def readUnits (text : List Char) : Option (Char × List Char) := do
  let (first, rest) ← readHex4 text
  if 0xd800 ≤ first && first < 0xdc00 then
    match rest with
    | '\\' :: 'u' :: rest =>
      let (second, rest) ← readHex4 rest
      if 0xdc00 ≤ second && second < 0xe000 then
        return (Char.ofNat (0x10000 + (first - 0xd800) * 0x400 + (second - 0xdc00)), rest)
      else none
    | _ => none
  else if 0xdc00 ≤ first && first < 0xe000 then none
  else return (Char.ofNat first, rest)

/-- Reads a string behind its opening quote. -/
def readString : Nat → List Char → Option (List Char × List Char)
  | 0, _ => none
  | steps + 1, text =>
    match text with
    | [] => none
    | '"' :: rest => some ([], rest)
    | '\\' :: 'u' :: rest => do
      let (c, rest) ← readUnits rest
      let (more, rest) ← readString steps rest
      return (c :: more, rest)
    | '\\' :: e :: rest => do
      let c ←
        match e with
        | '"' | '\\' | '/' => some e
        | 'b' => some '\x08'
        | 'f' => some '\x0c'
        | 'n' => some '\n'
        | 'r' => some '\r'
        | 't' => some '\t'
        | _ => none
      let (more, rest) ← readString steps rest
      return (c :: more, rest)
    | c :: rest =>
      if c.toNat < 0x20 || c == '\\' then none
      else do
        let (more, rest) ← readString steps rest
        return (c :: more, rest)

mutual

/-- Reads a value at the start of a text. -/
def readValue : Nat → List Char → Option (Value × List Char)
  | 0, _ => none
  | steps + 1, text =>
    match text with
    | 'n' :: 'u' :: 'l' :: 'l' :: rest => some (.null, rest)
    | 't' :: 'r' :: 'u' :: 'e' :: rest => some (.bool true, rest)
    | 'f' :: 'a' :: 'l' :: 's' :: 'e' :: rest => some (.bool false, rest)
    | '"' :: rest => do
      let (value, rest) ← readString steps rest
      return (.string (String.ofList value), rest)
    | '[' :: rest =>
      match skipSpace rest with
      | ']' :: rest => some (.array [], rest)
      | rest => (readItems steps rest).map fun (items, rest) => (.array items, rest)
    | '{' :: rest =>
      match skipSpace rest with
      | '}' :: rest => some (.object [], rest)
      | rest => (readMembers steps rest).map fun (members, rest) => (.object members, rest)
    | text => readNumber text

/-- Reads the items of an array up to its closing bracket. -/
def readItems : Nat → List Char → Option (List Value × List Char)
  | 0, _ => none
  | steps + 1, text => do
    let (value, rest) ← readValue steps text
    match skipSpace rest with
    | ',' :: rest =>
      let (more, rest) ← readItems steps (skipSpace rest)
      return (value :: more, rest)
    | ']' :: rest => return ([value], rest)
    | _ => none

/-- Reads the members of an object up to its closing brace. -/
def readMembers : Nat → List Char → Option (List (String × Value) × List Char)
  | 0, _ => none
  | steps + 1, text =>
    match text with
    | '"' :: rest => do
      let (name, rest) ← readString steps rest
      match skipSpace rest with
      | ':' :: rest =>
        let (value, rest) ← readValue steps (skipSpace rest)
        let entry := (String.ofList name, value)
        match skipSpace rest with
        | ',' :: rest =>
          let (more, rest) ← readMembers steps (skipSpace rest)
          return (entry :: more, rest)
        | '}' :: rest => return ([entry], rest)
        | _ => none
      | _ => none
    | _ => none

end

/-- The value that a document holds, if the document is well formed. -/
def parse? (document : String) : Option Value := do
  let text := document.toList
  let (value, rest) ← readValue (2 * text.length + 2) (skipSpace text)
  if (skipSpace rest).isEmpty then return value else none

end DeployConfig.Json
