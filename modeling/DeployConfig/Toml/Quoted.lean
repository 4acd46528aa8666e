/-!
# Strings and keys in TOML

Strings stand in double quotes, where a backslash starts an escape, or in single quotes, where it
does not. Three quotes of either kind enclose a string over several lines; a line break behind the
opening quotes is dropped, and a string may end in up to two quotes of its own. Any other line break
inside a string is kept as it is written, with its carriage return or without one.

Keys are bare words or strings of one line, joined by dots. A key has at most `keyPartsLimit` parts.

Every step of a reader takes at least one character, so a reader that may take as many steps as the
text has characters is never cut short.
-/

set_option autoImplicit false

namespace DeployConfig.Toml

/-- Blank space within a line. -/
def isBlank (c : Char) : Bool := c == ' ' || c == '\t'

/-- The text behind blank space within a line. -/
def skipBlank (text : List Char) : List Char := text.dropWhile isBlank

/-- The characters that stand for themselves in comments and strings: tabs and everything that is
not a control character. -/
def isPlain (c : Char) : Bool :=
  c == '\t' || (0x20 ≤ c.toNat && c.toNat != 0x7f)

/-- The value of a hexadecimal digit. -/
def hexDigit? (c : Char) : Option Nat :=
  if c.isDigit then some (c.toNat - '0'.toNat)
  else if 'a' ≤ c && c ≤ 'f' then some (c.toNat - 'a'.toNat + 10)
  else if 'A' ≤ c && c ≤ 'F' then some (c.toNat - 'A'.toNat + 10)
  else none

/-- Reads the character whose code is written in `count` hexadecimal digits. -/
def readCode (count : Nat) (text : List Char) : Option (Char × List Char) := do
  let digits := text.take count
  if digits.length != count then none
  else
    let code ← digits.foldlM (fun value c => (hexDigit? c).map (value * 16 + ·)) 0
    if code < 0xd800 || (0xe000 ≤ code && code < 0x110000) then
      return (Char.ofNat code, text.drop count)
    else none

/-- Reads an escape behind its backslash. -/
def readEscape : List Char → Option (Char × List Char)
  | 'b' :: rest => some ('\x08', rest)
  | 't' :: rest => some ('\t', rest)
  | 'n' :: rest => some ('\n', rest)
  | 'f' :: rest => some ('\x0c', rest)
  | 'r' :: rest => some ('\r', rest)
  | 'e' :: rest => some ('\x1b', rest)
  | '"' :: rest => some ('"', rest)
  | '\\' :: rest => some ('\\', rest)
  | 'x' :: rest => readCode 2 rest
  | 'u' :: rest => readCode 4 rest
  | 'U' :: rest => readCode 8 rest
  | _ => none

/-- Reads a string of one line behind its opening double quote. -/
def readBasic : Nat → List Char → Option (List Char × List Char)
  | 0, _ => none
  | _, [] => none
  | steps + 1, c :: rest =>
    if c == '"' then some ([], rest)
    else if c == '\\' then do
      let (c, rest) ← readEscape rest
      let (more, rest) ← readBasic steps rest
      return (c :: more, rest)
    else if isPlain c then do
      let (more, rest) ← readBasic steps rest
      return (c :: more, rest)
    else none

/-- Reads a string of one line behind its opening single quote. -/
def readLiteral : List Char → Option (List Char × List Char)
  | [] => none
  | c :: rest =>
    if c == '\'' then some ([], rest)
    else if isPlain c then (readLiteral rest).map fun (more, rest) => (c :: more, rest)
    else none

/-- Drops the line breaks and blanks behind a backslash that ends a line. -/
def skipBreaks : List Char → List Char
  | '\r' :: '\n' :: rest => skipBreaks rest
  | c :: rest => if c == '\n' || isBlank c then skipBreaks rest else c :: rest
  | [] => []

/-- Whether nothing but blanks is left of the line. -/
def lineEnds (text : List Char) : Bool :=
  match skipBlank text with
  | '\n' :: _ => true
  | '\r' :: '\n' :: _ => true
  | _ => false

/-- The quotes at the end of a string over several lines: with three or more of them the string
ends, and up to two in front of the last three belong to it. -/
def closeLines (mark : Char) (text : List Char) : Option (List Char × List Char) :=
  let quotes := (text.takeWhile (· == mark)).length
  if quotes < 3 then none
  else
    let own := min (quotes - 3) 2
    some (List.replicate own mark, text.drop (own + 3))

/-- Reads a string over several lines behind its opening quotes; `escapes` tells whether a
backslash starts an escape. -/
def readLines (mark : Char) (escapes : Bool) : Nat → List Char → Option (List Char × List Char)
  | 0, _ => none
  | steps + 1, text =>
    match closeLines mark text with
    | some closed => some closed
    | none =>
      let more := fun (c : Char) (rest : List Char) =>
        (readLines mark escapes steps rest).map fun (more, rest) => (c :: more, rest)
      match text with
      | [] => none
      | '\r' :: '\n' :: rest =>
        (readLines mark escapes steps rest).map fun (more, rest) => ('\r' :: '\n' :: more, rest)
      | '\n' :: rest => more '\n' rest
      | c :: rest =>
        if escapes && c == '\\' then
          if lineEnds rest then readLines mark escapes steps (skipBreaks rest)
          else
            match readEscape rest with
            | some (c, rest) => more c rest
            | none => none
        else if isPlain c then more c rest
        else none

/-- Drops a line break behind the opening quotes. -/
def dropFirstBreak : List Char → List Char
  | '\r' :: '\n' :: rest => rest
  | '\n' :: rest => rest
  | text => text

/-- Reads a string at the start of a text, in at most `steps` steps. -/
def readString (steps : Nat) (text : List Char) : Option (List Char × List Char) :=
  match text with
  | '"' :: '"' :: '"' :: rest =>
    readLines '"' true steps (dropFirstBreak rest)
  | '\'' :: '\'' :: '\'' :: rest =>
    readLines '\'' false steps (dropFirstBreak rest)
  | '"' :: rest => readBasic steps rest
  | '\'' :: rest => readLiteral rest
  | _ => none

/-! ## Keys -/

/-- The characters of bare keys. -/
def isBareKeyChar (c : Char) : Bool :=
  c.isAlphanum || c == '_' || c == '-'

/-- Reads one part of a key, in at most `steps` steps. -/
def readKeyPart (steps : Nat) (text : List Char) : Option (String × List Char) :=
  match text with
  | '"' :: rest =>
    (readBasic steps rest).map fun (key, rest) => (String.ofList key, rest)
  | '\'' :: rest => (readLiteral rest).map fun (key, rest) => (String.ofList key, rest)
  | _ =>
    let key := text.takeWhile isBareKeyChar
    if key.isEmpty then none else some (String.ofList key, text.dropWhile isBareKeyChar)

/-- How many parts a key may have. -/
def keyPartsLimit : Nat := 80

/-- Reads a key of at most `limit` parts: the parts in order, with blanks around the dots. -/
def readKeyParts (steps limit : Nat) (text : List Char) : Option (List String × List Char) :=
  match limit with
  | 0 => none
  | limit + 1 => do
    let (part, rest) ← readKeyPart steps text
    match skipBlank rest with
    | '.' :: rest =>
      let (more, rest) ← readKeyParts steps limit (skipBlank rest)
      return (part :: more, rest)
    | rest => return ([part], rest)

/-- Reads a key; each of its parts takes at most `steps` steps. -/
def readKey (steps : Nat) (text : List Char) : Option (List String × List Char) :=
  readKeyParts steps keyPartsLimit text

end DeployConfig.Toml
