import DeployConfig.Toml.Atom
import DeployConfig.Toml.Outline
import DeployConfig.Toml.Quoted

/-!
# Reading TOML

A document is a sequence of lines: blank ones, comments, headers and keys with values. Arrays and
inline tables may run over several lines, with line breaks and comments wherever a blank may stand
except inside a key, and may have a comma behind their last item. A byte order mark in front of the
document is skipped.

Every step of the reader takes at least one character or one level of nesting, so the length of the
text bounds the steps. Arrays and inline tables nest to at most `nestingLimit` levels.
-/

set_option autoImplicit false

namespace DeployConfig.Toml

/-- How deep arrays and inline tables may nest. -/
def nestingLimit : Nat := 80

/-- The text behind a comment, if one stands here; a comment holds plain characters only. -/
def skipComment (text : List Char) : Option (List Char) :=
  match text with
  | '#' :: rest =>
    match rest.dropWhile isPlain with
    | [] => some []
    | '\n' :: rest => some ('\n' :: rest)
    | '\r' :: '\n' :: rest => some ('\n' :: rest)
    | _ => none
  | _ => some text

/-- The text behind blanks, comments and line breaks; `inComment` tells whether a comment has begun
already. -/
def skipSpace (inComment : Bool) : List Char → Option (List Char)
  | [] => some []
  | '\n' :: rest => skipSpace false rest
  | '\r' :: '\n' :: rest => skipSpace false rest
  | c :: rest =>
    if inComment then if isPlain c then skipSpace true rest else none
    else if isBlank c then skipSpace false rest
    else if c == '#' then skipSpace true rest
    else some (c :: rest)

/-- The text behind blanks, comments and line breaks. -/
def skipAll (text : List Char) : Option (List Char) :=
  skipSpace false text

mutual

/-- Reads a value; `depth` levels of nesting are still allowed. -/
def readValue : Nat → Nat → List Char → Option (Value × List Char)
  | 0, _, _ => none
  | steps + 1, depth, text =>
    match text with
    | '[' :: rest =>
      match depth with
      | 0 => none
      | depth + 1 => do
        let (items, rest) ← readItems steps depth (← skipAll rest)
        return (.array items, rest)
    | '{' :: rest =>
      match depth with
      | 0 => none
      | depth + 1 => do
        let (entries, rest) ← readInline steps depth [] (← skipAll rest)
        return (.ofEntries (entriesToValues entries), rest)
    | c :: _ =>
      if c == '"' || c == '\'' then
        (readString steps text).map fun (value, rest) => (.string (String.ofList value), rest)
      else readAtom text
    | [] => none

/-- Reads the items of an array up to its closing bracket. -/
def readItems : Nat → Nat → List Char → Option (List Value × List Char)
  | 0, _, _ => none
  | steps + 1, depth, text =>
    match text with
    | ']' :: rest => some ([], rest)
    | _ => do
      let (item, rest) ← readValue steps depth text
      match ← skipAll rest with
      | ',' :: rest =>
        let (more, rest) ← readItems steps depth (← skipAll rest)
        return (item :: more, rest)
      | ']' :: rest => return ([item], rest)
      | _ => none

/-- Reads the entries of an inline table up to its closing brace, adding them to those read. -/
def readInline : Nat → Nat → Entries → List Char → Option (Entries × List Char)
  | 0, _, _, _ => none
  | steps + 1, depth, entries, text =>
    match text with
    | '}' :: rest => some (entries, rest)
    | _ => do
      let (key, value, rest) ← readPair skipAll steps depth text
      let entries ← entries.addDotted key.dropLast (key.getLastD "") (.value value) true
      match ← skipAll rest with
      | ',' :: rest => readInline steps depth entries (← skipAll rest)
      | '}' :: rest => return (entries, rest)
      | _ => none

/-- Reads a key, an equals sign and a value; `skip` passes over what may stand around the sign. -/
def readPair (skip : List Char → Option (List Char)) :
    Nat → Nat → List Char → Option (List String × Value × List Char)
  | 0, _, _ => none
  | steps + 1, depth, text => do
    let (key, rest) ← readKey steps text
    match ← skip rest with
    | '=' :: rest =>
      let (value, rest) ← readValue steps depth (← skip rest)
      return (key, value, rest)
    | _ => none

end

/-- A document that is being read: what it holds so far and the table that keys go to. -/
structure Draft where
  entries : Entries
  current : List String

/-- The rest of a line behind a header or a value: blanks and a comment at most. -/
def endLine (text : List Char) : Option (List Char) := do
  match ← skipComment (skipBlank text) with
  | [] => return []
  | '\n' :: rest => return rest
  | '\r' :: '\n' :: rest => return rest
  | _ => none

/-- Reads one line that is not blank; the text has at most `size` characters. -/
def readLine (size : Nat) (draft : Draft) (text : List Char) : Option (Draft × List Char) :=
  match text with
  | '[' :: '[' :: rest => do
    let (key, rest) ← readKey size (skipBlank rest)
    match skipBlank rest with
    | ']' :: ']' :: rest =>
      let entries ← draft.entries.openItem key.dropLast (key.getLastD "")
      return (⟨entries, key⟩, ← endLine rest)
    | _ => none
  | '[' :: rest => do
    let (key, rest) ← readKey size (skipBlank rest)
    match skipBlank rest with
    | ']' :: rest =>
      let entries ← draft.entries.openTable key.dropLast (key.getLastD "")
      return (⟨entries, key⟩, ← endLine rest)
    | _ => none
  | _ => do
    let (key, value, rest) ←
      readPair (fun text => some (skipBlank text)) (4 * size + 4) nestingLimit text
    let entries ← draft.entries.within draft.current
      (Entries.addDotted key.dropLast (key.getLastD "") (.value value) true)
    return (⟨entries, draft.current⟩, ← endLine rest)

/-- Reads the lines of a document. -/
def readDocument : Nat → Draft → List Char → Option Entries
  | 0, _, _ => none
  | steps + 1, draft, text => do
    match ← skipAll text with
    | [] => return draft.entries
    | text =>
      let (draft, rest) ← readLine steps draft text
      readDocument steps draft rest

/-- The entries of the table that a document holds, if the document is well formed. -/
def parse? (document : String) : Option (List (String × Value)) := do
  let text :=
    match document.toList with
    | '\ufeff' :: rest => rest
    | text => text
  let entries ← readDocument (text.length + 1) ⟨[], []⟩ text
  (Node.toValue (.table .header entries)).entries?

end DeployConfig.Toml
