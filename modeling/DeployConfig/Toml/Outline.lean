import DeployConfig.Toml.Value

/-!
# The outline of a TOML document

While a document is read, its tables differ in how they came about, because that decides what may
still be added to them. A table can be opened by its own header; it can be needed on the way to
another header, and then its own header may still follow; or it can be made by a dotted key, and
then only dotted keys add to it. Arrays of tables grow with each header in double brackets, and a
path through one leads into its last table. Plain values, inline tables and arrays among them, are
closed.
-/

set_option autoImplicit false

namespace DeployConfig.Toml

/-- How a table came about. -/
inductive Origin where
  | header
  | passing
  | dotted
deriving DecidableEq

/-- A part of a document that is being read. -/
inductive Node where
  | value (value : Value)
  | table (origin : Origin) (entries : List (String × Node))
  | tables (items : List (List (String × Node)))

/-- The entries of a table that is being read. -/
abbrev Entries := List (String × Node)

namespace Entries

/-- Puts a node under a key, in the place of the one that is there. -/
def set (key : String) (node : Node) (entries : Entries) : Entries :=
  match entries with
  | [] => [(key, node)]
  | (name, held) :: rest =>
    if name == key then (key, node) :: rest else (name, held) :: set key node rest

/-- Adds an entry under a key that is still free. -/
def add (key : String) (node : Node) (entries : Entries) : Option Entries :=
  match entries.lookup key with
  | some _ => none
  | none => some (entries ++ [(key, node)])

/-- Changes the table that a header path leads to, making the tables on the way. -/
def within (path : List String) (change : Entries → Option Entries) (entries : Entries) :
    Option Entries :=
  match path with
  | [] => change entries
  | key :: path =>
    match entries.lookup key with
    | none => do
      return entries ++ [(key, .table .passing (← within path change []))]
    | some (.table origin inner) => do
      return set key (.table origin (← within path change inner)) entries
    | some (.tables items) =>
      match items.getLast? with
      | some inner => do
        return set key (.tables (items.dropLast ++ [← within path change inner])) entries
      | none => none
    | some (.value _) => none

/-- Adds the value of a dotted key: `path` is the key without its last part. A table that was
opened by its own header takes no dotted keys, and the table that gets the value must itself have
been made by one, unless the key has one part only. -/
def addDotted (path : List String) (key : String) (value : Node) (inDotted : Bool)
    (entries : Entries) : Option Entries :=
  match path with
  | [] => if inDotted then add key value entries else none
  | first :: path =>
    match entries.lookup first with
    | none => do
      return entries ++ [(first, .table .dotted (← addDotted path key value true []))]
    | some (.table origin inner) =>
      if origin == .header then none
      else do
        let inner ← addDotted path key value (origin == .dotted) inner
        return set first (.table origin inner) entries
    | some (.tables items) =>
      match items.getLast? with
      | some inner => do
        let inner ← addDotted path key value false inner
        return set first (.tables (items.dropLast ++ [inner])) entries
      | none => none
    | some (.value _) => none

/-- Opens a table by its header. -/
def openTable (path : List String) (key : String) (entries : Entries) : Option Entries :=
  within path (fun parent =>
    match parent.lookup key with
    | none => some (parent ++ [(key, .table .header [])])
    | some (.table .passing inner) => some (set key (.table .header inner) parent)
    | some _ => none) entries

/-- Adds a table to an array of tables by its header. -/
def openItem (path : List String) (key : String) (entries : Entries) : Option Entries :=
  within path (fun parent =>
    match parent.lookup key with
    | none => some (parent ++ [(key, .tables [[]])])
    | some (.tables items) => some (set key (.tables (items ++ [[]])) parent)
    | some _ => none) entries

end Entries

mutual

/-- The value of a finished part. -/
def Node.toValue : Node → Value
  | .value value => value
  | .table _ entries => .ofEntries (entriesToValues entries)
  | .tables items => .array (itemsToValues items)

/-- The values of the entries of a finished table. -/
def entriesToValues : List (String × Node) → List (String × Value)
  | [] => []
  | (key, node) :: rest => (key, node.toValue) :: entriesToValues rest

/-- The values of the tables in a finished array. -/
def itemsToValues : List (List (String × Node)) → List Value
  | [] => []
  | item :: rest => .ofEntries (entriesToValues item) :: itemsToValues rest

end

end DeployConfig.Toml
