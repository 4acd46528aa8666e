import DeployConfig.Path

/-!
# File trees

A snapshot of the part of a file system that a configuration is read from: which directories and
files there are, and the bytes of each file. An entry is addressed by the list of names that leads
to it from the root. Paths are looked up name by name, as an operating system does it, so a path
that leads through something missing leads nowhere, even if it turns back upwards.
-/

set_option autoImplicit false

namespace DeployConfig

/-- What a name in a directory stands for. -/
inductive FileTree.Entry where
  | directory
  | file (content : ByteArray)

/-- The entries of a snapshot. The root directory is always there and is not listed. -/
structure FileTree where
  entries : List (List String × FileTree.Entry)

namespace FileTree

/-- The snapshot in which nothing but the root exists. -/
def empty : FileTree := ⟨[]⟩

/-- The entry at an address. -/
def at? (tree : FileTree) : List String → Option Entry
  | [] => some .directory
  | address => tree.entries.lookup address

/-- Whether a directory is at an address. -/
def isDirectoryAt (tree : FileTree) (address : List String) : Bool :=
  match tree.at? address with
  | some .directory => true
  | _ => false

/-- Follows names from a directory. An empty name or a dot stays where it is and `..` leads to the
directory above; both need a directory to start from. -/
def follow (tree : FileTree) : List String → List String → Option (List String)
  | address, [] => if (tree.at? address).isSome then some address else none
  | address, name :: rest =>
    if !tree.isDirectoryAt address then none
    else if name == "" || name == "." then follow tree address rest
    else if name == ".." then follow tree address.dropLast rest
    else follow tree (address ++ [name]) rest

/-- The address that an absolute path leads to, if it leads anywhere. -/
def locate (tree : FileTree) (path : Path) : Option (List String) :=
  if path.isAbsolute then tree.follow [] path.pieces else none

/-- The path of an address. -/
def pathOf (address : List String) : Path :=
  ⟨"/" ++ "/".intercalate address⟩

/-- Whether a path leads to a directory. -/
def isDirectory (tree : FileTree) (path : Path) : Bool :=
  match tree.locate path with
  | some address => tree.isDirectoryAt address
  | none => false

/-- The bytes of the file that a path leads to. -/
def content? (tree : FileTree) (path : Path) : Option ByteArray :=
  match (tree.locate path).bind tree.at? with
  | some (.file content) => some content
  | _ => none

/-- Whether a path leads to a file. -/
def isFile (tree : FileTree) (path : Path) : Bool :=
  (tree.content? path).isSome

/-- Why the text of a file cannot be had. -/
inductive Unreadable where
  | missing
  | directory
  | notUnicode

/-- The operating system's words for it. -/
def Unreadable.message : Unreadable → String
  | .missing => "No such file or directory (os error 2)"
  | .directory => "Is a directory (os error 21)"
  | .notUnicode => "stream did not contain valid UTF-8"

/-- The text of the file that a path leads to. -/
def read (tree : FileTree) (path : Path) : Except Unreadable String :=
  match (tree.locate path).bind tree.at? with
  | some (.file content) =>
    match String.fromUTF8? content with
    | some text => .ok text
    | none => .error .notUnicode
  | some .directory => .error .directory
  | none => .error .missing

/-- The names in a directory. -/
def namesIn (tree : FileTree) (path : Path) : List String :=
  match tree.locate path with
  | none => []
  | some address =>
    tree.entries.filterMap fun entry =>
      match entry.1.getLast? with
      | some name => if entry.1.dropLast == address then some name else none
      | none => none

/-- The entries below a directory, each with its path. -/
def below (tree : FileTree) (path : Path) : List (Path × Entry) :=
  match tree.locate path with
  | none => []
  | some address =>
    tree.entries.filterMap fun entry =>
      match address.isPrefixOf? entry.1 with
      | some [] | none => none
      | some more => some (more.foldl Path.join path, entry.2)

/-- Puts an entry at an address, in place of any other there. -/
def put (tree : FileTree) (address : List String) (entry : Entry) : FileTree :=
  ⟨(address, entry) :: tree.entries.filter fun other => other.1 != address⟩

/-- Makes sure that the directories on the way to an address exist, itself included. -/
def putDirectory (tree : FileTree) (address : List String) : FileTree :=
  (List.range (address.length + 1)).foldl
    (fun sofar count =>
      let front := address.take count
      if (sofar.at? front).isSome then sofar else sofar.put front .directory) tree

/-- Writes a file, making the directories on the way to it. -/
def write (tree : FileTree) (address : List String) (content : ByteArray) : FileTree :=
  (tree.putDirectory address.dropLast).put address (.file content)

/-- Removes an entry and everything below it. -/
def remove (tree : FileTree) (address : List String) : FileTree :=
  ⟨tree.entries.filter fun entry => !address.isPrefixOf entry.1⟩

end FileTree

end DeployConfig
