import DeployConfig.CommandLine

/-!
# The program

Takes a snapshot of the files that the command needs, runs the command on it and prints what it
gives.
-/

set_option autoImplicit false

open DeployConfig

namespace DeployConfig.Program

/-- The address that names lead to when every one of them is a directory; `..` leads upwards. -/
def addressOf (names : List String) : List String :=
  names.foldl (fun address name => if name == ".." then address.dropLast else address ++ [name]) []

/-- Adds what a path of the file system leads to, without what is below it. What cannot be read is
left out. -/
def addAlone (tree : FileTree) (path : Path) : IO FileTree := do
  try
    let real ← IO.FS.realPath path.text
    if ← real.isDir then return tree.putDirectory (addressOf path.parts)
    else return tree.write (addressOf path.parts) (← IO.FS.readBinFile real)
  catch _ => return tree

/-- Adds what a path of the file system leads to, with everything below it. Links below it are not
followed. -/
partial def addAll (tree : FileTree) (path : Path) : IO FileTree := do
  let tree ← addAlone tree path
  try
    let mut tree := tree
    for entry in ← (← IO.FS.realPath path.text).readDir do
      match (← entry.path.symlinkMetadata).type with
      | .dir | .file => tree ← addAll tree (path.join entry.fileName)
      | _ => pure ()
    return tree
  catch _ => return tree

/-- A snapshot of the files that a command reads: the first path with the directories on the way to
it, and the others with everything below them. -/
def snapshot : List Path → IO FileTree
  | [] => return .empty
  | root :: inside => do
    let names := root.parts
    let tree ← (List.range (names.length + 1)).foldlM
      (fun tree count => addAlone tree (FileTree.pathOf (names.take count))) .empty
    inside.foldlM addAll tree

/-- One variable of the process, written `name=value`. -/
def readVariable? (bytes : List UInt8) : Option (String × ByteArray) :=
  let equals := '='.toUInt8
  match bytes.dropWhile (· != equals) with
  | _ :: value =>
    (String.fromUTF8? ⟨(bytes.takeWhile (· != equals)).toArray⟩).map fun name =>
      (name, ⟨value.toArray⟩)
  | [] => none

/-- The variables of the process. -/
def bindings : IO Variables := do
  let bytes ← IO.FS.readBinFile "/proc/self/environ"
  return ⟨(bytes.toList.splitOn 0).filterMap readVariable?⟩

end DeployConfig.Program

/-- Runs the program. -/
def main (arguments : List String) : IO UInt32 := do
  let host : Host :=
    { bindings := ← Program.bindings
      directory := ⟨(← IO.currentDir).toString⟩
      architecture := "x86_64" }
  let tree ← Program.snapshot (CommandLine.filesRead host arguments)
  let output := CommandLine.run host tree arguments
  IO.print output.stdout
  IO.eprint output.stderr
  return UInt32.ofNat output.exitCode
