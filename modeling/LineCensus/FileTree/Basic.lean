import LineCensus.Path.Basic

/-!
# File trees

A file tree is what the census can observe of a file system: directories with named entries,
regular files with their bytes or without any that could be read, symbolic links with the
path they hold, and entries of other kinds. Together with the directory from which relative
paths start it gives every path a meaning (`LineCensus.FileTree.Resolve`).

A directory that cannot be listed stands as one without entries, which is what a walk finds in it.
A path can still lead through such a directory to what is in it, and this the tree does not show.
-/
namespace LineCensus

/-- An entry of a file tree. -/
inductive Node where
  /-- A regular file with its bytes. -/
  | file (bytes : Bytes)
  /-- A regular file that cannot be read. -/
  | unreadable
  /-- An entry that is no file, directory or link. -/
  | special
  /-- A symbolic link with the path it holds. -/
  | link (target : Path)
  /-- A directory with its entries, in any order, or without any if it cannot be listed. -/
  | directory (entries : List (EntryName × Node))

/-- Entries of a directory by name. -/
abbrev Entries := List (EntryName × Node)

namespace Entries

/-- The entry with the given name. -/
def find? (entries : Entries) (name : EntryName) : Option Node := entries.lookup name

/-- Puts a node under a name, in the place of the entry that has the name. -/
def put (name : EntryName) (node : Node) : Entries → Entries
  | [] => [(name, node)]
  | entry :: others =>
    if entry.1 = name then (name, node) :: others else entry :: put name node others

end Entries

namespace Node

/-- The entries of a directory, and none for other nodes. -/
def entries : Node → Entries
  | directory entries => entries
  | _ => []

/-- A node is a directory. -/
def isDirectory : Node → Bool
  | directory _ => true
  | _ => false

/-- A node is a regular file, readable or not. -/
def isRegular : Node → Bool
  | file _ => true
  | unreadable => true
  | _ => false

/-- The node at the end of a chain of names, where no link is followed. -/
def descend? : List EntryName → Node → Option Node
  | [], node => some node
  | name :: others, parent => (parent.entries.find? name).bind fun child => descend? others child

/-- Puts a node at the end of a chain of names, where directories are added for the names on
the way that are none yet. -/
def place (node : Node) : List EntryName → Node → Node
  | [], _ => node
  | name :: others, parent =>
    let child := (parent.entries.find? name).getD (directory [])
    directory (Entries.put name (place node others child) parent.entries)

/-- Puts a directory at the end of a chain of names, where a directory that is there already
stays as it is. -/
def placeDirectory (names : List EntryName) (parent : Node) : Node :=
  if (descend? names parent).any isDirectory then parent
  else place (directory []) names parent

end Node

/-- A file tree with the directory from which relative paths start. -/
structure FileTree where
  /-- The root directory. -/
  root : Node
  /-- The names from the root to the directory from which relative paths start. -/
  workingDirectory : List EntryName

end LineCensus
