import LineCensus.FileTree.Resolve

/-!
# Walking a file tree

A walk goes through a directory depth first, the entries of each directory in the order of the
bytes of their names, files and directories mixed. It meets every directory below the start,
without passing through links, and every regular file, where a link counts as a file when the
path of the link denotes one. Other links and special entries are passed over. A directory
whose path is too long cannot be listed.
-/
namespace LineCensus

/-- What a walk meets. -/
inductive Visit where
  /-- A directory. -/
  | directory (path : Path)
  /-- A regular file, or a link to one, with its name. -/
  | file (path : Path) (name : EntryName)
  deriving DecidableEq, Repr

namespace Visit

/-- The path of what is met. -/
def path : Visit → Path
  | directory path => path
  | file path _ => path

/-- A directory is met. -/
def isDirectory : Visit → Bool
  | directory _ => true
  | file _ _ => false

end Visit

/-- Named visits in the order of the names. -/
def inNameOrder (visits : List (EntryName × List Visit)) : List Visit :=
  (visits.mergeSort fun left right => left.1.atMost right.1).flatMap Prod.snd

namespace FileTree

mutual

/-- What a walk meets at a node with a path and a name. -/
def visits (tree : FileTree) (path : Path) (name : EntryName) : Node → List Visit
  | .file _ => [.file path name]
  | .unreadable => [.file path name]
  | .special => []
  | .link _ => if tree.isRegular path then [.file path name] else []
  | .directory entries =>
    .directory path ::
      if fits path then inNameOrder (entryVisits tree path entries) else []

/-- What a walk meets at each entry of a directory with a path. -/
def entryVisits (tree : FileTree) (path : Path) :
    List (EntryName × Node) → List (EntryName × List Visit)
  | [] => []
  | (name, node) :: others =>
    (name, visits tree (path.entry name) name node) :: entryVisits tree path others

end

/-- What a walk of a root meets, or nothing when the root is no directory. A root that is a
link is walked, but it is not met itself. -/
def walk? (tree : FileTree) (root : Path) : Option (List Visit) :=
  (tree.list? root).map fun entries =>
    (if tree.isPlainDirectory root then [.directory root] else []) ++
      inNameOrder (tree.entryVisits root entries)

end FileTree

end LineCensus
