import LineCensus.FileTree.Basic

/-!
# What paths denote

A path is followed from the root or from the working directory, one segment after another.
An empty segment and a lone full stop stay where they are, two full stops go to the directory
above, and a name goes to the entry of that name. A segment can only be taken in a directory,
so a slash after the name of a file leads nowhere.

A symbolic link on the way is replaced by the path that it holds. At the end of the path it is
replaced as well, unless the link itself is asked for. Three limits hold for every path: its
length, the length of each of its names, and the number of links followed on the way.
-/
namespace LineCensus

namespace FileTree

/-- The most bytes in a path. -/
def maxPathLength : Nat := 4095

/-- The most bytes in a name. -/
def maxNameLength : Nat := 255

/-- The most links that are followed for one path. -/
def maxLinks : Nat := 40

/-- A path is short enough to be followed. -/
def fits (path : Path) : Bool := path.length ≤ maxPathLength

/-- A node reached on the way, with the directories above it, the nearest first. -/
structure Position where
  /-- The node reached. -/
  here : Node
  /-- The directories above it. -/
  above : List Node

namespace Position

/-- The directory above; the root is above itself. -/
def up (position : Position) : Position :=
  match position.above with
  | [] => position
  | parent :: others => ⟨parent, others⟩

/-- A node below. -/
def down (position : Position) (node : Node) : Position := ⟨node, position.here :: position.above⟩

end Position

/-- What is found when the segments of a path are taken up to the first link. -/
inductive Arrival where
  /-- The path ends here. -/
  | found (position : Position)
  /-- The path leads nowhere. -/
  | nowhere
  /-- A link is to be replaced, with segments left to take after it. -/
  | link (position : Position) (target : Path) (rest : List EntryName)

/-- Takes segments from a position up to the first link. The last segment does not count as a
link when the link itself is asked for. -/
def advance (follow : Bool) (position : Position) : List EntryName → Arrival
  | [] => .found position
  | segment :: rest =>
    if segment = [] ∨ segment = [fullStop] then advance follow position rest
    else if segment = [fullStop, fullStop] then advance follow position.up rest
    else if segment.length > maxNameLength then .nowhere
    else match position.here.entries.find? segment with
      | none => .nowhere
      | some (.directory entries) =>
        advance follow (position.down (.directory entries)) rest
      | some (.link target) =>
        if rest = [] ∧ ¬ follow then .found (position.down (.link target))
        else .link position target rest
      | some other => if rest = [] then .found (position.down other) else .nowhere

/-- The position at the root. -/
def rootPosition (tree : FileTree) : Position := ⟨tree.root, []⟩

/-- The position from which a path is followed. -/
def start (tree : FileTree) (position : Position) (path : Path) : Position :=
  if path.anchor = .root then tree.rootPosition else position

/-- Takes segments from a position, replacing at most so many links. -/
def follow (tree : FileTree) (final : Bool) :
    Nat → Position → List EntryName → Option Position
  | links, position, segments =>
    match advance final position segments with
    | .found reached => some reached
    | .nowhere => none
    | .link origin target rest =>
      match links with
      | 0 => none
      | left + 1 =>
        if target = [] ∨ ¬ fits target then none
        else follow tree final left (tree.start origin target) (target.segments ++ rest)

/-- The position of the working directory. -/
def workingPosition (tree : FileTree) : Position :=
  tree.workingDirectory.foldl (fun position name =>
    position.down ((position.here.entries.find? name).getD (.directory []))) tree.rootPosition

/-- Where a path leads, where a link at its end is followed or not. -/
def locate? (tree : FileTree) (final : Bool) (path : Path) : Option Position :=
  if path = [] ∨ ¬ fits path then none
  else tree.follow final maxLinks (tree.start tree.workingPosition path) path.segments

/-- The node that a path denotes, where a link at its end is followed or not. -/
def lookup? (tree : FileTree) (final : Bool) (path : Path) : Option Node :=
  (tree.locate? final path).map Position.here

/-- The node that a path denotes, links followed. -/
def find? (tree : FileTree) (path : Path) : Option Node := tree.lookup? true path

/-- The entries of the directory that a path denotes. -/
def list? (tree : FileTree) (path : Path) : Option Entries :=
  match tree.find? path with
  | some (.directory entries) => some entries
  | _ => none

/-- The path denotes a regular file. -/
def isRegular (tree : FileTree) (path : Path) : Bool :=
  match tree.find? path with
  | some node => node.isRegular
  | none => false

/-- The path denotes a directory even when a link at its end is not followed. -/
def isPlainDirectory (tree : FileTree) (path : Path) : Bool :=
  match tree.lookup? false path with
  | some node => node.isDirectory
  | none => false

/-- The bytes of the file that a path denotes. -/
def read? (tree : FileTree) (path : Path) : Option Bytes :=
  match tree.find? path with
  | some (.file bytes) => some bytes
  | _ => none

end FileTree

end LineCensus
