import LineCensus.Text.Utf8

/-!
# Paths

A path is a sequence of bytes in which slashes separate names. It is kept as it was spelled,
because reports and messages show it so. What it denotes is given by its components: an
anchor, which is the root for a leading slash and the current directory for a leading full
stop, and then the names between the slashes. Repeated slashes, a slash at the end and full
stops between slashes have no component; two full stops are a name like any other here.

Dropping whole components at the front or at the end of the spelling leaves the spelling of
what remains untouched.
-/
namespace LineCensus

/-- The name of an entry of a directory. -/
abbrev EntryName := Bytes

/-- A path as it was spelled. -/
abbrev Path := Bytes

/-- The byte that separates names. -/
def slash : UInt8 := 0x2F

/-- The byte that, alone between slashes, names the directory itself. -/
def fullStop : UInt8 := 0x2E

/-- What a path starts from. -/
inductive Anchor where
  /-- The root directory. -/
  | root
  /-- The current directory, spelled out. -/
  | current
  /-- The current directory, unspelled. -/
  | unspelled
  deriving DecidableEq, Repr

namespace Path

/-- A path as text; bytes that are no text are replaced. -/
def text (path : Path) : Text := Utf8.decode path

/-- The path of an entry of a directory. A slash is added unless the path ends with one. -/
def entry (path : Path) (name : EntryName) : Path :=
  if path.getLast? = some slash then path ++ name else path ++ slash :: name

/-- The names between slashes, empty ones included. -/
def segments (path : Path) : List EntryName :=
  path.foldr (fun byte parts =>
    if byte = slash then [] :: parts
    else match parts with
      | [] => [[byte]]
      | part :: others => (byte :: part) :: others) [[]]

/-- What a path starts from. -/
def anchor (path : Path) : Anchor :=
  match path with
  | [] => .unspelled
  | first :: rest =>
    if first = slash then .root
    else if first = fullStop ∧ (rest = [] ∨ rest.head? = some slash) then .current
    else .unspelled

/-- The part of a path that spells its anchor. -/
def anchorSpelling (path : Path) : Path :=
  match path.anchor with
  | .unspelled => []
  | .root => path.take 1
  | .current => path.take 1

/-- The part of a path after the spelling of its anchor. -/
def afterAnchor (path : Path) : Path :=
  match path.anchor with
  | .unspelled => path
  | .root => path.drop 1
  | .current => path.drop 1

/-- Drops slashes and lone full stops, which have no component, at the front of the names of a
path. -/
def dropEmpty : Path → Path
  | [] => []
  | first :: rest =>
    if first = slash then dropEmpty rest
    else if first = fullStop then
      match rest with
      | [] => []
      | second :: others => if second = slash then dropEmpty others else first :: rest
    else first :: rest

/-- Drops slashes and lone full stops at the end of the names of a path. A lone full stop
reads the same from both ends. -/
def dropEmptyEnd (path : Path) : Path := (dropEmpty path.reverse).reverse

/-- The names of a path after its anchor, from the first byte of the first one on. -/
def body (path : Path) : Path := dropEmpty path.afterAnchor

/-- The names of a path: its segments without the empty ones and the lone full stops. -/
def names (path : Path) : List EntryName :=
  path.afterAnchor.segments.filter fun name => name ≠ [] && name ≠ [fullStop]

/-- A path without the slashes and lone full stops at its end, other than its anchor. -/
def trimEnd (path : Path) : Path := path.anchorSpelling ++ dropEmptyEnd path.afterAnchor

/-- The path without its last component, or nothing when there is no component to drop. The
root has no parent. -/
def parent? (path : Path) : Option Path :=
  match dropEmpty path.afterAnchor.reverse with
  | [] => if path.anchor = .current then some [] else none
  | last =>
    some (path.anchorSpelling ++ (dropEmpty (last.dropWhile (· ≠ slash))).reverse)

/-- Drops names at the front of the names of a path, when they are its first ones. -/
def dropNames? : Path → List EntryName → Option Path
  | body, [] => some body
  | body, name :: others =>
    if body ≠ [] ∧ body.takeWhile (· ≠ slash) = name then
      dropNames? (dropEmpty (body.dropWhile (· ≠ slash))) others
    else none

/-- What is left of a path under a base, as it was spelled, when the components of the base
are the first components of the path. -/
def under? (path base : Path) : Option Path :=
  match base.anchor, base.names with
  | .unspelled, [] => some path.trimEnd
  | anchor, names =>
    if path.anchor = anchor then (dropNames? path.body names).map dropEmptyEnd else none

end Path

end LineCensus
