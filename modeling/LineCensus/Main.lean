import LineCensus.CommandLine.Elapsed
import LineCensus.CommandLine.Reader
import LineCensus.CommandLine.Run

/-!
# The command line program

The part of the disk that a command line names is loaded into a file tree, and the run on
that tree decides everything else. The directories through which the path leads are loaded
without what they hold, and a link on the way as a link to the place that it leads to, so that
the path denotes the same in the tree as on the disk. A directory that cannot be listed is loaded
without entries, the counted one like any other.

Arguments and names come from the system as text here, so those that are no text are not met.
-/
namespace LineCensus.Disk

/-- A name or path as the disk spells it. -/
def spelling (name : String) : Bytes := name.toUTF8.toList

/-- Loads a regular file. What a file without a language holds is never asked for. -/
def loadFile (entry : IO.FS.DirEntry) : IO Node := do
  if (Registry.standard.languageOf? (spelling entry.fileName)).isNone then return .file []
  else
    try return .file (← IO.FS.readBinFile entry.path).toList
    catch _ => return .unreadable

/-- Loads a link below the counted directory: a regular file where it leads to one. -/
def loadLink (entry : IO.FS.DirEntry) : IO Node := do
  try
    if (← entry.path.metadata).type == .file then loadFile entry else return .special
  catch _ => return .special

mutual

/-- Loads an entry of a directory with everything below it. -/
partial def load (entry : IO.FS.DirEntry) : IO Node := do
  try
    match (← entry.path.symlinkMetadata).type with
    | .file => loadFile entry
    | .symlink => loadLink entry
    | .other => return .special
    | .dir => return .directory (← loadEntries entry)
  catch _ => return .directory []

/-- Loads what a directory holds, and nothing where it cannot be listed. -/
partial def loadEntries (directory : IO.FS.DirEntry) : IO Entries := do
  try
    let children ← directory.path.readDir
    children.toList.mapM fun child => do
      return (spelling child.fileName, ← load child)
  catch _ => return []

end

/-- A file tree under way. -/
structure Mount where
  /-- The root directory. -/
  root : Node
  /-- The names from the root to the node that a path has led to. -/
  position : List EntryName

namespace Mount

/-- Puts a node where it belongs. -/
def put (mount : Mount) (node : Node) (names : List EntryName) : Mount :=
  ⟨node.place names mount.root, names⟩

/-- Goes to a directory. -/
def enter (mount : Mount) (names : List EntryName) : Mount :=
  ⟨mount.root.placeDirectory names, names⟩

/-- Takes one segment of a path that is spelled up to it. -/
def take (mount : Mount) (spelled : IO.FS.DirEntry) (segment : EntryName) : IO Mount := do
  if segment = [] ∨ segment = [fullStop] then return mount
  else if segment = [fullStop, fullStop] then
    return { mount with position := mount.position.dropLast }
  else
    let names := mount.position ++ [segment]
    if (← spelled.path.metadata).type != .dir then return mount.put .special names
    else if (← spelled.path.symlinkMetadata).type == .symlink then
      let target := spelling (← IO.FS.realPath spelled.path).toString
      return (mount.put (.link target) names).enter (Path.names target)
    else return mount.enter names

/-- Takes the segments of a path, with the segments before them. -/
def takeAll (directory : IO.FS.DirEntry) (mount : Mount) (before : List EntryName) :
    List EntryName → IO Mount
  | [] => return mount
  | segment :: others => do
    let taken := before ++ [segment]
    let spelled := Utf8.decode (List.intercalate [slash] taken)
    let next ← mount.take ⟨directory.path, String.ofList spelled⟩ segment
    takeAll directory next taken others

end Mount

/-- Loads what a path denotes, and the way to it. -/
def mount (directory : IO.FS.DirEntry) (start : Mount) (path : Path) : IO Mount := do
  let origin : Mount := if path.anchor = .root then ⟨start.root, []⟩ else start
  let reached ← origin.takeAll directory [] path.segments
  let root : IO.FS.DirEntry := ⟨directory.path, String.ofList path.text⟩
  if (← root.path.metadata).type != .dir then return reached
  else return reached.put (.directory (← loadEntries root)) reached.position

/-- What a run with the given options can observe. -/
def observe (options : Options) : IO System := do
  let directory ← IO.FS.realPath (← IO.currentDir)
  let names := Path.names (spelling directory.toString)
  let start : Mount := ⟨Node.placeDirectory names (.directory []), names⟩
  let mounted ← match options.sourceDirectory? with
    | none => pure start
    | some path => try mount ⟨directory, "."⟩ start path catch _ => pure start
  return {
    tree := ⟨mounted.root, names⟩
    display := {
      terminal := ← (← IO.getStdout).isTty
      colourUnwanted := (← IO.getEnv "NO_COLOR").isSome } }

end LineCensus.Disk

open LineCensus

/-- Reads the command line and runs it. -/
def main (arguments : List String) : IO UInt32 := do
  match Options.ofArguments (arguments.map Disk.spelling) with
  | .error refusal =>
    let message := String.ofList refusal.message
    if refusal.exitCode = 0 then IO.println message else IO.eprintln message
    return refusal.exitCode.toUInt32
  | .ok options =>
    let started ← IO.monoNanosNow
    let outcome := (← Disk.observe options).run options
    let elapsed := elapsedText ((← IO.monoNanosNow) - started)
    IO.eprint (String.ofList (outcome.errorOutput elapsed))
    IO.print (String.ofList outcome.output)
    return outcome.exitCode.toUInt32
