import LineCensus.FileTree.Walk
import LineCensus.Line.Count
import LineCensus.Path.Relative
import LineCensus.Registry.Basic
import LineCensus.Tally

/-!
# Scans

A scan first plans and then counts. The plan of a directory tells which of its files have a
language, and where their lines are reported; the files without one are only listed. Every
planned file gives a tally of its own, which lists the directory of the file even when no line
is counted or the file cannot be read. These tallies are merged in the order of the walk, and
the result is merged into a tally that lists the scanned directory itself first.
-/
namespace LineCensus

/-- A file to count. -/
structure SourceFile where
  /-- Its path, from the scanned directory as it was spelled. -/
  path : Path
  /-- The directory under which its lines are reported. -/
  directory : Text
  /-- Its language. -/
  language : Language
  deriving DecidableEq, Repr

/-- What a scan is about to do. -/
structure Plan where
  /-- The number of directories met. -/
  directories : Nat
  /-- The files to count, in the order of the walk. -/
  files : List SourceFile
  /-- The files without a language, in the order of the walk. -/
  unsupported : List Path
  deriving DecidableEq, Repr

namespace Registry

/-- The language of a file met by a walk, from its name as text. -/
def languageOf? (registry : Registry) (name : EntryName) : Option Language :=
  registry.resolve? (Utf8.decode name)

/-- The file to count at a visit, if it is one of a file with a language. -/
def sourceFile? (registry : Registry) (root : Path) : Visit → Option SourceFile
  | .directory _ => none
  | .file path name =>
    (registry.languageOf? name).map fun language =>
      ⟨path, ((path.parent?).getD root).reportName root, language⟩

/-- The path of a file without a language at a visit. -/
def unsupported? (registry : Registry) : Visit → Option Path
  | .directory _ => none
  | .file path name => if (registry.languageOf? name).isNone then some path else none

/-- The plan of a walk from a root. -/
def plan (registry : Registry) (root : Path) (visits : List Visit) : Plan where
  directories := visits.countP Visit.isDirectory
  files := visits.filterMap (registry.sourceFile? root)
  unsupported := visits.filterMap registry.unsupported?

end Registry

namespace FileTree

/-- The plan of the directory at a path. -/
def plan (tree : FileTree) (registry : Registry) (root : Path) : Except Error Plan :=
  match tree.walk? root with
  | some visits => .ok (registry.plan root visits)
  | none => .error (.rootNotFound root)

/-- The lines of a file by kind. -/
def countFile (tree : FileTree) (grammar : Grammar) (path : Path) : Except Error LineCount :=
  match tree.read? path with
  | some bytes => .ok (grammar.countBytes bytes)
  | none => .error (.fileRead path "not a readable file".toList)

/-- The tally of one file. -/
def tallyFile (tree : FileTree) (file : SourceFile) : Tally :=
  let listed := Tally.empty.addDirectory file.directory
  match tree.countFile file.language.grammar file.path with
  | .ok count => listed.record file.directory file.language.tag count.sourceLines
  | .error _ => listed

/-- The error of a planned file that cannot be read. -/
def failure? (tree : FileTree) (file : SourceFile) : Option Error :=
  match tree.countFile file.language.grammar file.path with
  | .ok _ => none
  | .error error => some error

end FileTree

/-- The tally that lists the scanned directory and nothing else. -/
def Tally.ofTopDirectory : Tally := Tally.empty.addDirectory topDirectory

/-- What a scan has found. -/
structure Scan where
  /-- What it was about to do. -/
  plan : Plan
  /-- The errors of the files that could not be read, in the order of the walk. -/
  failures : List Error
  /-- The lines of all files. -/
  tally : Tally

namespace Scan

/-- The tally of planned files: those of the files merged in order, and the result merged into
the tally of the scanned directory. -/
def tallyFiles (tree : FileTree) (files : List SourceFile) : Tally :=
  Tally.ofTopDirectory.merge ((files.map tree.tallyFile).foldl Tally.merge Tally.empty)

/-- Scans the directory at a path. -/
def ofRoot (tree : FileTree) (registry : Registry) (root : Path) : Except Error Scan :=
  match tree.plan registry root with
  | .error error => .error error
  | .ok plan =>
    .ok ⟨plan, plan.files.filterMap tree.failure?, tallyFiles tree plan.files⟩

end Scan

end LineCensus
