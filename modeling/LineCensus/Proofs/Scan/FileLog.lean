import LineCensus.Proofs.Tally.Components
import LineCensus.Scan

/-!
# The log of the files of a scan

A file leaves one entry in the log of a scan: its directory, with its lines under its language.
A file that cannot be read and a file without source lines leave an entry that has no lines,
so their directory is listed all the same. The cells of the tally of a scan are what this log
leaves after an entry for the scanned directory (`Scan.directories_tallyFiles`).
-/
namespace LineCensus

open FirstSeen

namespace Tally

/-- The tally that lists one directory, with lines of one language in it if there are any. -/
def single (directory language : Text) (lines : Nat) : Tally :=
  (empty.addDirectory directory).record directory language lines

/-- Listing a directory and recording lines in it gathers them into its cells. -/
theorem directories_addDirectory_record (tally : Tally) (directory language : Text)
    (lines : Nat) : ((tally.addDirectory directory).record directory language lines).directories =
      tally.directories.alter directory fun present => gatherInto present [(language, lines)] := by
  by_cases none_at_all : lines = 0
  · subst none_at_all
    rw [record_zero]
    rfl
  · rw [directories_record _ _ _ none_at_all]
    exact alter_alter _ _ _ _

/-- The cells of a tally with one directory are what one entry leaves. -/
theorem directories_single (directory language : Text) (lines : Nat) :
    (single directory language lines).directories =
      tabulate [(directory, [(language, lines)])] :=
  directories_addDirectory_record empty directory language lines

end Tally

namespace FileTree

/-- The source lines of a file, if it can be read. -/
def sourceLines? (tree : FileTree) (file : SourceFile) : Option Nat :=
  (tree.countFile file.language.grammar file.path).toOption.map LineCount.sourceLines

/-- What a file leaves in the log of a scan. -/
def logEntry (tree : FileTree) (file : SourceFile) : Text × List (Text × Nat) :=
  (file.directory, [(file.language.tag, (tree.sourceLines? file).getD 0)])

/-- The tally of a file has one directory, with its source lines under its language. -/
theorem tallyFile_eq_single (tree : FileTree) (file : SourceFile) :
    tree.tallyFile file =
      Tally.single file.directory file.language.tag ((tree.sourceLines? file).getD 0) := by
  unfold tallyFile sourceLines? Tally.single
  cases tree.countFile file.language.grammar file.path with
  | ok _ => rfl
  | error _ => exact (Tally.record_zero _ _ _).symm

/-- The cells of the tally of a file are what its entry leaves. -/
theorem directories_tallyFile (tree : FileTree) (file : SourceFile) :
    (tree.tallyFile file).directories = Tally.tabulate [tree.logEntry file] := by
  rw [tallyFile_eq_single]
  exact Tally.directories_single _ _ _

/-- The sum of the source lines of the files that can be read. -/
theorem sum_sourceLines (tree : FileTree) (files : List SourceFile) :
    (files.map fun file => (tree.sourceLines? file).getD 0).sum =
      (files.filterMap tree.sourceLines?).sum := by
  induction files with
  | nil => rfl
  | cons file files step =>
    rw [List.map_cons, List.sum_cons, step, List.filterMap_cons]
    cases tree.sourceLines? file with
    | none => exact Nat.zero_add _
    | some _ => rfl

end FileTree

namespace Scan

/-- The tally of a scan is that of the files that it planned. -/
theorem tally_ofRoot {tree : FileTree} {registry : Registry} {root : Path} {scan : Scan}
    (scanned : ofRoot tree registry root = .ok scan) :
    scan.tally = tallyFiles tree scan.plan.files := by
  unfold ofRoot at scanned
  split at scanned
  · cases scanned
  · cases scanned
    rfl

/-- A directory has a plan, whose files are those met below it. -/
theorem plan_of_directory (tree : FileTree) (registry : Registry) {root : Path} {entries : Entries}
    (isDirectory : tree.find? root = some (.directory entries)) :
    ∃ plan, tree.plan registry root = .ok plan ∧ plan.files =
      (inNameOrder (tree.entryVisits root entries)).filterMap (registry.sourceFile? root) := by
  unfold FileTree.plan FileTree.walk? FileTree.list?
  rw [isDirectory]
  refine ⟨_, rfl, ?_⟩
  unfold Registry.plan
  dsimp only
  split
  · rfl
  · rfl

/-- A scan succeeds where there is a plan, and tallies the files of the plan. -/
theorem ofRoot_of_plan {tree : FileTree} {registry : Registry} {root : Path} {plan : Plan}
    (planned : tree.plan registry root = .ok plan) :
    ∃ scan, ofRoot tree registry root = .ok scan ∧ scan.tally = tallyFiles tree plan.files := by
  unfold ofRoot
  rw [planned]
  exact ⟨_, rfl, rfl⟩

/-- The cells of the merged tallies of files are what the entries of the files leave. -/
theorem directories_merged (tree : FileTree) (files : List SourceFile) (tally : Tally) :
    ((files.map tree.tallyFile).foldl Tally.merge tally).directories =
      tally.directories.writeAll Tally.gatherInto (files.map tree.logEntry) := by
  have tabulated : ∀ file ∈ files,
      (tree.tallyFile file).directories = Tally.tabulate [tree.logEntry file] :=
    fun file _ => tree.directories_tallyFile file
  rw [Tally.directories_foldl_merge tabulated tally, ← List.map_eq_flatMap]

/-- The cells of the tally of a scan are what an entry for the scanned directory and the
entries of the files leave. -/
theorem directories_tallyFiles (tree : FileTree) (files : List SourceFile) :
    (tallyFiles tree files).directories =
      Tally.tabulate ((topDirectory, []) :: files.map tree.logEntry) :=
  Tally.directories_merge_tabulate Tally.ofTopDirectory (directories_merged tree files Tally.empty)

end Scan

end LineCensus
