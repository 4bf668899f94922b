import LineCensus.Proofs.FileTree.Order
import LineCensus.Proofs.Scan.FileLog
import LineCensus.Registry.Standard

/-!
# A scan does not depend on how its directory is spelled

A directory has many paths: relative ones and absolute ones, with full stops, repeated slashes and
ways up and down again, or through links. The paths of a plan repeat the one that was given, but the
tally of the scan has none of them. Two paths that lead to one place give the same tally, with the
same names of directories in the same orders (`Scan.tally_eq_of_located`).

Below such paths the same names lead to the same place, so a walk meets the same chains of names,
and two ascending lists of the same chains are one list. Of the parent of a file the names on the
way are left under either spelling (`Path.EntrySpelling.parent?_under?`), so it is reported under
one name.
-/
namespace LineCensus

/-- A directory is reported by what is left of its path under the scanned one. -/
theorem Path.reportName_eq_of_under? {directory root other otherRoot left : Path}
    (below : directory.under? root = some left) (otherBelow : other.under? otherRoot = some left) :
    directory.reportName root = other.reportName otherRoot := by
  unfold reportName
  rw [below, otherBelow]
  rfl

/-- The parent of a path below a directory is reported under one name, however the directory is
spelled. -/
theorem Path.reportName_parent_below {root other : Path} {chain : List EntryName}
    (nonempty : root ≠ []) (otherNonempty : other ≠ []) (below : chain ≠ [])
    (proper : ∀ name ∈ chain, name.Proper) :
    ((root.below chain).parent?.getD root).reportName root =
      ((other.below chain).parent?.getD other).reportName other := by
  obtain ⟨front, name, rfl⟩ := (List.eq_nil_or_concat chain).resolve_left below
  rw [List.concat_eq_append] at proper ⊢
  obtain ⟨_, spelling⟩ := exists_entrySpelling nonempty
  obtain ⟨_, otherSpelling⟩ := exists_entrySpelling otherNonempty
  obtain ⟨parent, parented, left⟩ := spelling.parent?_under? proper
  obtain ⟨otherParent, otherParented, otherLeft⟩ := otherSpelling.parent?_under? proper
  rw [parented, otherParented]
  exact reportName_eq_of_under? left otherLeft

/-- The tally of a file is made from its directory, its language and its bytes. -/
theorem FileTree.tallyFile_congr {tree : FileTree} {file other : SourceFile}
    (directory : file.directory = other.directory) (language : file.language = other.language)
    (read : tree.read? file.path = tree.read? other.path) :
    tree.tallyFile file = tree.tallyFile other := by
  unfold tallyFile countFile
  rw [directory, language, read]
  cases tree.read? other.path with
  | none => rfl
  | some bytes => rfl

namespace Scan

open Entries (forall_below_cons forall_below_nil)

section Respelling

variable {tree : FileTree} {registry : Registry} {root other : Path} {entries : Entries}
  {chain : List EntryName} {node : Node} {position : FileTree.Position}

/-- Below two paths of one place, names lead to one place. -/
theorem find?_below_eq (located : tree.locate? true root = some position)
    (otherLocated : tree.locate? true other = some position)
    (isDirectory : position.here.isDirectory) (below : chain ≠ [])
    (proper : ∀ name ∈ chain, name.Proper) (within : tree.WithinLimits (root.below chain))
    (otherWithin : tree.WithinLimits (other.below chain)) :
    tree.find? (root.below chain) = tree.find? (other.below chain) := by
  have same : tree.locate? true (root.below chain) = tree.locate? true (other.below chain) := by
    refine Option.ext fun reached => ?_
    rw [FileTree.locate?_below_iff located isDirectory below proper within,
      FileTree.locate?_below_iff otherLocated isDirectory below proper otherWithin]
  unfold FileTree.find? FileTree.lookup?
  rw [same]

/-- Walks of entries under two paths meet the same chains of names, where the paths below denote the
same. -/
theorem charts_unique {chains otherChains : List (List EntryName)}
    {visits otherVisits : List Visit}
    (same : ∀ chain node, entries.Below chain node →
      tree.find? (root.below chain) = tree.find? (other.below chain))
    (charts : FileTree.Charts tree root entries chains visits)
    (otherCharts : FileTree.Charts tree other entries otherChains otherVisits) :
    chains = otherChains := by
  refine List.Pairwise.eq_of_mem_iff charts.ordered otherCharts.ordered fun chain => ?_
  rw [charts.mem_iff, otherCharts.mem_iff]
  refine exists_congr fun node => and_congr_right fun below => ?_
  unfold FileTree.meetsFile FileTree.isRegular
  rw [same chain node below]

/-- The file to count at the end of a chain of names has one tally, however the directory is
spelled. -/
theorem map_tallyFile_sourceFile? (nonempty : root ≠ []) (otherNonempty : other ≠ [])
    (below : chain ≠ []) (proper : ∀ name ∈ chain, name.Proper)
    (same : tree.find? (root.below chain) = tree.find? (other.below chain)) :
    (registry.sourceFile? root (.fileBelow root chain)).map tree.tallyFile =
      (registry.sourceFile? other (.fileBelow other chain)).map tree.tallyFile := by
  unfold Registry.sourceFile? Visit.fileBelow
  rw [Option.map_map, Option.map_map]
  congr 1
  funext language
  apply FileTree.tallyFile_congr
  · exact Path.reportName_parent_below nonempty otherNonempty below proper
  · rfl
  · unfold FileTree.read?
    rw [same]

/-- The planned files have the same tallies in the same order. -/
theorem map_tallyFile_plan {plan otherPlan : Plan} (lawful : entries.Lawful)
    (isDirectory : tree.find? root = some (.directory entries))
    (otherIsDirectory : tree.find? other = some (.directory entries))
    (same : ∀ chain node, entries.Below chain node →
      tree.find? (root.below chain) = tree.find? (other.below chain))
    (short : ∀ chain node, entries.Below chain node → FileTree.fits (root.below chain))
    (otherShort : ∀ chain node, entries.Below chain node → FileTree.fits (other.below chain))
    (planned : tree.plan registry root = .ok plan)
    (otherPlanned : tree.plan registry other = .ok otherPlan) :
    plan.files.map tree.tallyFile = otherPlan.files.map tree.tallyFile := by
  obtain ⟨chains, charts⟩ := tree.exists_charts lawful fun _ _ below => short _ _ below
  obtain ⟨otherChains, otherCharts⟩ :=
    tree.exists_charts lawful fun _ _ below => otherShort _ _ below
  obtain rfl := charts_unique same charts otherCharts
  obtain ⟨_, again, files⟩ := plan_of_directory tree registry isDirectory
  cases planned.symm.trans again
  obtain ⟨_, again, otherFiles⟩ := plan_of_directory tree registry otherIsDirectory
  cases otherPlanned.symm.trans again
  rw [files, otherFiles, charts.filterMap_eq fun _ => rfl, otherCharts.filterMap_eq fun _ => rfl,
    List.map_filterMap, List.map_filterMap]
  refine List.filterMap_congr fun chain inside => ?_
  obtain ⟨_, below, _⟩ := (charts.mem_iff chain).mp inside
  exact map_tallyFile_sourceFile? (FileTree.ne_nil_of_find? isDirectory)
    (FileTree.ne_nil_of_find? otherIsDirectory) below.ne_nil (below.proper lawful)
    (same chain _ below)

end Respelling

/-- Two paths of one lawful directory, where the paths of all that lies below it keep within the
limits under either spelling, are scanned to the same tally. -/
theorem tally_eq_of_located (tree : FileTree) (registry : Registry) {root other : Path}
    {position : FileTree.Position} {entries : Entries}
    (located : tree.locate? true root = some position)
    (otherLocated : tree.locate? true other = some position)
    (isDirectory : position.here = .directory entries) (lawful : entries.Lawful)
    (within : ∀ chain node, entries.Below chain node → tree.WithinLimits (root.below chain))
    (otherWithin : ∀ chain node, entries.Below chain node →
      tree.WithinLimits (other.below chain)) :
    ∃ scan respelled, ofRoot tree registry root = .ok scan ∧
      ofRoot tree registry other = .ok respelled ∧ scan.tally = respelled.tally := by
  have found {path : Path} (leads : tree.locate? true path = some position) :
      tree.find? path = some (.directory entries) := by
    unfold FileTree.find? FileTree.lookup?
    rw [leads, Option.map_some, isDirectory]
  have same : ∀ chain node, entries.Below chain node →
      tree.find? (root.below chain) = tree.find? (other.below chain) := fun _ _ below =>
    find?_below_eq located otherLocated (Node.isDirectory_iff.mpr ⟨entries, isDirectory⟩)
      below.ne_nil (below.proper lawful) (within _ _ below) (otherWithin _ _ below)
  obtain ⟨plan, planned, _⟩ := plan_of_directory tree registry (found located)
  obtain ⟨otherPlan, otherPlanned, _⟩ := plan_of_directory tree registry (found otherLocated)
  obtain ⟨scan, scanned, tallied⟩ := ofRoot_of_plan planned
  obtain ⟨respelled, otherScanned, otherTallied⟩ := ofRoot_of_plan otherPlanned
  refine ⟨scan, respelled, scanned, otherScanned, ?_⟩
  rw [tallied, otherTallied]
  unfold tallyFiles
  rw [map_tallyFile_plan lawful (found located) (found otherLocated) same
    (fun _ _ below => (within _ _ below).fits) (fun _ _ below => (otherWithin _ _ below).fits)
    planned otherPlanned]

/-- Entries of a directory with a file in a directory below and a link to this file. -/
def linkedEntries : Entries :=
  [(Text.utf8 "a".toList,
      .directory [(Text.utf8 "x.c".toList, .file (Text.utf8 "int x;\n".toList))]),
    (Text.utf8 "b.c".toList, .link (Text.utf8 "a/x.c".toList))]

/-- A tree in which a directory with these entries has a link to it. -/
def linkedTwice : FileTree where
  root := .directory
    [(Text.utf8 "here".toList, .link (Text.utf8 "src".toList)),
     (Text.utf8 "src".toList, .directory linkedEntries)]
  workingDirectory := []

/-- The place of that directory. -/
def linkedPosition : FileTree.Position := ⟨.directory linkedEntries, [linkedTwice.root]⟩

/-- These entries are lawful. -/
theorem linkedEntries_lawful : linkedEntries.Lawful :=
  .cons (by decide) (by decide) (.cons (by decide) (by decide) .nil .nil)
    (.cons (by decide) (by decide) .nil .nil)

/-- The chains of names to these entries. -/
def linkedChains : List (List EntryName) :=
  [[Text.utf8 "a".toList], [Text.utf8 "a".toList, Text.utf8 "x.c".toList],
    [Text.utf8 "b.c".toList]]

/-- The paths below a spelling of that directory keep within the limits when they denote
something. -/
theorem linkedTwice_within (path : Path)
    (located : ∀ chain ∈ linkedChains, (linkedTwice.locate? true (path.below chain)).isSome) :
    ∀ chain node, linkedEntries.Below chain node → linkedTwice.WithinLimits (path.below chain) := by
  have each {chain : List EntryName} (listed : chain ∈ linkedChains) :
      linkedTwice.WithinLimits (path.below chain) := by
    obtain ⟨_, reached⟩ := Option.isSome_iff_exists.mp (located chain listed)
    exact FileTree.withinLimits_of_locate? reached
  exact forall_below_cons (each (by decide))
    (forall_below_cons (each (by decide)) forall_below_nil forall_below_nil)
    (forall_below_cons (each (by decide)) forall_below_nil forall_below_nil)

/-- That directory gives one tally when it is spelled with two slashes and through its link. -/
theorem tally_eq_of_located_linkedTwice :
    linkedTwice.locate? true (Text.utf8 "src//".toList) = some linkedPosition ∧
      linkedTwice.locate? true (Text.utf8 "./here".toList) = some linkedPosition ∧
      linkedPosition.here = .directory linkedEntries ∧ linkedEntries.Lawful ∧
      (∀ chain node, linkedEntries.Below chain node →
        linkedTwice.WithinLimits (Path.below (Text.utf8 "src//".toList) chain)) ∧
      (∀ chain node, linkedEntries.Below chain node →
        linkedTwice.WithinLimits (Path.below (Text.utf8 "./here".toList) chain)) ∧
      ∃ scan respelled,
        ofRoot linkedTwice Registry.standard (Text.utf8 "src//".toList) = .ok scan ∧
        ofRoot linkedTwice Registry.standard (Text.utf8 "./here".toList) = .ok respelled ∧
        scan.tally = respelled.tally := by
  have slashes : linkedTwice.locate? true (Text.utf8 "src//".toList) = some linkedPosition := rfl
  have linked : linkedTwice.locate? true (Text.utf8 "./here".toList) = some linkedPosition := rfl
  have slashesWithin := linkedTwice_within (Text.utf8 "src//".toList) (by decide)
  have linkedWithin := linkedTwice_within (Text.utf8 "./here".toList) (by decide)
  exact ⟨slashes, linked, rfl, linkedEntries_lawful, slashesWithin, linkedWithin,
    tally_eq_of_located linkedTwice Registry.standard slashes linked rfl linkedEntries_lawful
      slashesWithin linkedWithin⟩

end Scan

end LineCensus
