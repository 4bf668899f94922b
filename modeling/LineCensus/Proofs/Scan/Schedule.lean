import LineCensus.Proofs.Scan.FileLog

/-!
# A scan does not depend on how its tallies are merged

The tallies of the files of a scan may be merged by any number of workers: in any brackets
around them in the order of the walk, and with tallies without directories anywhere in between
(`MergeSchedule`). Two schedules need not have the same result, because the order of the
languages in the totals depends on the brackets. The cells do not: they are the tabulation of
the cells of the files in their order (`MergeSchedule.directories_result`). A scan ends by
merging the result into a tally that holds nothing but the scanned directory, and a merge reads
nothing but cells, so the tally of the scan is the same for every schedule, orders included
(`MergeSchedule.ofTopDirectory_merge_result`).
-/
namespace LineCensus

namespace Tally

open FirstSeen

/-- A merge reads nothing but the cells of the other tally. -/
theorem merge_congr (tally : Tally) {left right : Tally}
    (same : left.directories = right.directories) : tally.merge left = tally.merge right := by
  unfold merge
  rw [same]

/-- A tally of one file lists one directory, with at most one language in it. -/
def OfFile (tally : Tally) : Prop :=
  ∃ directory language lines, tally = single directory language lines

/-- The cells of a tally as a log. -/
def cellLog (tally : Tally) : List (Text × List (Text × Nat)) :=
  tally.directories.entries.map fun entry => (entry.1, entry.2.entries)

/-- The cells of a tally of one file are the tabulation of themselves. -/
theorem OfFile.tabulate_cellLog {tally : Tally} (ofFile : tally.OfFile) :
    tally.directories = tabulate tally.cellLog := by
  obtain ⟨directory, language, lines, rfl⟩ := ofFile
  have cells := directories_single directory language lines
  have again : tabulate [(directory, (gatherInto none [(language, lines)]).entries)] =
      tabulate [(directory, [(language, lines)])] := by
    unfold tabulate gatherInto
    rw [writeAll_cons, writeAll_cons]
    simp only [Option.getD_none, LanguageLines.gather_entries]
  unfold cellLog
  rw [cells]
  exact again.symm

end Tally

/-- A way of merging tallies that keeps their order. -/
inductive MergeSchedule where
  /-- A tally without directories. -/
  | empty
  /-- A tally that is to be merged. -/
  | leaf (tally : Tally)
  /-- The result of the left part, into which that of the right part is merged. -/
  | node (left right : MergeSchedule)

namespace MergeSchedule

/-- The tallies that are merged, in their order. -/
def leaves : MergeSchedule → List Tally
  | empty => []
  | leaf tally => [tally]
  | node left right => left.leaves ++ right.leaves

/-- What the merges give. -/
def result : MergeSchedule → Tally
  | empty => Tally.empty
  | leaf tally => tally
  | node left right => left.result.merge right.result

/-- The cells of the result are those of the merged tallies in their order. -/
theorem directories_result (schedule : MergeSchedule)
    (tabular : ∀ tally ∈ schedule.leaves, tally.directories = Tally.tabulate tally.cellLog) :
    schedule.result.directories = Tally.tabulate (schedule.leaves.flatMap Tally.cellLog) := by
  induction schedule with
  | empty => rfl
  | leaf tally => simpa [leaves, result] using tabular
  | node left right stepLeft stepRight =>
    have front := stepLeft fun tally inside => tabular tally (List.mem_append_left _ inside)
    have back := stepRight fun tally inside => tabular tally (List.mem_append_right _ inside)
    unfold result leaves
    rw [Tally.directories_merge_tabulate _ back, front, List.flatMap_append]
    exact (FirstSeen.writeAll_append _ _ _ _).symm

/-- The tally of a file is one of one file. Merged into the tally of the scanned directory, such
tallies give the same for every schedule, with the same orders of directories, of languages in
each of them and of languages in the totals; and what they give is the tally of the scan. -/
theorem ofTopDirectory_merge_result (schedule : MergeSchedule)
    (ofFiles : ∀ tally ∈ schedule.leaves, tally.OfFile) :
    (∀ (tree : FileTree) (file : SourceFile), (tree.tallyFile file).OfFile) ∧
    (∀ other : MergeSchedule, other.leaves = schedule.leaves →
      Tally.ofTopDirectory.merge other.result = Tally.ofTopDirectory.merge schedule.result) ∧
    ∀ (tree : FileTree) (registry : Registry) (root : Path) (scan : Scan),
      Scan.ofRoot tree registry root = .ok scan →
      schedule.leaves = scan.plan.files.map tree.tallyFile →
      scan.tally = Tally.ofTopDirectory.merge schedule.result := by
  have tabular : ∀ tally ∈ schedule.leaves, tally.directories = Tally.tabulate tally.cellLog :=
    fun tally inside => (ofFiles tally inside).tabulate_cellLog
  have cells := schedule.directories_result tabular
  refine ⟨fun tree file => ⟨_, _, _, tree.tallyFile_eq_single file⟩, ?_, ?_⟩
  · intro other same
    have cells' := other.directories_result (same ▸ tabular)
    apply Tally.merge_congr
    rw [cells', cells, same]
  · intro tree registry root scan scanned same
    have inOrder := Tally.directories_foldl_merge tabular Tally.empty
    rw [List.map_id'] at inOrder
    rw [Scan.tally_ofRoot scanned]
    apply Tally.merge_congr
    rw [cells, ← same, inOrder]
    rfl

/-- Three tallies of files where the third comes back to the directory of the first. -/
def returning : MergeSchedule :=
  node (node (leaf (Tally.single "b".toList "c".toList 1))
    (leaf (Tally.single "a".toList "py".toList 1))) (leaf (Tally.single "b".toList "sh".toList 1))

/-- A tally without directories in front of the others changes the order of the totals, but not
in the tally of the scan. -/
theorem ofTopDirectory_merge_returning :
    (node empty returning).result ≠ returning.result ∧
      (∀ tally ∈ returning.leaves, tally.OfFile) ∧
      Tally.ofTopDirectory.merge (node empty returning).result =
        Tally.ofTopDirectory.merge returning.result := by
  have ofFiles : ∀ tally ∈ returning.leaves, tally.OfFile := by
    have single : ∀ directory language lines, (Tally.single directory language lines).OfFile :=
      fun _ _ _ => ⟨_, _, _, rfl⟩
    have listed : returning.leaves = [Tally.single "b".toList "c".toList 1,
      Tally.single "a".toList "py".toList 1, Tally.single "b".toList "sh".toList 1] := rfl
    rw [listed]
    simp only [List.forall_mem_cons, single, List.not_mem_nil, false_implies, implies_true,
      and_self]
  exact ⟨by decide, ofFiles,
    (ofTopDirectory_merge_result returning ofFiles).2.1 (node empty returning) rfl⟩

end MergeSchedule

end LineCensus
