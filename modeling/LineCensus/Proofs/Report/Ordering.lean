import LineCensus.Proofs.Report.Conservation
import LineCensus.Proofs.Text.ByteOrder
import LineCensus.Proofs.Text.Decoding

/-!
# The order of a report

A report lists the directories of a tally in the order of the bytes of their names, where no two
names have the same bytes, and wherever it lists languages it ranks them: by falling count, and
where counts are equal in the order of the table that they come from. Nothing is lost, repeated or
changed in either (`Report.ofTally_ordered`).

Both follow from the sort alone, whatever the tally holds. That ties keep their order is a law of
its own (`filter_mergeSort_of_ties`): the items that tie are in order before the sort, and a sort
leaves such items as they stand.
-/
namespace LineCensus

/-- Items that tie are left by a sort in the order that they have. -/
theorem filter_mergeSort_of_ties {α : Type} {before : α → α → Bool}
    (trans : ∀ first second third, before first second → before second third → before first third)
    (total : ∀ first second, before first second || before second first)
    {keep : α → Bool} (tied : ∀ first second, keep first → keep second → before first second)
    (items : List α) : (items.mergeSort before).filter keep = items.filter keep := by
  have ordered : (items.filter keep).Pairwise fun first second => before first second :=
    List.pairwise_of_forall_mem_list fun first inside second inside' =>
      tied first second (List.mem_filter.mp inside).2 (List.mem_filter.mp inside').2
  have kept : (items.filter keep).Sublist (items.mergeSort before) :=
    List.sublist_mergeSort trans total ordered List.filter_sublist
  have among : (items.filter keep).Sublist ((items.mergeSort before).filter keep) := by
    have again := kept.filter keep
    rwa [List.filter_filter, funext fun item => Bool.and_self (keep item)] at again
  have count := ((List.mergeSort_perm items before).filter keep).length_eq
  exact (among.eq_of_length count.symm).symm

/-- A list ranks the languages of a table: by falling count, and first seen first where counts are
equal. -/
structure LanguageLines.Ranks (counts : LanguageLines) (ranked : List LanguageCount) : Prop where
  /-- It has the entries of the table, and nothing else. -/
  perm : ranked.Perm (counts.entries.map fun entry => ⟨entry.1, entry.2⟩)
  /-- Counts do not rise. -/
  falling : ranked.Pairwise fun left right => right.lines ≤ left.lines
  /-- Entries with equal counts are in the order of the table. -/
  ties : ∀ lines, ranked.filter (fun count => count.lines = lines) =
    (counts.entries.map fun entry => ⟨entry.1, entry.2⟩).filter fun count => count.lines = lines

/-- A report lists the directories of a tally by the bytes of their names, and ranks languages. -/
structure Report.Ordered (tally : Tally) (report : Report) : Prop where
  /-- Every directory of the tally has one row. -/
  directories_perm : (report.directories.map DirectoryRow.directory).Perm tally.directories.keys
  /-- The bytes of the names ascend, without ties. -/
  directories_ascending : report.directories.Pairwise fun left right =>
    left.directory.utf8 < right.directory.utf8
  /-- A row has the lines of its directory, and ranks its languages. -/
  rows_ranked : ∀ row ∈ report.directories, ∃ cells, tally.cells? row.directory = some cells ∧
    row.total = cells.total ∧ cells.Ranks row.languages
  /-- The languages of all directories are ranked. -/
  languages_ranked :
    tally.languages.Ranks (report.languages.map fun row => ⟨row.language, row.lines⟩)

/-- The languages by count are ranked. -/
theorem LanguageLines.byCount_ranks (counts : LanguageLines) : counts.Ranks counts.byCount := by
  let before : LanguageCount → LanguageCount → Bool :=
    fun left right => decide (right.lines ≤ left.lines)
  have trans : ∀ first second third, before first second → before second third →
      before first third := by
    simp only [before, decide_eq_true_eq]
    omega
  have total : ∀ first second, before first second || before second first := by
    simp only [before, Bool.or_eq_true, decide_eq_true_eq]
    omega
  constructor
  case perm => exact counts.byCount_perm
  case falling => exact (List.pairwise_mergeSort trans total _).imp of_decide_eq_true
  case ties =>
    intro lines
    apply filter_mergeSort_of_ties trans total
    simp only [before, decide_eq_true_eq]
    omega

namespace Report

/-- The report on a tally is ordered: by the bytes of the names of the directories, and by count
wherever languages are listed, where ties are in first-seen order. -/
theorem ofTally_ordered (tally : Tally) : (ofTally tally).Ordered tally := by
  constructor
  case directories_perm => exact directoryNames_perm tally
  case directories_ascending =>
    apply Bytes.pairwise_mergeSort fun row : DirectoryRow => row.directory.utf8
    have distinct := tally.directories.keys_nodup.map Utf8.utf8_injective
    unfold FirstSeen.keys entryKeys at distinct
    rw [List.map_map] at distinct ⊢
    exact distinct
  case rows_ranked =>
    intro row inside
    obtain ⟨cells, found, same⟩ := exists_cells_of_mem inside
    refine ⟨cells, found, ?_, ?_⟩
    · rw [same]
      rfl
    · rw [same]
      exact cells.byCount_ranks
  case languages_ranked =>
    have counts : (ofTally tally).languages.map (fun row => ⟨row.language, row.lines⟩) =
        tally.languages.byCount := by
      unfold ofTally
      rw [List.map_map]
      exact List.map_id _
    rw [counts]
    exact tally.languages.byCount_ranks

end Report

end LineCensus
