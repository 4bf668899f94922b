import LineCensus.Proofs.Tally.Bookkeeping
import LineCensus.Report.Basic

/-!
# Reports show every line once

A report is sorted twice over, and the sums in its two tables come from parts of the tally that are
written apart. Sorting only permutes, so a row shows what the tally has for its directory
(`Report.directories_perm`) or its language (`LanguageLines.byCount_perm`), and no sum depends on
the order. Where the books of the tally agree, the two tables agree with each other
(`Report.ofTally_conserves`), and the books agree after every run of operations
(`Report.ofTally_run_conserves`).
-/
namespace LineCensus

open FirstSeen

/-- The lines that a row shows for a language. -/
def DirectoryRow.linesOf (row : DirectoryRow) (language : Text) : Nat :=
  ((row.languages.filter fun count => count.language = language).map LanguageCount.lines).sum

/-- A report shows the lines of a tally, each of them once in either table. -/
structure Report.Conserves (tally : Tally) (report : Report) : Prop where
  /-- Every directory of the tally has a row, and nothing else has one. -/
  directories_listed : (report.directories.map DirectoryRow.directory).Perm tally.directories.keys
  /-- No directory has two rows. -/
  directories_once : (report.directories.map DirectoryRow.directory).Nodup
  /-- Every language of the tally has a row, and nothing else has one. -/
  languages_listed : (report.languages.map LanguageRow.language).Perm tally.languages.keys
  /-- No language has two rows. -/
  languages_once : (report.languages.map LanguageRow.language).Nodup
  /-- The total of a directory is the sum of the lines of its languages. -/
  rowTotal_eq : ∀ row ∈ report.directories, row.total = (row.languages.map LanguageCount.lines).sum
  /-- A row shows what the tally has for its directory, language by language. -/
  rowLines_eq : ∀ row ∈ report.directories, ∀ language,
    row.linesOf language = tally.linesOf row.directory language
  /-- The total of the report is that of the tally. -/
  total_eq_tally : report.totalLines = tally.grandTotal
  /-- It is the sum of the totals of the directories. -/
  total_eq_directories : report.totalLines = (report.directories.map DirectoryRow.total).sum
  /-- It is the sum of the lines of the languages. -/
  total_eq_languages : report.totalLines = (report.languages.map LanguageRow.lines).sum
  /-- The lines of a language are the sum of its lines in all directories. -/
  languageLines_eq : ∀ row ∈ report.languages,
    row.lines = (report.directories.map fun other => other.linesOf row.language).sum
  /-- A language without a row is not shown in any directory. -/
  unlisted : ∀ language, language ∉ report.languages.map LanguageRow.language →
    ∀ row ∈ report.directories, row.linesOf language = 0

namespace LanguageLines

/-- The languages by count are those of the table, in another order. -/
theorem byCount_perm (counts : LanguageLines) :
    counts.byCount.Perm (counts.entries.map fun entry => ⟨entry.1, entry.2⟩) :=
  List.mergeSort_perm _ _

/-- The tags of the languages by count are the keys of the table, in another order. -/
theorem byCount_languages (counts : LanguageLines) :
    (counts.byCount.map LanguageCount.language).Perm counts.keys := by
  have tags := counts.byCount_perm.map LanguageCount.language
  rwa [List.map_map] at tags

/-- The lines of the languages by count are all lines. -/
theorem sum_byCount (counts : LanguageLines) :
    (counts.byCount.map LanguageCount.lines).sum = counts.total := by
  rw [(counts.byCount_perm.map LanguageCount.lines).sum_nat, List.map_map]
  rfl

/-- The languages by count have for a language the lines that the table has. -/
theorem sum_filter_byCount (counts : LanguageLines) (language : Text) :
    ((counts.byCount.filter fun count => count.language = language).map LanguageCount.lines).sum =
      counts.linesOf language := by
  have found := (counts.byCount_perm.filter fun count => count.language = language).map
    LanguageCount.lines
  rw [found.sum_nat, List.filter_map, List.map_map, ← sum_entriesOf_entries]
  rfl

/-- An entry by count has the lines that the table has for its language. -/
theorem lines_of_mem_byCount {counts : LanguageLines} {count : LanguageCount}
    (inside : count ∈ counts.byCount) : count.lines = counts.linesOf count.language := by
  obtain ⟨entry, listed, rfl⟩ := List.mem_map.mp (counts.byCount_perm.mem_iff.mp inside)
  have found : counts.get? entry.1 = some entry.2 := mem_entries_iff.mp listed
  unfold linesOf
  rw [found, Option.getD_some]

end LanguageLines

namespace Report

/-- The rows of the directories are those of the tally, in another order. -/
theorem directories_perm (tally : Tally) :
    (ofTally tally).directories.Perm
      (tally.directories.entries.map fun entry => DirectoryRow.ofCells entry.1 entry.2) :=
  List.mergeSort_perm _ _

/-- The names of the rows are the directories of the tally, in another order. -/
theorem directoryNames_perm (tally : Tally) :
    ((ofTally tally).directories.map DirectoryRow.directory).Perm tally.directories.keys := by
  have rows := (directories_perm tally).map DirectoryRow.directory
  rwa [List.map_map] at rows

/-- The rows of the languages are the languages by count. -/
theorem languages_ofTally (tally : Tally) :
    (ofTally tally).languages.map LanguageRow.language =
      tally.languages.byCount.map LanguageCount.language ∧
    (ofTally tally).languages.map LanguageRow.lines =
      tally.languages.byCount.map LanguageCount.lines := by
  constructor
  · exact List.map_map
  · exact List.map_map

/-- A row of a directory shows the cells of the directory. -/
theorem exists_cells_of_mem {tally : Tally} {row : DirectoryRow}
    (inside : row ∈ (ofTally tally).directories) :
    ∃ cells, tally.cells? row.directory = some cells ∧
      row = DirectoryRow.ofCells row.directory cells := by
  obtain ⟨entry, listed, rfl⟩ := List.mem_map.mp ((directories_perm tally).mem_iff.mp inside)
  exact ⟨entry.2, mem_entries_iff.mp listed, rfl⟩

/-- A row shows for a language the lines that the tally has for it in the directory. -/
theorem linesOf_of_mem {tally : Tally} {row : DirectoryRow}
    (inside : row ∈ (ofTally tally).directories) (language : Text) :
    row.linesOf language = tally.linesOf row.directory language := by
  obtain ⟨cells, found, same⟩ := exists_cells_of_mem inside
  unfold DirectoryRow.linesOf Tally.linesOf
  rw [found, Option.getD_some, same]
  exact cells.sum_filter_byCount language

/-- The rows show for a language the lines that the cells of all directories have for it. -/
theorem sum_linesOf_directories (tally : Tally) (language : Text) :
    ((ofTally tally).directories.map fun row => row.linesOf language).sum =
      (tally.directories.values.map fun cells => cells.linesOf language).sum := by
  have rows := (directories_perm tally).map fun row => row.linesOf language
  rw [rows.sum_nat, List.map_map]
  unfold values
  rw [List.map_map]
  have shown : ∀ entry : Text × LanguageLines,
      (DirectoryRow.ofCells entry.1 entry.2).linesOf language = entry.2.linesOf language :=
    fun entry => entry.2.sum_filter_byCount language
  exact congrArg List.sum (List.map_congr_left fun entry _ => shown entry)

/-- The total of a report is that of its tally. -/
theorem totalLines_ofTally (tally : Tally) : (ofTally tally).totalLines = tally.grandTotal := by
  have totals := (directories_perm tally).map DirectoryRow.total
  rw [List.map_map] at totals
  unfold Tally.grandTotal values
  rw [sumLines_eq_sum, List.map_map]
  exact totals.sum_nat

/-- The report on a tally whose books agree shows its lines. -/
theorem ofTally_conserves {tally : Tally} (recorded : tally.Recorded) :
    (ofTally tally).Conserves tally := by
  have invariant := recorded.invariant
  have names := directoryNames_perm tally
  have tags : ((ofTally tally).languages.map LanguageRow.language).Perm tally.languages.keys :=
    (languages_ofTally tally).1 ▸ tally.languages.byCount_languages
  constructor
  case directories_listed => exact names
  case directories_once => exact names.nodup_iff.mpr tally.directories.keys_nodup
  case languages_listed => exact tags
  case languages_once => exact tags.nodup_iff.mpr tally.languages.keys_nodup
  case rowTotal_eq =>
    intro row inside
    obtain ⟨cells, _, same⟩ := exists_cells_of_mem inside
    rw [same]
    exact cells.sum_byCount.symm
  case rowLines_eq => exact fun row inside => linesOf_of_mem inside
  case total_eq_tally => exact totalLines_ofTally tally
  case total_eq_directories => rfl
  case total_eq_languages =>
    rw [(languages_ofTally tally).2, LanguageLines.sum_byCount, totalLines_ofTally]
    exact invariant.inSum.symm
  case languageLines_eq =>
    intro row inside
    obtain ⟨count, listed, rfl⟩ := List.mem_map.mp inside
    rw [sum_linesOf_directories, ← invariant.byLanguage]
    exact LanguageLines.lines_of_mem_byCount listed
  case unlisted =>
    intro language absent row inside
    -- lines in a directory would be a cell, and a cell is a key of the totals
    by_contra shown
    obtain ⟨cells, found, _⟩ := exists_cells_of_mem inside
    rw [linesOf_of_mem inside] at shown
    unfold Tally.linesOf at shown
    rw [found, Option.getD_some] at shown
    have celled := (invariant.cells _ _ found).mem_keys_iff.mpr (Nat.pos_of_ne_zero shown)
    exact absent (tags.mem_iff.mpr (invariant.mem_languages_iff.mpr ⟨_, _, found, celled⟩))

/-- After every run of operations on any number of tallies, the report on any of them shows its
lines, each once in either table. -/
theorem ofTally_run_conserves {ι : Type} [DecidableEq ι] (operations : List (Tally.Operation ι))
    (name : ι) :
    (ofTally (Tally.Operation.run operations name)).Conserves
      (Tally.Operation.run operations name) :=
  ofTally_conserves (Tally.Operation.run_recorded operations name)

end Report

end LineCensus
