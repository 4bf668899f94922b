import Mathlib
import LineCensus.Proofs.Scan.FileLog
import LineCensus.Proofs.Tally.Bookkeeping

/-!
# What the tally of a scan holds

The tally of a scan is determined by the planned files in the order of the walk: by their
directory, their language and their source lines, if they can be read (`Tally.Tabulates`). The
lines of a cell are a sum over files; the directories, the cells of each and the totals are
listed in the order in which files first call for them. The scanned directory is listed first,
wherever its first file is met.

The order of the totals is that of the directories without this exception. Where the scanned
directory has its first file after a directory below it, its languages have their totals after
those of that directory, though its cells are listed before (`languages_not_in_listed_order`).
-/
namespace LineCensus

open FirstSeen

namespace FileTree

/-- A file can be read and has source lines. -/
def hasLines (tree : FileTree) (file : SourceFile) : Bool := (tree.sourceLines? file).any (0 < ·)

end FileTree

/-- A tally holds the source lines of planned files, given in the order of the walk. -/
structure Tally.Tabulates (tree : FileTree) (files : List SourceFile) (tally : Tally) : Prop where
  /-- A cell has the lines of the files of its directory and language that can be read. -/
  linesOf_eq : ∀ directory language, tally.linesOf directory language =
    ((files.filter fun file => file.directory = directory ∧ file.language.tag = language).filterMap
      tree.sourceLines?).sum
  /-- The scanned directory and those that have a planned file are listed, and no others. -/
  listed_iff : ∀ directory, (tally.cells? directory).isSome ↔
    directory = topDirectory ∨ ∃ file ∈ files, file.directory = directory
  /-- The scanned directory is listed first, and then the others by their first file. -/
  directories_order : tally.directories.keys =
    (topDirectory :: files.map SourceFile.directory).eraseDups
  /-- A directory has cells for exactly the languages with lines in it. -/
  cells_listed : ∀ directory cells, tally.cells? directory = some cells →
    ∀ language, language ∈ cells.keys ↔ 0 < tally.linesOf directory language
  /-- The cells of a directory are listed by the first file in it that has lines. -/
  cells_order : ∀ directory cells, tally.cells? directory = some cells → cells.keys =
    ((files.filter fun file => file.directory = directory ∧ tree.hasLines file).map fun file =>
      file.language.tag).eraseDups
  /-- A total has the lines of the files of its language that can be read. -/
  languageTotal_eq : ∀ language, tally.languageTotal language =
    ((files.filter fun file => file.language.tag = language).filterMap tree.sourceLines?).sum
  /-- Exactly the languages with lines have a total. -/
  totals_listed : ∀ language, language ∈ tally.languages.keys ↔ 0 < tally.languageTotal language
  /-- No language has two totals. -/
  totals_once : tally.languages.keys.Nodup
  /-- The totals are listed in the order in which languages are met in the cells of the
  directories, these taken by their first file. -/
  totals_order : tally.languages.keys =
    ((files.map SourceFile.directory).eraseDups.flatMap fun directory =>
      ((tally.cells? directory).getD ∅).keys).eraseDups
  /-- The lines of all directories are those of all files that can be read. -/
  grandTotal_eq : tally.grandTotal = (files.filterMap tree.sourceLines?).sum

namespace FileTree

variable (tree : FileTree) (files : List SourceFile)

/-- The lines that the entries of files have for a directory, file by file. -/
theorem entriesOf_logEntry (directory : Text) :
    (entriesOf (files.map tree.logEntry) directory).flatten =
      (files.filter fun file => file.directory = directory).map fun file =>
        (file.language.tag, (tree.sourceLines? file).getD 0) := by
  unfold entriesOf
  rw [List.filter_map, List.map_map]
  exact List.map_eq_flatMap.symm

/-- The lines that files have for a language. -/
theorem entriesOf_lines (language : Text) :
    (entriesOf (files.map fun file => (file.language.tag, (tree.sourceLines? file).getD 0))
      language).sum =
      ((files.filter fun file => file.language.tag = language).filterMap tree.sourceLines?).sum := by
  rw [← sum_sourceLines]
  unfold entriesOf
  rw [List.filter_map, List.map_map]
  rfl

/-- The lines that the log of files has for a language. -/
theorem sum_entriesOf_logEntry (language : Text) :
    ((files.map tree.logEntry).map fun entry => (entriesOf entry.2 language).sum).sum =
      ((files.filter fun file => file.language.tag = language).filterMap tree.sourceLines?).sum := by
  rw [← entriesOf_lines]
  induction files with
  | nil => rfl
  | cons file files step =>
    rw [List.map_cons, List.map_cons, List.sum_cons, step]
    unfold entriesOf logEntry
    rw [List.map_cons, ← List.singleton_append (l := files.map _), List.filter_append,
      List.map_append, List.sum_append]

/-- The entries of files with lines are those of the files that can be read and have some. -/
theorem withLines_lines :
    (LanguageLines.withLines
      (files.map fun file => (file.language.tag, (tree.sourceLines? file).getD 0))).map Prod.fst =
      (files.filter tree.hasLines).map fun file => file.language.tag := by
  have same : ((fun entry : Text × Nat => decide (entry.2 ≠ 0)) ∘
      fun file : SourceFile => (file.language.tag, (tree.sourceLines? file).getD 0)) =
        tree.hasLines := by
    funext file
    unfold hasLines
    simp only [Function.comp_apply]
    cases tree.sourceLines? file with
    | none => rfl
    | some lines => simp [Nat.pos_iff_ne_zero]
  unfold LanguageLines.withLines
  rw [List.filter_map, List.map_map, same]
  rfl

end FileTree

namespace Scan

variable (tree : FileTree) (files : List SourceFile)

/-- The cells of a directory gather the lines of its files. -/
theorem cells_tallyFiles (directory : Text) :
    ((tallyFiles tree files).cells? directory).getD ∅ = (∅ : LanguageLines).gather
      ((files.filter fun file => file.directory = directory).map fun file =>
        (file.language.tag, (tree.sourceLines? file).getD 0)) := by
  have skipped : (entriesOf ((topDirectory, []) :: files.map tree.logEntry) directory).flatten =
      (entriesOf (files.map tree.logEntry) directory).flatten := by
    unfold entriesOf
    rw [List.filter_cons]
    split
    · rfl
    · rfl
  unfold Tally.cells?
  rw [directories_tallyFiles, Tally.get?_tabulate, skipped, tree.entriesOf_logEntry]

/-- The tally of a scan came about by listing and recording. -/
theorem tallyFiles_recorded : (tallyFiles tree files).Recorded :=
  (Tally.Recorded.empty.addDirectory topDirectory).merge _

/-- The lines of a cell are those of the files of its directory and language. -/
theorem linesOf_tallyFiles (directory language : Text) :
    (tallyFiles tree files).linesOf directory language =
      ((files.filter fun file => file.directory = directory ∧
        file.language.tag = language).filterMap tree.sourceLines?).sum := by
  unfold Tally.linesOf
  rw [cells_tallyFiles, LanguageLines.linesOf_gather, tree.entriesOf_lines, List.filter_filter]
  simp only [Bool.decide_and, Bool.and_comm]
  exact Nat.zero_add _

/-- The scanned directory is listed first, and then the others by their first file. -/
theorem keys_directories_tallyFiles :
    (tallyFiles tree files).directories.keys =
      (topDirectory :: files.map SourceFile.directory).eraseDups := by
  rw [directories_tallyFiles, Tally.keys_tabulate, List.map_cons, List.map_map]
  rfl

/-- The cells of a directory are listed by the first file in it that has lines. -/
theorem keys_cells_tallyFiles (directory : Text) :
    (((tallyFiles tree files).cells? directory).getD ∅).keys =
      ((files.filter fun file => file.directory = directory ∧ tree.hasLines file).map fun file =>
        file.language.tag).eraseDups := by
  rw [cells_tallyFiles, LanguageLines.keys_gather, tree.withLines_lines, List.filter_filter]
  simp only [Bool.decide_and, Bool.decide_eq_true, Bool.and_comm]
  rfl

/-- The lines of a language over all directories are those of its files. -/
theorem sum_linesOf_tallyFiles (language : Text) :
    ((tallyFiles tree files).directories.values.map fun cells => cells.linesOf language).sum =
      ((files.filter fun file => file.language.tag = language).filterMap
        tree.sourceLines?).sum := by
  have log := Tally.sum_linesOf_writeAll ∅ ((topDirectory, []) :: files.map tree.logEntry) language
  rw [directories_tallyFiles]
  unfold Tally.tabulate
  rw [log, List.map_cons, List.sum_cons, tree.sum_entriesOf_logEntry]
  exact (Nat.zero_add _).trans (Nat.zero_add _)

/-- The lines of all directories are those of all files. -/
theorem grandTotal_tallyFiles :
    (tallyFiles tree files).grandTotal = (files.filterMap tree.sourceLines?).sum := by
  have log := Tally.sum_total_writeAll ∅ ((topDirectory, []) :: files.map tree.logEntry)
  unfold Tally.grandTotal
  rw [sumLines_eq_sum, directories_tallyFiles]
  unfold Tally.tabulate
  rw [log, List.map_cons, List.sum_cons, List.map_map, ← tree.sum_sourceLines]
  exact (Nat.zero_add _).trans (Nat.zero_add _)

/-- Before it is merged into the tally of the scanned directory, the merged tally has the
cells of the scan, in the order of the first files. -/
theorem values_merged :
    ((files.map tree.tallyFile).foldl Tally.merge Tally.empty).directories.values =
      (files.map SourceFile.directory).eraseDups.map fun directory =>
        ((tallyFiles tree files).cells? directory).getD ∅ := by
  have tabulated : ((files.map tree.tallyFile).foldl Tally.merge Tally.empty).directories =
      Tally.tabulate (files.map tree.logEntry) := directories_merged tree files Tally.empty
  have same : ∀ directory, ((Tally.tabulate (files.map tree.logEntry)).get? directory).getD ∅ =
      ((tallyFiles tree files).cells? directory).getD ∅ := by
    intro directory
    rw [Tally.get?_tabulate, tree.entriesOf_logEntry, cells_tallyFiles]
  have values := map_keys_get? (Tally.tabulate (files.map tree.logEntry)) fun cells => cells.getD ∅
  rw [Tally.keys_tabulate, List.map_map] at values
  simp only [Option.getD_some, List.map_id', same] at values
  rw [tabulated, ← values]
  rfl

/-- The totals are met in the cells of the directories, these taken by their first file. -/
theorem keys_languages_tallyFiles :
    (tallyFiles tree files).languages.keys =
      ((files.map SourceFile.directory).eraseDups.flatMap fun directory =>
        (((tallyFiles tree files).cells? directory).getD ∅).keys).eraseDups := by
  let merged := (files.map tree.tallyFile).foldl Tally.merge Tally.empty
  have totals : (tallyFiles tree files).languages =
      (∅ : LanguageLines).gather (merged.directories.values.flatMap entries) :=
    Tally.languages_merge Tally.ofTopDirectory merged
  have positive : ∀ cells ∈ merged.directories.values, cells.Positive := by
    intro cells inside
    rw [values_merged] at inside
    obtain ⟨directory, _, rfl⟩ := List.mem_map.mp inside
    rw [cells_tallyFiles]
    exact LanguageLines.positive_empty.gather _
  rw [totals, LanguageLines.keys_gather, LanguageLines.withLines_flatMap_entries positive,
    List.map_flatMap, values_merged, List.flatMap_map]
  rfl

/-- The tally of a scan holds the source lines of its files. -/
theorem tallyFiles_tabulates : (tallyFiles tree files).Tabulates tree files := by
  have invariant := (tallyFiles_recorded tree files).invariant
  constructor
  case linesOf_eq => exact linesOf_tallyFiles tree files
  case listed_iff =>
    intro directory
    have listed : ((tallyFiles tree files).cells? directory).isSome ↔
        directory ∈ (tallyFiles tree files).directories.keys := by
      rw [mem_keys_iff, Option.isSome_iff_exists]
      rfl
    rw [listed, keys_directories_tallyFiles, List.mem_eraseDups, List.mem_cons, List.mem_map]
  case directories_order => exact keys_directories_tallyFiles tree files
  case cells_listed =>
    intro directory cells found language
    unfold Tally.linesOf
    rw [found, Option.getD_some]
    exact (invariant.cells directory cells found).mem_keys_iff
  case cells_order =>
    intro directory cells found
    have listed := keys_cells_tallyFiles tree files directory
    rwa [found, Option.getD_some] at listed
  case languageTotal_eq =>
    intro language
    rw [invariant.byLanguage, sum_linesOf_tallyFiles]
  case totals_listed => exact fun _ => invariant.totals.mem_keys_iff
  case totals_once => exact (tallyFiles tree files).languages.keys_nodup
  case totals_order => exact keys_languages_tallyFiles tree files
  case grandTotal_eq => exact grandTotal_tallyFiles tree files

/-- A scan of a directory succeeds, and its tally holds the source lines of the files that the
plan of the directory names. -/
theorem ofRoot_tabulates (tree : FileTree) (registry : Registry) (root : Path) {entries : Entries}
    (isDirectory : tree.find? root = some (.directory entries)) :
    ∃ plan scan, tree.plan registry root = .ok plan ∧ ofRoot tree registry root = .ok scan ∧
      scan.tally.Tabulates tree plan.files := by
  have walked : ∃ visits, tree.walk? root = some visits := by
    unfold FileTree.walk? FileTree.list?
    rw [isDirectory]
    exact ⟨_, rfl⟩
  obtain ⟨visits, walked⟩ := walked
  have planned : tree.plan registry root = .ok (registry.plan root visits) := by
    unfold FileTree.plan
    rw [walked]
  have scanned : ofRoot tree registry root = .ok ⟨registry.plan root visits,
      (registry.plan root visits).files.filterMap tree.failure?,
      tallyFiles tree (registry.plan root visits).files⟩ := by
    unfold ofRoot
    rw [planned]
  exact ⟨_, _, planned, scanned, tallyFiles_tabulates tree _⟩

/-- A tree in which the file of the scanned directory comes after a directory below it. -/
def lateRootFile : FileTree where
  root := .directory
    [(Text.utf8 "a".toList,
      .directory [(Text.utf8 "x.c".toList, .file (Text.utf8 "int x;\n".toList))]),
     (Text.utf8 "b.py".toList, .file (Text.utf8 "y = 1\n".toList))]
  workingDirectory := []

/-- A registry of the two languages in that tree. -/
def twoLanguages : Registry :=
  Registry.ofLanguages [Language.ofTag .slashes "c", Language.ofTag .hash "py"]

/-- The scan of that tree holds the lines of its two files. -/
theorem ofRoot_tabulates_lateRootFile :
    lateRootFile.find? [fullStop] = some lateRootFile.root ∧
      ∃ plan scan, lateRootFile.plan twoLanguages [fullStop] = .ok plan ∧
        ofRoot lateRootFile twoLanguages [fullStop] = .ok scan ∧
        scan.tally.Tabulates lateRootFile plan.files :=
  ⟨rfl, ofRoot_tabulates lateRootFile twoLanguages [fullStop] rfl⟩

/-- In the scan of that tree the language of the scanned directory comes last in the totals,
though the cells of the scanned directory are listed first. -/
theorem languages_not_in_listed_order :
    ∃ scan, ofRoot lateRootFile twoLanguages [fullStop] = .ok scan ∧
      scan.tally.languages.keys ≠
        (scan.tally.directories.values.flatMap FirstSeen.keys).eraseDups := by
  have orders : ((ofRoot lateRootFile twoLanguages [fullStop]).toOption.map fun scan =>
      (scan.tally.languages.keys,
        (scan.tally.directories.values.flatMap FirstSeen.keys).eraseDups)) =
      some (["c".toList, "py".toList], ["py".toList, "c".toList]) := by cbv
  rcases scanned : ofRoot lateRootFile twoLanguages [fullStop] with error | scan
  · rw [scanned] at orders
    cases orders
  · rw [scanned] at orders
    have both := Prod.mk.inj (Option.some.inj orders)
    refine ⟨scan, rfl, ?_⟩
    rw [both.1, both.2]
    decide

end Scan

end LineCensus
