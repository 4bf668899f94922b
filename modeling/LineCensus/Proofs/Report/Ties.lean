import LineCensus.Proofs.Report.Ordering
import LineCensus.Proofs.Tally.Agreement

/-!
# Reports on tallies that agree

Tallies that agree may list their directories and languages in different orders. Of that, a report
shows nothing but the order of ties. The directories are sorted by names of which no two are the
same, so they come out in one order (`Report.directoryNames_eq_of_agrees`). Languages are sorted by
falling count, and falling counts have only one order (`UpToTies.of_falling`), so where no two
counts are the same there is one order of the languages as well (`UpToTies.eq_of_nodup`). Sums do
not depend on an order, and so neither does what is computed from them.
-/
namespace LineCensus

open FirstSeen

/-- Two lists differ at most in the order of items that have the same count. -/
structure UpToTies {α : Type} (count : α → Nat) (left right : List α) : Prop where
  /-- They have the same items. -/
  perm : left.Perm right
  /-- At every place the items have the same count. -/
  counts_eq : left.map count = right.map count

/-- Two rows show the same for the same directory, up to ties. -/
structure DirectoryRow.Alike (left right : DirectoryRow) : Prop where
  /-- The directory is the same. -/
  directory_eq : left.directory = right.directory
  /-- Its total is the same. -/
  total_eq : left.total = right.total
  /-- Its languages are the same, up to ties. -/
  languages : UpToTies LanguageCount.lines left.languages right.languages

namespace Report

/-- Two reports show the same, up to ties between languages. -/
structure Alike (left right : Report) : Prop where
  /-- The same directories with the same totals are in the same order. -/
  directories : List.Forall₂ DirectoryRow.Alike left.directories right.directories
  /-- The languages of all directories are the same, up to ties. -/
  languages : UpToTies LanguageRow.lines left.languages right.languages
  /-- The total is the same. -/
  totalLines_eq : left.totalLines = right.totalLines
  /-- The estimate is the same. -/
  estimate_eq : left.estimate = right.estimate

/-- No two languages of a list have the same count. -/
structure Untied (report : Report) : Prop where
  /-- In the row of a directory. -/
  directories : ∀ row ∈ report.directories, (row.languages.map LanguageCount.lines).Nodup
  /-- In the rows of the languages. -/
  languages : (report.languages.map LanguageRow.lines).Nodup

end Report

namespace UpToTies

variable {α β : Type} {count : α → Nat} {left right : List α}

/-- Lists of the same items with falling counts differ at most in the order of ties. -/
theorem of_falling (perm : left.Perm right)
    (falling : left.Pairwise fun first second => count second ≤ count first)
    (falling' : right.Pairwise fun first second => count second ≤ count first) :
    UpToTies count left right := by
  have once : ∀ first second : Nat, first ∈ left.map count → second ∈ right.map count →
      second ≤ first → first ≤ second → first = second :=
    fun _ _ _ _ below above => Nat.le_antisymm above below
  refine ⟨perm, (perm.map count).eq_of_pairwise once ?_ ?_⟩
  · exact List.pairwise_map.mpr falling
  · exact List.pairwise_map.mpr falling'

/-- Items made from the items of two lists, with the same counts, have the same ties. -/
theorem map {count' : β → Nat} {make : α → β} (ties : UpToTies count left right)
    (kept : ∀ item, count' (make item) = count item) :
    UpToTies count' (left.map make) (right.map make) := by
  have counts : ∀ items : List α, (items.map make).map count' = items.map count := by
    intro items
    rw [List.map_map]
    exact List.map_congr_left fun item _ => kept item
  refine ⟨ties.perm.map make, ?_⟩
  rw [counts, counts, ties.counts_eq]

/-- Without ties there is one order. -/
theorem eq_of_nodup (ties : UpToTies count left right) (distinct : (left.map count).Nodup) :
    left = right := by
  apply List.ext_getElem ties.perm.length_eq
  intro place here there
  have listed : right[place] ∈ left := ties.perm.mem_iff.mpr (List.getElem_mem there)
  have same : count left[place] = count right[place] := by
    have both := List.getElem_of_eq ties.counts_eq (by rwa [List.length_map])
    rwa [List.getElem_map, List.getElem_map] at both
  exact List.inj_on_of_nodup_map distinct (List.getElem_mem here) listed same

end UpToTies

namespace LanguageLines

variable {left right : LanguageLines}

/-- Tables that agree have the same entries. -/
theorem entries_perm_of_agrees (same : ∀ language, left.get? language = right.get? language) :
    left.entries.Perm right.entries := by
  apply (List.perm_ext_iff_of_nodup left.nodup.of_map right.nodup.of_map).mpr
  rintro ⟨language, lines⟩
  rw [mem_entries_iff, mem_entries_iff, same]

/-- Tables that agree rank the same languages, up to ties. -/
theorem byCount_upToTies (same : ∀ language, left.get? language = right.get? language) :
    UpToTies LanguageCount.lines left.byCount right.byCount := by
  have entries := (entries_perm_of_agrees same).map fun entry => LanguageCount.mk entry.1 entry.2
  apply UpToTies.of_falling
  · exact left.byCount_perm.trans (entries.trans right.byCount_perm.symm)
  · exact left.byCount_ranks.falling
  · exact right.byCount_ranks.falling

/-- Tables that agree have the same lines in all. -/
theorem total_eq_of_agrees (same : ∀ language, left.get? language = right.get? language) :
    left.total = right.total := by
  unfold total values
  rw [sumLines_eq_sum, sumLines_eq_sum]
  exact ((entries_perm_of_agrees same).map Prod.snd).sum_nat

end LanguageLines

namespace Report

variable {left right : Tally}

/-- The bytes of the names in a report ascend. -/
theorem directoryNames_ascending (tally : Tally) :
    ((ofTally tally).directories.map DirectoryRow.directory).Pairwise
      fun first second => first.utf8 < second.utf8 := by
  have distinct := tally.directories.keys_nodup.map Utf8.utf8_injective
  unfold FirstSeen.keys entryKeys at distinct
  rw [List.map_map] at distinct
  rw [List.pairwise_map]
  apply Bytes.pairwise_mergeSort fun row : DirectoryRow => row.directory.utf8
  rwa [List.map_map]

/-- Reports on tallies that agree list the same directories in the same order. -/
theorem directoryNames_eq_of_agrees (agree : left.agrees right) :
    (ofTally left).directories.map DirectoryRow.directory =
      (ofTally right).directories.map DirectoryRow.directory := by
  have listed := keys_perm_of_listed (Tally.mem_keys_iff_of_agrees agree)
  have perm := (directoryNames_perm left).trans (listed.trans (directoryNames_perm right).symm)
  apply perm.eq_of_pairwise _ (directoryNames_ascending left) (directoryNames_ascending right)
  exact fun _ _ _ _ before after => absurd before (List.lt_asymm after)

/-- Reports on tallies that agree show the same for every directory, up to ties. -/
theorem directories_alike_of_agrees (agree : left.agrees right) :
    List.Forall₂ DirectoryRow.Alike (ofTally left).directories (ofTally right).directories := by
  have names := directoryNames_eq_of_agrees agree
  have length : (ofTally left).directories.length = (ofTally right).directories.length := by
    simpa only [List.length_map] using congrArg List.length names
  refine List.forall₂_iff_get.mpr ⟨length, fun place here there => ?_⟩
  have name : (ofTally left).directories[place].directory =
      (ofTally right).directories[place].directory := by
    have both := List.getElem_of_eq names (by rwa [List.length_map])
    rwa [List.getElem_map, List.getElem_map] at both
  obtain ⟨cells, found, shown⟩ := exists_cells_of_mem (List.getElem_mem here)
  obtain ⟨cells', found', shown'⟩ := exists_cells_of_mem (List.getElem_mem there)
  rw [← name] at found'
  have same := (Tally.agrees_iff.mp agree).2.1 _ cells cells' found found'
  rw [List.get_eq_getElem, List.get_eq_getElem, shown, shown']
  exact ⟨name, LanguageLines.total_eq_of_agrees same, LanguageLines.byCount_upToTies same⟩

/-- Reports without ties that are alike up to ties are the same. -/
theorem Alike.eq_of_untied {report other : Report} (alike : report.Alike other)
    (untied : report.Untied) : report = other := by
  have rows : ∀ {lefts rights : List DirectoryRow}, List.Forall₂ DirectoryRow.Alike lefts rights →
      (∀ row ∈ lefts, (row.languages.map LanguageCount.lines).Nodup) → lefts = rights := by
    intro lefts rights alike distinct
    induction alike with
    | nil => rfl
    | @cons row row' _ _ first _ step =>
      have ranked := first.languages.eq_of_nodup (distinct row List.mem_cons_self)
      have same : row = row' := by
        obtain ⟨directory, total, languages⟩ := row
        obtain ⟨directory', total', languages'⟩ := row'
        obtain ⟨rfl, rfl, -⟩ := first
        exact congrArg (DirectoryRow.mk directory total) ranked
      rw [same, step fun other inside => distinct other (List.mem_cons_of_mem row inside)]
  have directories := rows alike.directories untied.directories
  have languages := alike.languages.eq_of_nodup untied.languages
  obtain ⟨listed, ranked, total, estimate⟩ := report
  obtain ⟨listed', ranked', total', estimate'⟩ := other
  obtain ⟨-, -, rfl, rfl⟩ := alike
  dsimp only at directories languages
  rw [directories, languages]

/-- Reports on tallies that agree show the same lines in all. -/
theorem totalLines_eq_of_agrees (agree : left.agrees right) :
    (ofTally left).totalLines = (ofTally right).totalLines := by
  have totals : ∀ {lefts rights : List DirectoryRow},
      List.Forall₂ DirectoryRow.Alike lefts rights →
        lefts.map DirectoryRow.total = rights.map DirectoryRow.total := by
    intro lefts rights alike
    induction alike with
    | nil => rfl
    | cons first _ step => rw [List.map_cons, List.map_cons, first.total_eq, step]
  exact congrArg sumLines (totals (directories_alike_of_agrees agree))

/-- Reports on tallies that agree show the same languages, up to ties. -/
theorem languages_upToTies_of_agrees (agree : left.agrees right) :
    UpToTies LanguageRow.lines (ofTally left).languages (ofTally right).languages := by
  have ranked := LanguageLines.byCount_upToTies (Tally.agrees_iff.mp agree).2.2
  show UpToTies LanguageRow.lines
    (left.languages.byCount.map fun entry => LanguageRow.mk entry.language entry.lines
      (percentage entry.lines (ofTally left).totalLines))
    (right.languages.byCount.map fun entry => LanguageRow.mk entry.language entry.lines
      (percentage entry.lines (ofTally right).totalLines))
  rw [totalLines_eq_of_agrees agree]
  exact ranked.map fun _ => rfl

/-- Reports on tallies that agree are alike up to ties, and they are the same where no two languages
of a list have the same count. -/
theorem ofTally_alike_of_agrees (agree : left.agrees right) :
    (ofTally left).Alike (ofTally right) ∧
      ((ofTally left).Untied → ofTally left = ofTally right) := by
  have alike : (ofTally left).Alike (ofTally right) := by
    constructor
    case directories => exact directories_alike_of_agrees agree
    case languages => exact languages_upToTies_of_agrees agree
    case totalLines_eq => exact totalLines_eq_of_agrees agree
    case estimate_eq => exact congrArg Estimate.ofSourceLines (totalLines_eq_of_agrees agree)
  exact ⟨alike, alike.eq_of_untied⟩

/-- The rows of the directories are sorted by the bytes of their names. -/
theorem directories_ofTally (tally : Tally) : (ofTally tally).directories =
    (tally.directories.entries.map fun entry => DirectoryRow.ofCells entry.1 entry.2).mergeSort
      fun left right => left.directory.utf8.atMost right.directory.utf8 := rfl

/-- A report has ties where its tally has, and nowhere else. -/
theorem untied_iff {tally : Tally} : (ofTally tally).Untied ↔
    (∀ entry ∈ tally.directories.entries, entry.2.values.Nodup) ∧ tally.languages.values.Nodup := by
  have counts (table : LanguageLines) :
      (table.byCount.map LanguageCount.lines).Nodup ↔ table.values.Nodup := by
    have perm := table.byCount_perm.map LanguageCount.lines
    rw [List.map_map] at perm
    exact perm.nodup_iff
  constructor
  · intro untied
    refine ⟨fun entry listed => ?_, ?_⟩
    · have shown := (directories_perm tally).mem_iff.mpr (List.mem_map_of_mem listed)
      exact (counts entry.2).mp (untied.directories _ shown)
    · rw [← counts, ← (languages_ofTally tally).2]
      exact untied.languages
  · rintro ⟨cells, totals⟩
    constructor
    case directories =>
      intro row inside
      obtain ⟨entry, listed, rfl⟩ := List.mem_map.mp ((directories_perm tally).mem_iff.mp inside)
      exact (counts entry.2).mpr (cells entry listed)
    case languages =>
      rw [(languages_ofTally tally).2, counts]
      exact totals

/-- A tally of one directory with two languages, of which the first has as many lines as given, and
of one without any. -/
def twoLanguages (lines : Nat) : Tally :=
  ((Tally.empty.record "src".toList "rs".toList lines).record "src".toList "c".toList 4).addDirectory
    "docs".toList

/-- The same, recorded the other way round. -/
def otherWayRound (lines : Nat) : Tally :=
  ((Tally.empty.addDirectory "docs".toList).record "src".toList "c".toList 4).record "src".toList
    "rs".toList lines

/-- Tallies that list everything in different orders have the same report where no counts are the
same, and reports that differ in the order of ties where some are. -/
theorem ofTally_alike_otherWayRound :
    (twoLanguages 5).agrees (otherWayRound 5) ∧ twoLanguages 5 ≠ otherWayRound 5 ∧
      ofTally (twoLanguages 5) = ofTally (otherWayRound 5) ∧
    (twoLanguages 4).agrees (otherWayRound 4) ∧
      (ofTally (twoLanguages 4)).directories ≠ (ofTally (otherWayRound 4)).directories ∧
      (ofTally (twoLanguages 4)).Alike (ofTally (otherWayRound 4)) := by
  have agree : (twoLanguages 5).agrees (otherWayRound 5) := by decide
  have agree' : (twoLanguages 4).agrees (otherWayRound 4) := by decide
  have untied : (ofTally (twoLanguages 5)).Untied := untied_iff.mpr (by decide)
  have rows : (ofTally (twoLanguages 4)).directories.map DirectoryRow.languages =
      [[], [⟨"rs".toList, 4⟩, ⟨"c".toList, 4⟩]] := by
    rw [directories_ofTally]
    cbv
  have rows' : (ofTally (otherWayRound 4)).directories.map DirectoryRow.languages =
      [[], [⟨"c".toList, 4⟩, ⟨"rs".toList, 4⟩]] := by
    rw [directories_ofTally]
    cbv
  have differ : (ofTally (twoLanguages 4)).directories ≠
      (ofTally (otherWayRound 4)).directories := by
    intro same
    rw [same, rows'] at rows
    exact absurd rows (by decide)
  exact ⟨agree, by decide, (ofTally_alike_of_agrees agree).2 untied, agree', differ,
    (ofTally_alike_of_agrees agree').1⟩

end Report

end LineCensus
