import LineCensus.Proofs.Tally.Components

/-!
# Sums over the cells of a tally

The lines of a language over all directories, and the lines of all directories, are sums over
the cells, and every way of reading them is one of these two: by the names of the directories
(`sum_linesOf_keys`, `sum_directoryTotal_keys`), by the totals that a check computes from the
cells (`linesOf_cellTotals`), and by the log that the cells came from (`sum_linesOf_writeAll`,
`sum_total_writeAll`).
-/
namespace LineCensus.Tally

open FirstSeen

/-- Gathering into cells adds the lines that the entries have for a language. -/
theorem linesOf_gatherInto (present : Option LanguageLines) (entries : List (Text × Nat))
    (language : Text) :
    (gatherInto present entries).linesOf language =
      (present.map fun cells => cells.linesOf language).getD 0 +
        (entriesOf entries language).sum := by
  unfold gatherInto
  rw [LanguageLines.linesOf_gather]
  cases present with
  | none => rfl
  | some _ => rfl

/-- Gathering into cells adds the lines of all entries. -/
theorem total_gatherInto (present : Option LanguageLines) (entries : List (Text × Nat)) :
    (gatherInto present entries).total =
      (present.map LanguageLines.total).getD 0 + (entries.map Prod.snd).sum := by
  unfold gatherInto
  rw [LanguageLines.total_gather]
  cases present with
  | none => rfl
  | some _ => rfl

/-- A log adds to the lines of a language over all directories what it has for the language. -/
theorem sum_linesOf_writeAll (directories : FirstSeen Text LanguageLines)
    (log : List (Text × List (Text × Nat))) (language : Text) :
    ((directories.writeAll gatherInto log).values.map fun cells => cells.linesOf language).sum =
      (directories.values.map fun cells => cells.linesOf language).sum +
        (log.map fun entry => (entriesOf entry.2 language).sum).sum :=
  sum_values_writeAll (fun cells => cells.linesOf language)
    (fun entries => (entriesOf entries language).sum)
    (fun present entries => linesOf_gatherInto present entries language) directories log

/-- A log adds to the lines of all directories the lines that it has. -/
theorem sum_total_writeAll (directories : FirstSeen Text LanguageLines)
    (log : List (Text × List (Text × Nat))) :
    ((directories.writeAll gatherInto log).values.map LanguageLines.total).sum =
      (directories.values.map LanguageLines.total).sum +
        (log.map fun entry => (entry.2.map Prod.snd).sum).sum :=
  sum_values_writeAll LanguageLines.total (fun entries => (entries.map Prod.snd).sum)
    total_gatherInto directories log

/-- The lines of a language over all directories are those of the cells. -/
theorem sum_linesOf_keys (tally : Tally) (language : Text) :
    (tally.directories.keys.map fun directory => tally.linesOf directory language).sum =
      (tally.directories.values.map fun cells => cells.linesOf language).sum :=
  congrArg List.sum
    (map_keys_get? tally.directories fun cells => (cells.getD ∅).linesOf language)

/-- The lines of all directories are those of each. -/
theorem sum_directoryTotal_keys (tally : Tally) :
    (tally.directories.keys.map tally.directoryTotal).sum = tally.grandTotal :=
  congrArg List.sum (map_keys_get? tally.directories fun cells => (cells.getD ∅).total)

/-- The totals that the cells give are what writing all cells leaves. -/
theorem cellTotals_eq_writeAll (tally : Tally) :
    tally.cellTotals = (∅ : LanguageLines).writeAll LanguageLines.plus
      (tally.directories.values.flatMap FirstSeen.entries) := by
  unfold writeAll
  rw [List.foldl_flatMap]
  rfl

/-- The cells of several tables have for a language the lines that the tables have for it. -/
theorem sum_entriesOf_flatMap_entries (tables : List LanguageLines) (language : Text) :
    (entriesOf (tables.flatMap FirstSeen.entries) language).sum =
      (tables.map fun cells => cells.linesOf language).sum := by
  induction tables with
  | nil => rfl
  | cons cells others step =>
    have first := LanguageLines.sum_entriesOf_entries cells language
    unfold entriesOf at first step ⊢
    rw [List.flatMap_cons, List.filter_append, List.map_append, List.sum_append, first, step,
      List.map_cons, List.sum_cons]

/-- The totals that the cells give are the lines of a language over all directories. -/
theorem linesOf_cellTotals (tally : Tally) (language : Text) :
    tally.cellTotals.linesOf language =
      (tally.directories.values.map fun cells => cells.linesOf language).sum := by
  rw [cellTotals_eq_writeAll, LanguageLines.linesOf_writeAll, sum_entriesOf_flatMap_entries]
  exact Nat.zero_add _

/-- A check passes when the totals are those of the cells, language by language and in sum. -/
theorem check_eq_ok {tally : Tally}
    (byLanguage : ∀ language, tally.languageTotal language =
      (tally.directories.values.map fun cells => cells.linesOf language).sum)
    (inSum : tally.languages.total = tally.grandTotal) : tally.check = .ok () := by
  have agree : tally.cellTotals.entries.find?
      (fun sum => tally.languageTotal sum.1 ≠ sum.2) = none := by
    rw [List.find?_eq_none]
    rintro ⟨language, lines⟩ inside
    have found : tally.cellTotals.get? language = some lines := mem_entries_iff.mp inside
    have same : tally.languageTotal language = lines := by
      rw [byLanguage, ← linesOf_cellTotals]
      unfold LanguageLines.linesOf
      rw [found, Option.getD_some]
    simp [same]
  unfold check
  rw [agree]
  exact if_pos inSum

end LineCensus.Tally
