import Mathlib.Algebra.Order.BigOperators.Group.Finset
import LineCensus.Proofs.Tally.Sums

/-!
# What a check of the books finds

A check looks at the languages that have cells, one after another in the order in which the cells
are met, and then at two sums. It never looks for a language that has a total and no cell. Yet it
passes exactly when the total of every language is the sum of its cells, and else it names the first
difference in its order (`Tally.check_finds_firstMismatch`). Once the languages with cells agree, no
total is less than its cells, so nothing in the sum of all totals makes up for one without cells
(`LanguageLines.total_eq_iff_of_le`).

No tally is excluded here: cells without lines, and totals that nothing was recorded for, are
compared like all others.
-/
namespace LineCensus

open FirstSeen

namespace LanguageLines

/-- A language that is not listed has no lines. -/
theorem linesOf_of_not_mem {counts : LanguageLines} {language : Text}
    (unlisted : language ∉ counts.keys) : counts.linesOf language = 0 := by
  unfold linesOf
  rw [get?_eq_none_iff.mpr unlisted, Option.getD_none]

/-- The entries of a table are its languages with the lines of each. -/
theorem entries_eq_map (counts : LanguageLines) :
    counts.entries = counts.keys.map fun language => (language, counts.linesOf language) := by
  have itself : ∀ entry ∈ counts.entries, entry = (entry.1, counts.linesOf entry.1) := by
    rintro ⟨language, lines⟩ inside
    have found : counts.get? language = some lines := mem_entries_iff.mp inside
    unfold linesOf
    rw [found, Option.getD_some]
  calc
    counts.entries = counts.entries.map id := (List.map_id _).symm
    _ = counts.entries.map fun entry => (entry.1, counts.linesOf entry.1) :=
      List.map_congr_left itself
    _ = counts.keys.map fun language => (language, counts.linesOf language) := by
      unfold keys entryKeys
      rw [List.map_map]
      rfl

/-- The lines of all languages are those of each of any languages that include the listed ones. -/
theorem total_eq_sum {counts : LanguageLines} {languages : Finset Text}
    (included : ∀ language ∈ counts.keys, language ∈ languages) :
    counts.total = ∑ language ∈ languages, counts.linesOf language := by
  have listed : counts.total = (counts.keys.map counts.linesOf).sum := by
    have read := map_keys_get? counts fun lines => lines.getD 0
    simp only [Option.getD_some, List.map_id'] at read
    exact congrArg List.sum read.symm
  rw [listed, ← List.sum_toFinset _ counts.keys_nodup]
  apply Finset.sum_subset
  · exact fun language inside => included language (List.mem_toFinset.mp inside)
  · exact fun language _ outside =>
      linesOf_of_not_mem fun inside => outside (List.mem_toFinset.mpr inside)

/-- Where no language has fewer lines in the second of two tables, the lines of all languages are
equal only if those of each are. -/
theorem total_eq_iff_of_le {left right : LanguageLines}
    (atMost : ∀ language, left.linesOf language ≤ right.linesOf language) :
    left.total = right.total ↔ ∀ language, left.linesOf language = right.linesOf language := by
  let languages := (left.keys ++ right.keys).toFinset
  have onLeft : left.total = ∑ language ∈ languages, left.linesOf language :=
    total_eq_sum fun language inside => List.mem_toFinset.mpr (List.mem_append_left _ inside)
  have onRight : right.total = ∑ language ∈ languages, right.linesOf language :=
    total_eq_sum fun language inside => List.mem_toFinset.mpr (List.mem_append_right _ inside)
  rw [onLeft, onRight, Finset.sum_eq_sum_iff_of_le fun language _ => atMost language]
  constructor
  · intro same language
    by_cases inside : language ∈ languages
    · exact same language inside
    · have outside : language ∉ left.keys ++ right.keys := fun listed =>
        inside (List.mem_toFinset.mpr listed)
      rw [List.mem_append, not_or] at outside
      rw [linesOf_of_not_mem outside.1, linesOf_of_not_mem outside.2]
  · exact fun same language _ => same language

end LanguageLines

namespace Tally

/-- The lines of a language in all directories, by the cells. -/
def cellSum (tally : Tally) (language : Text) : Nat :=
  (tally.directories.keys.map fun directory => tally.linesOf directory language).sum

/-- The languages that have cells, in the order in which they are first met in the directories. -/
def cellLanguages (tally : Tally) : List Text :=
  (tally.directories.values.flatMap FirstSeen.keys).eraseDups

/-- The first difference between the totals of a tally and its cells, as an error. -/
inductive FirstMismatch (tally : Tally) : Error → Prop where
  /-- The total of a language is not the sum of its cells, and the totals of all languages met
  before it in the cells are. -/
  | language {before after : List Text} {language : Text}
    (listed : tally.cellLanguages = before ++ language :: after)
    (agreeing : ∀ other ∈ before, tally.languageTotal other = tally.cellSum other)
    (differing : tally.languageTotal language ≠ tally.cellSum language) :
    FirstMismatch tally
      (.tallyMismatch language (tally.cellSum language) (tally.languageTotal language))
  /-- The totals of all languages with cells are the sums of their cells, but the totals add up to
  something else than the cells do. -/
  | inSum (agreeing : ∀ language ∈ tally.cellLanguages,
      tally.languageTotal language = tally.cellSum language)
    (differing : tally.languages.total ≠ tally.grandTotal) :
    FirstMismatch tally (.tallyMismatch "total".toList tally.grandTotal tally.languages.total)

variable (tally : Tally)

/-- The totals that the cells give are the lines of each language in all directories. -/
theorem linesOf_cellTotals_eq_cellSum (language : Text) :
    tally.cellTotals.linesOf language = tally.cellSum language :=
  (linesOf_cellTotals tally language).trans (sum_linesOf_keys tally language).symm

/-- The totals that the cells give are in the order of the cells. -/
theorem keys_cellTotals : tally.cellTotals.keys = tally.cellLanguages := by
  rw [cellTotals_eq_writeAll, keys_writeAll, keys_empty, List.nil_append, List.map_flatMap]
  rfl

/-- The totals that the cells give add up to the lines of all directories. -/
theorem total_cellTotals : tally.cellTotals.total = tally.grandTotal := by
  rw [cellTotals_eq_writeAll, LanguageLines.total_writeAll, List.map_flatMap, List.flatMap_def,
    List.sum_flatten, List.map_map]
  exact Nat.zero_add _

/-- A check goes through the languages with cells in the order of the cells. -/
theorem check_eq : tally.check =
    match tally.cellLanguages.find? fun language =>
      tally.languageTotal language ≠ tally.cellSum language with
    | some language =>
      .error (.tallyMismatch language (tally.cellSum language) (tally.languageTotal language))
    | none =>
      if tally.languages.total = tally.grandTotal then .ok ()
      else .error (.tallyMismatch "total".toList tally.grandTotal tally.languages.total) := by
  have entries := tally.cellTotals.entries_eq_map
  simp only [keys_cellTotals, linesOf_cellTotals_eq_cellSum] at entries
  unfold check
  rw [entries, List.find?_map]
  simp only [Function.comp_def]
  cases List.find? _ tally.cellLanguages with
  | none => rfl
  | some _ => rfl

/-- Where the totals of all languages with cells are the sums of their cells, no total is less than
the sum of its cells. -/
theorem cellTotals_le_of_agreeing {tally : Tally} (agreeing : ∀ language ∈ tally.cellLanguages,
    tally.languageTotal language = tally.cellSum language) (language : Text) :
    tally.cellTotals.linesOf language ≤ tally.languages.linesOf language := by
  by_cases celled : language ∈ tally.cellLanguages
  · rw [linesOf_cellTotals_eq_cellSum]
    exact Nat.le_of_eq (agreeing language celled).symm
  · rw [LanguageLines.linesOf_of_not_mem (tally.keys_cellTotals ▸ celled)]
    exact Nat.zero_le _

/-- Where the totals of all languages with cells are the sums of their cells, the totals add up to
what the cells do exactly when there is no total without cells. -/
theorem total_eq_grandTotal_iff {tally : Tally} (agreeing : ∀ language ∈ tally.cellLanguages,
    tally.languageTotal language = tally.cellSum language) :
    tally.languages.total = tally.grandTotal ↔
      ∀ language, tally.languageTotal language = tally.cellSum language := by
  rw [← total_cellTotals, eq_comm,
    LanguageLines.total_eq_iff_of_le (cellTotals_le_of_agreeing agreeing)]
  simp only [linesOf_cellTotals_eq_cellSum, languageTotal, eq_comm]

/-- A check passes where all totals are the sums of their cells, and else fails with the first
difference. -/
theorem check_cases (tally : Tally) :
    (tally.check = .ok () ∧ ∀ language, tally.languageTotal language = tally.cellSum language) ∨
      ∃ error, tally.check = .error error ∧ tally.FirstMismatch error := by
  rw [check_eq]
  cases found : tally.cellLanguages.find? fun language =>
    tally.languageTotal language ≠ tally.cellSum language with
  | some language =>
    obtain ⟨differing, before, after, listed, agreeing⟩ := List.find?_eq_some_iff_append.mp found
    refine .inr ⟨_, rfl, .language listed (fun other inside => ?_) (of_decide_eq_true differing)⟩
    simpa using agreeing other inside
  | none =>
    have agreeing : ∀ language ∈ tally.cellLanguages,
        tally.languageTotal language = tally.cellSum language := by
      intro language inside
      simpa using List.find?_eq_none.mp found language inside
    by_cases inSum : tally.languages.total = tally.grandTotal
    · exact .inl ⟨if_pos inSum, (total_eq_grandTotal_iff agreeing).mp inSum⟩
    · exact .inr ⟨_, if_neg inSum, .inSum agreeing inSum⟩

/-- The first difference between the totals and the cells is what a check fails with. -/
theorem FirstMismatch.check_eq_error {tally : Tally} {error : Error}
    (mismatch : tally.FirstMismatch error) : tally.check = .error error := by
  rw [check_eq]
  cases mismatch with
  | @language before after language listed agreeing differing =>
    have found : tally.cellLanguages.find? (fun language =>
        tally.languageTotal language ≠ tally.cellSum language) = some language := by
      rw [List.find?_eq_some_iff_append]
      refine ⟨decide_eq_true differing, before, after, listed, fun other inside => ?_⟩
      simpa using agreeing other inside
    rw [found]
  | inSum agreeing differing =>
    have absent : tally.cellLanguages.find? (fun language =>
        tally.languageTotal language ≠ tally.cellSum language) = none := by
      rw [List.find?_eq_none]
      intro language inside
      simpa using agreeing language inside
    rw [absent]
    exact if_neg differing

/-- A check passes exactly when the total of every language, listed or not, is the sum of its cells
in all directories, and it fails exactly with the first difference between the totals and the
cells. -/
theorem check_finds_firstMismatch (tally : Tally) :
    (tally.check = .ok () ↔
      ∀ language, tally.languageTotal language = tally.cellSum language) ∧
    ∀ error, tally.check = .error error ↔ tally.FirstMismatch error := by
  refine ⟨⟨fun passed => ?_, fun agreeing => ?_⟩, fun error => ⟨fun failed => ?_, ?_⟩⟩
  · rcases tally.check_cases with ⟨_, agreeing⟩ | ⟨error, failed, _⟩
    · exact agreeing
    · cases passed.symm.trans failed
  · have inSum : tally.languages.total = tally.grandTotal :=
      (total_eq_grandTotal_iff fun language _ => agreeing language).mpr agreeing
    apply check_eq_ok _ inSum
    intro language
    rw [agreeing, cellSum, sum_linesOf_keys]
  · rcases tally.check_cases with ⟨passed, _⟩ | ⟨error', failed', mismatch⟩
    · cases passed.symm.trans failed
    · cases failed'.symm.trans failed
      exact mismatch
  · exact FirstMismatch.check_eq_error

-- a total without cells shows in the sums only
example : (Tally.check { languages := (∅ : LanguageLines).add "go".toList 3 }) =
    .error (.tallyMismatch "total".toList 0 3) := by decide

end Tally

end LineCensus
