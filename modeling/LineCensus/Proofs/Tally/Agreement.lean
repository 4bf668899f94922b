import LineCensus.Proofs.Tally.Bookkeeping
import LineCensus.Proofs.Tally.Mismatch

/-!
# Tallies that agree

Two tallies agree when they hold the same, in whatever order they list it. The test for it goes
through the entries of one tally, yet it looks at nothing but the directories that both list and the
tables of their lines (`Tally.agrees_iff`). Where the books of both are in order, the lines of each
language in each directory decide, because the totals follow from the cells
(`Tally.Invariant.agrees_iff`).

A merge adds the lines of two tallies and lists the directories of both
(`Tally.linesOf_merge`, `Tally.mem_keys_merge`), and it keeps the books in order
(`Tally.Invariant.merge`).
-/
namespace LineCensus

namespace FirstSeen

variable {κ α : Type} {left right : FirstSeen κ α}

/-- Where the same keys are listed, each is listed once in either table. -/
theorem keys_perm_of_listed (listed : ∀ key, key ∈ left.keys ↔ key ∈ right.keys) :
    left.keys.Perm right.keys :=
  (List.perm_ext_iff_of_nodup left.keys_nodup right.keys_nodup).mpr listed

variable [DecidableEq κ]

/-- Where the same keys are listed, a key that has a value in one table has one in the other. -/
theorem exists_get?_of_listed (listed : ∀ key, key ∈ left.keys ↔ key ∈ right.keys) {key : κ}
    {value : α} (found : left.get? key = some value) : ∃ value', right.get? key = some value' :=
  mem_keys_iff.mp ((listed key).mp (mem_keys_iff.mpr ⟨value, found⟩))

/-- Where the same keys are listed, a key that has no value in one table has none in the other. -/
theorem get?_eq_none_of_listed (listed : ∀ key, key ∈ left.keys ↔ key ∈ right.keys) {key : κ}
    (missing : left.get? key = none) : right.get? key = none :=
  get?_eq_none_iff.mpr fun inside => get?_eq_none_iff.mp missing ((listed key).mpr inside)

/-- Two tables agree when the same keys are listed and their values pass the test. -/
theorem agrees_iff {same : α → α → Bool} :
    left.agrees same right ↔
      (∀ key, key ∈ left.keys ↔ key ∈ right.keys) ∧
      ∀ key value value', left.get? key = some value → right.get? key = some value' →
        same value value' := by
  have size : ∀ table : FirstSeen κ α, table.keys.length = table.entries.length :=
    fun table => List.length_map ..
  unfold agrees
  rw [Bool.and_eq_true, decide_eq_true_eq, List.all_eq_true]
  constructor
  · rintro ⟨lengths, tested⟩
    have matched : ∀ key value, left.get? key = some value →
        ∃ value', right.get? key = some value' ∧ same value value' := by
      intro key value found
      have test := tested (key, value) (mem_entries_iff.mpr found)
      dsimp only at test
      split at test
      · next value' found' => exact ⟨value', found', test⟩
      · cases test
    have included : left.keys ⊆ right.keys := by
      intro key listed
      obtain ⟨value, found⟩ := mem_keys_iff.mp listed
      obtain ⟨value', found', _⟩ := matched key value found
      exact mem_keys_iff.mpr ⟨value', found'⟩
    -- as many keys on either side leave no key of the right table over
    have keys : left.keys.Perm right.keys := by
      apply (List.subperm_of_subset left.keys_nodup included).perm_of_length_le
      rw [size, size]
      exact Nat.le_of_eq lengths.symm
    refine ⟨fun key => keys.mem_iff, fun key value value' found found' => ?_⟩
    obtain ⟨value'', found'', passed⟩ := matched key value found
    cases found'.symm.trans found''
    exact passed
  · rintro ⟨listed, tested⟩
    constructor
    · rw [← size, ← size]
      exact (keys_perm_of_listed listed).length_eq
    · rintro ⟨key, value⟩ inside
      have found : left.get? key = some value := mem_entries_iff.mp inside
      obtain ⟨value', found'⟩ := exists_get?_of_listed listed found
      dsimp only
      rw [found']
      exact tested key value value' found found'

end FirstSeen

open FirstSeen

namespace LanguageLines

/-- Two tables of languages agree when every language has the same entry in both. -/
theorem agrees_iff {left right : LanguageLines} :
    left.agrees right ↔ ∀ language, left.get? language = right.get? language := by
  unfold agrees
  rw [FirstSeen.agrees_iff]
  constructor
  · rintro ⟨listed, tested⟩ language
    cases found : left.get? language with
    | none => exact (get?_eq_none_of_listed listed found).symm
    | some lines =>
      obtain ⟨lines', found'⟩ := exists_get?_of_listed listed found
      rw [found', eq_of_beq (tested language lines lines' found found')]
  · intro same
    constructor
    · intro language
      rw [mem_keys_iff, mem_keys_iff, same]
    · intro language lines lines' found found'
      rw [same, found'] at found
      exact beq_of_eq (Option.some.inj found).symm

end LanguageLines

namespace Tally

variable {left right : Tally}

/-- Two tallies agree when they list the same directories with the same cells, and the same
totals. -/
theorem agrees_iff : left.agrees right ↔
    (∀ directory, directory ∈ left.directories.keys ↔ directory ∈ right.directories.keys) ∧
    (∀ directory cells cells', left.cells? directory = some cells →
      right.cells? directory = some cells' → ∀ language, cells.get? language = cells'.get? language) ∧
    ∀ language, left.languages.get? language = right.languages.get? language := by
  unfold agrees
  rw [Bool.and_eq_true, FirstSeen.agrees_iff, LanguageLines.agrees_iff, and_assoc]
  simp only [LanguageLines.agrees_iff]
  rfl

/-- Tallies that agree list the same directories. -/
theorem mem_keys_iff_of_agrees (agree : left.agrees right) (directory : Text) :
    directory ∈ left.directories.keys ↔ directory ∈ right.directories.keys :=
  (agrees_iff.mp agree).1 directory

/-- Tallies that agree have the same lines of each language in each directory. -/
theorem linesOf_eq_of_agrees (agree : left.agrees right) (directory language : Text) :
    left.linesOf directory language = right.linesOf directory language := by
  obtain ⟨listed, same, _⟩ := agrees_iff.mp agree
  unfold linesOf
  cases found : left.cells? directory with
  | none =>
    have found' : right.cells? directory = none := get?_eq_none_of_listed listed found
    rw [found']
  | some cells =>
    obtain ⟨cells', found'⟩ := exists_get?_of_listed listed found
    have entry := same directory cells cells' found found' language
    unfold cells? LanguageLines.linesOf
    rw [found', Option.getD_some, Option.getD_some, entry]

/-- Where the same directories are listed with the same lines, the lines of a language add up to the
same. -/
theorem cellSum_eq
    (listed : ∀ directory, directory ∈ left.directories.keys ↔ directory ∈ right.directories.keys)
    (lines : ∀ directory language, left.linesOf directory language = right.linesOf directory language)
    (language : Text) : left.cellSum language = right.cellSum language := by
  unfold cellSum
  rw [((keys_perm_of_listed listed).map _).sum_nat]
  exact congrArg List.sum (List.map_congr_left fun directory _ => lines directory language)

/-- Where the books are in order, the total of a language is the sum of its cells. -/
theorem Invariant.languageTotal_eq {tally : Tally} (invariant : tally.Invariant) (language : Text) :
    tally.languageTotal language = tally.cellSum language :=
  (invariant.byLanguage language).trans (sum_linesOf_keys tally language).symm

/-- Two tallies with their books in order agree when they list the same directories with the same
lines of each language. -/
theorem Invariant.agrees_iff (invariant : left.Invariant) (invariant' : right.Invariant) :
    left.agrees right ↔
      (∀ directory, directory ∈ left.directories.keys ↔ directory ∈ right.directories.keys) ∧
      ∀ directory language, left.linesOf directory language = right.linesOf directory language := by
  constructor
  · exact fun agree => ⟨mem_keys_iff_of_agrees agree, linesOf_eq_of_agrees agree⟩
  · rintro ⟨listed, lines⟩
    refine Tally.agrees_iff.mpr ⟨listed, fun directory cells cells' found found' language => ?_, ?_⟩
    · have positive := invariant.cells directory cells found
      have positive' := invariant'.cells directory cells' found'
      have same := lines directory language
      unfold linesOf at same
      rw [found, found'] at same
      exact (positive.get?_eq_iff positive').mpr same
    · intro language
      apply (invariant.totals.get?_eq_iff invariant'.totals).mpr
      calc
        left.languageTotal language = left.cellSum language := invariant.languageTotal_eq language
        _ = right.cellSum language := cellSum_eq listed lines language
        _ = right.languageTotal language := (invariant'.languageTotal_eq language).symm

/-- The books of a tally are in order where those of a tally that agrees with it are. -/
theorem Invariant.of_agrees (invariant : left.Invariant) (agree : left.agrees right) :
    right.Invariant := by
  obtain ⟨listed, same, totals⟩ := Tally.agrees_iff.mp agree
  have bySum : ∀ language, right.languageTotal language = right.cellSum language := by
    intro language
    have total : left.languageTotal language = right.languageTotal language := by
      unfold languageTotal LanguageLines.linesOf
      rw [totals]
    rw [← total, invariant.languageTotal_eq]
    exact cellSum_eq listed (linesOf_eq_of_agrees agree) language
  constructor
  case cells =>
    intro directory cells' found' language
    obtain ⟨cells, found⟩ :=
      exists_get?_of_listed (fun directory => (listed directory).symm) found'
    rw [← same directory cells cells' found found' language]
    exact invariant.cells directory cells found language
  case totals =>
    intro language
    rw [← totals]
    exact invariant.totals language
  case byLanguage =>
    intro language
    rw [bySum]
    exact sum_linesOf_keys right language
  case inSum => exact (total_eq_grandTotal_iff fun language _ => bySum language).mpr bySum

section Merging

variable (tally other : Tally)

/-- A merge lists the directories of both tallies. -/
theorem mem_keys_merge (directory : Text) : directory ∈ (tally.merge other).directories.keys ↔
    directory ∈ tally.directories.keys ∨ directory ∈ other.directories.keys := by
  rw [directories_merge, keys_writeAll, List.mem_eraseDups, List.mem_append]
  rfl

/-- A merge adds the lines of each language in each directory. -/
theorem linesOf_merge (directory language : Text) :
    (tally.merge other).linesOf directory language =
      tally.linesOf directory language + other.linesOf directory language := by
  unfold linesOf cells?
  rw [directories_merge, get?_writeAll, entriesOf_entries]
  cases other.directories.get? directory with
  | none => rfl
  | some cells =>
    have added := LanguageLines.linesOf_gather ((tally.directories.get? directory).getD ∅)
      cells.entries language
    rw [LanguageLines.sum_entriesOf_entries] at added
    exact added

variable {tally}

/-- Whatever is merged into a tally, its books stay in order. -/
theorem Invariant.merge (invariant : tally.Invariant) (other : Tally) :
    (tally.merge other).Invariant := by
  unfold Tally.merge
  induction other.directories.entries generalizing tally with
  | nil => exact invariant
  | cons entry entries step =>
    exact step (invariant.write entry.1 entry.2.entries
      (directories_recordDirectory tally entry.1 entry.2)
      (languages_recordDirectory tally entry.1 entry.2))

/-- A merge adds the totals of a tally with its books in order. -/
theorem languageTotal_merge (tally : Tally) {other : Tally} (invariant : other.Invariant)
    (language : Text) : (tally.merge other).languageTotal language =
      tally.languageTotal language + other.languageTotal language := by
  have added := LanguageLines.linesOf_gather tally.languages
    (other.directories.values.flatMap FirstSeen.entries) language
  rw [← languages_merge, sum_entriesOf_flatMap_entries, ← invariant.byLanguage] at added
  exact added

end Merging

end Tally

end LineCensus
