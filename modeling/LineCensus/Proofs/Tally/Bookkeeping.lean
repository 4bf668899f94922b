import Mathlib.Logic.Function.Basic
import LineCensus.Proofs.Tally.Sums

/-!
# Tallies keep their books

The totals of a tally repeat what its cells say, and nothing but the operations keeps the two
together. A tally that came about by listing directories and recording lines is `Recorded`;
a merge adds no third way, since it lists and records too (`Recorded.merge`). What listing and
recording preserve is `Invariant`, and it makes the books of a recorded tally agree in every
respect (`Bookkept`). Operations on any number of tallies that are merged into each other and
copied keep every one of them recorded (`Operation.apply_recorded`), so after every run all
books agree (`run_bookkept`).
-/
namespace LineCensus.Tally

open FirstSeen

/-- The tallies that listing directories and recording lines lead to. -/
inductive Recorded : Tally → Prop where
  /-- Nothing has been listed. -/
  | empty : Recorded Tally.empty
  /-- A directory has been listed. -/
  | addDirectory {tally : Tally} (before : Recorded tally) (directory : Text) :
    Recorded (tally.addDirectory directory)
  /-- Lines have been recorded. -/
  | record {tally : Tally} (before : Recorded tally) (directory language : Text) (lines : Nat) :
    Recorded (tally.record directory language lines)

/-- Whatever is merged into a recorded tally, the result is recorded. -/
theorem Recorded.merge {tally : Tally} (before : tally.Recorded) (other : Tally) :
    (tally.merge other).Recorded := by
  have cells : ∀ (directory : Text) (entries : List (Text × Nat)) (sum : Tally), sum.Recorded →
      (entries.foldl (fun sum cell => sum.record directory cell.1 cell.2) sum).Recorded := by
    intro directory entries
    induction entries with
    | nil => exact fun _ recorded => recorded
    | cons entry entries step => exact fun sum recorded => step _ (recorded.record _ _ _)
  unfold Tally.merge
  induction other.directories.entries generalizing tally with
  | nil => exact before
  | cons entry entries step => exact step (cells entry.1 _ _ (before.addDirectory entry.1))

/-- What listing directories and recording lines preserve. -/
structure Invariant (tally : Tally) : Prop where
  /-- No cell is without lines. -/
  cells : ∀ directory cells, tally.cells? directory = some cells → cells.Positive
  /-- No total is without lines. -/
  totals : tally.languages.Positive
  /-- The total of a language is what its cells add up to. -/
  byLanguage : ∀ language, tally.languageTotal language =
    (tally.directories.values.map fun cells => cells.linesOf language).sum
  /-- The totals add up to what the cells add up to. -/
  inSum : tally.languages.total = tally.grandTotal

/-- An empty tally has nothing to disagree on. -/
theorem Invariant.empty : Invariant Tally.empty where
  cells directory cells listed := by cases listed
  totals := LanguageLines.positive_empty
  byLanguage _ := rfl
  inSum := rfl

/-- Where the cells are written by a log and the totals gather the same entries, the invariant
is preserved. -/
theorem Invariant.write {tally next : Tally} (before : tally.Invariant) (directory : Text)
    (entries : List (Text × Nat))
    (cells : next.directories =
      tally.directories.alter directory fun present => gatherInto present entries)
    (totals : next.languages = tally.languages.gather entries) : next.Invariant where
  cells other found listed := by
    unfold cells? at listed
    rw [cells, get?_alter] at listed
    split at listed
    · obtain rfl := Option.some.inj listed
      unfold gatherInto
      apply LanguageLines.Positive.gather
      cases present : tally.directories.get? directory with
      | none => exact LanguageLines.positive_empty
      | some cells => exact before.cells directory cells present
    · exact before.cells other found listed
  totals := by
    rw [totals]
    exact before.totals.gather entries
  byLanguage language := by
    have log := sum_linesOf_writeAll tally.directories [(directory, entries)] language
    have total := before.byLanguage language
    unfold languageTotal at total ⊢
    rw [totals, LanguageLines.linesOf_gather, total, cells]
    simpa using log.symm
  inSum := by
    have log := sum_total_writeAll tally.directories [(directory, entries)]
    have total := before.inSum
    unfold grandTotal at total ⊢
    rw [totals, LanguageLines.total_gather, total, cells]
    simpa [sumLines_eq_sum] using log.symm

/-- The invariant holds of every recorded tally. -/
theorem Recorded.invariant {tally : Tally} (recorded : tally.Recorded) : tally.Invariant := by
  induction recorded with
  | empty => exact Invariant.empty
  | addDirectory _ directory before => exact before.write directory [] rfl rfl
  | @record tally _ directory language lines before =>
    by_cases none_at_all : lines = 0
    · subst none_at_all
      rw [record_zero]
      exact before
    · exact before.write directory [(language, lines)]
        (directories_record tally directory language none_at_all)
        (languages_record tally directory language lines)

/-- The cells of a tally determine its totals, though not their order. -/
theorem Invariant.get?_languages_eq {tally other : Tally} (invariant : tally.Invariant)
    (invariant' : other.Invariant) (same : tally.directories = other.directories)
    (language : Text) : tally.languages.get? language = other.languages.get? language := by
  rw [invariant.totals.get?_eq_iff invariant'.totals]
  have total := invariant.byLanguage language
  rw [same, ← invariant'.byLanguage language] at total
  exact total

/-- The books of a tally agree. -/
structure Bookkept (tally : Tally) : Prop where
  /-- No directory is listed twice. -/
  directories_once : tally.directories.keys.Nodup
  /-- No language has two totals. -/
  totals_once : tally.languages.keys.Nodup
  /-- No language has two cells in a directory. -/
  cells_once : ∀ directory cells, tally.cells? directory = some cells → cells.keys.Nodup
  /-- Every cell is positive. -/
  cells_positive : ∀ directory cells language lines, tally.cells? directory = some cells →
    cells.get? language = some lines → 0 < lines
  /-- A language has a total exactly when some directory has a cell for it. -/
  totals_listed : ∀ language, language ∈ tally.languages.keys ↔
    ∃ directory cells, tally.cells? directory = some cells ∧ language ∈ cells.keys
  /-- The total of a language is the sum of its lines over all directories. -/
  languageTotal_eq : ∀ language, tally.languageTotal language =
    (tally.directories.keys.map fun directory => tally.linesOf directory language).sum
  /-- The lines of all directories are the sum of the lines of each. -/
  grandTotal_eq_directories : tally.grandTotal =
    (tally.directories.keys.map tally.directoryTotal).sum
  /-- The lines of all directories are the sum of the totals. -/
  grandTotal_eq_languages : tally.grandTotal = tally.languages.values.sum
  /-- The check finds no difference. -/
  check_ok : tally.check = .ok ()

/-- A language has a total exactly when some directory has a cell for it. -/
theorem Invariant.mem_languages_iff {tally : Tally} (invariant : tally.Invariant)
    {language : Text} : language ∈ tally.languages.keys ↔
      ∃ directory cells, tally.cells? directory = some cells ∧ language ∈ cells.keys := by
  have total := invariant.byLanguage language
  unfold languageTotal at total
  rw [invariant.totals.mem_keys_iff, total, List.sum_pos_iff_exists_pos_nat]
  constructor
  · rintro ⟨lines, inside, positive⟩
    obtain ⟨cells, listed, rfl⟩ := List.mem_map.mp inside
    obtain ⟨⟨directory, _⟩, entry, rfl⟩ := List.mem_map.mp listed
    have found : tally.cells? directory = some _ := mem_entries_iff.mp entry
    exact ⟨directory, _, found, (invariant.cells _ _ found).mem_keys_iff.mpr positive⟩
  · rintro ⟨directory, cells, found, inside⟩
    have entry : (directory, cells) ∈ tally.directories.entries := mem_entries_iff.mpr found
    have listed : cells ∈ tally.directories.values := List.mem_map.mpr ⟨_, entry, rfl⟩
    exact ⟨_, List.mem_map.mpr ⟨cells, listed, rfl⟩,
      (invariant.cells _ _ found).mem_keys_iff.mp inside⟩

/-- The books of a recorded tally agree. -/
theorem Recorded.bookkept {tally : Tally} (recorded : tally.Recorded) : tally.Bookkept where
  directories_once := tally.directories.keys_nodup
  totals_once := tally.languages.keys_nodup
  cells_once _ cells _ := cells.keys_nodup
  cells_positive directory cells language lines found cell := by
    have positive := recorded.invariant.cells directory cells found language
    rw [cell] at positive
    have nonzero : lines ≠ 0 := fun zero => positive (congrArg some zero)
    omega
  totals_listed _ := recorded.invariant.mem_languages_iff
  languageTotal_eq language := by
    rw [sum_linesOf_keys]
    exact recorded.invariant.byLanguage language
  grandTotal_eq_directories := (sum_directoryTotal_keys tally).symm
  grandTotal_eq_languages := recorded.invariant.inSum.symm
  check_ok := check_eq_ok recorded.invariant.byLanguage recorded.invariant.inSum

/-- An operation on tallies that go by names. -/
inductive Operation (ι : Type) where
  /-- Lists a directory in a tally. -/
  | addDirectory (target : ι) (directory : Text)
  /-- Records lines in a tally. -/
  | record (target : ι) (directory language : Text) (lines : Nat)
  /-- Merges one tally into another, or into itself. -/
  | merge (target source : ι)
  /-- Puts a copy of one tally in the place of another. -/
  | copy (target source : ι)

namespace Operation

variable {ι : Type} [DecidableEq ι]

/-- What an operation does to the tallies. -/
def apply (tallies : ι → Tally) : Operation ι → ι → Tally
  | addDirectory target directory =>
    Function.update tallies target ((tallies target).addDirectory directory)
  | record target directory language lines =>
    Function.update tallies target ((tallies target).record directory language lines)
  | merge target source =>
    Function.update tallies target ((tallies target).merge (tallies source))
  | copy target source => Function.update tallies target (tallies source)

/-- An operation leaves every tally recorded. -/
theorem apply_recorded {tallies : ι → Tally} (before : ∀ name, (tallies name).Recorded)
    (operation : Operation ι) (name : ι) : (operation.apply tallies name).Recorded := by
  have update : ∀ (target : ι) (next : Tally), next.Recorded →
      (Function.update tallies target next name).Recorded := by
    intro target next recorded
    by_cases same : name = target
    · subst same
      rwa [Function.update_self]
    · rw [Function.update_of_ne same]
      exact before name
  cases operation with
  | addDirectory target directory => exact update _ _ ((before target).addDirectory directory)
  | record target directory language lines =>
    exact update _ _ ((before target).record directory language lines)
  | merge target source => exact update _ _ ((before target).merge (tallies source))
  | copy target source => exact update _ _ (before source)

/-- The tallies after a run of operations, where all are empty before it. -/
def run (operations : List (Operation ι)) : ι → Tally :=
  operations.foldl apply fun _ => Tally.empty

/-- After a run every tally is recorded. -/
theorem run_recorded (operations : List (Operation ι)) (name : ι) :
    (run operations name).Recorded := by
  have steps : ∀ tallies : ι → Tally, (∀ name, (tallies name).Recorded) →
      ∀ name, (operations.foldl apply tallies name).Recorded := by
    induction operations with
    | nil => exact fun _ before => before
    | cons operation operations step =>
      exact fun tallies before => step _ (apply_recorded before operation)
  exact steps _ (fun _ => Recorded.empty) name

/-- After every run of operations on any number of tallies the books of every tally agree. -/
theorem run_bookkept (operations : List (Operation ι)) (name : ι) :
    (run operations name).Bookkept :=
  (run_recorded operations name).bookkept

end Operation

end LineCensus.Tally
