import Mathlib.Data.List.Induction
import LineCensus.Proofs.Tally.Gather

/-!
# The cells and the totals of a tally, apart

An operation on a tally writes its cells and its totals independently of each other, and what
it writes is read from cells only: a merge writes the cells of the other tally directory by
directory, and gathers the same cells into the totals (`directories_merge`, `languages_merge`).

The cells that a log leaves are its tabulation (`Tally.tabulate`). Merging a tally whose cells
are the tabulation of a log does to the cells what the log does (`directories_merge_tabulate`).
The totals have no such law: their order depends on how the log is cut into tallies.
-/
namespace LineCensus

namespace Tally

open FirstSeen

/-- Gathers entries into the cells that a directory has, if it is listed. -/
def gatherInto (present : Option LanguageLines) (entries : List (Text × Nat)) : LanguageLines :=
  (present.getD ∅).gather entries

/-- Gathers the cells of another table into those that a directory has, if it is listed. -/
def mergeInto (present : Option LanguageLines) (cells : LanguageLines) : LanguageLines :=
  gatherInto present cells.entries

/-- The cells that a log of directories with their lines leaves. -/
def tabulate (log : List (Text × List (Text × Nat))) : FirstSeen Text LanguageLines :=
  (∅ : FirstSeen Text LanguageLines).writeAll gatherInto log

/-- Recording lines gathers them into the totals. -/
theorem languages_record (tally : Tally) (directory language : Text) (lines : Nat) :
    (tally.record directory language lines).languages =
      tally.languages.gather [(language, lines)] := by
  unfold record
  split
  · next none_at_all =>
    subst none_at_all
    rw [LanguageLines.gather_zero]
  · next some_lines => rw [LanguageLines.gather_singleton _ _ some_lines]

/-- Recording lines gathers them into the cells of the directory. -/
theorem directories_record (tally : Tally) (directory language : Text) {lines : Nat}
    (some_lines : lines ≠ 0) :
    (tally.record directory language lines).directories =
      tally.directories.alter directory fun present => gatherInto present [(language, lines)] := by
  unfold record gatherInto
  simp only [if_neg some_lines, LanguageLines.gather_singleton _ _ some_lines]

/-- Recording cells gathers them into the totals. -/
theorem languages_recordDirectory (tally : Tally) (directory : Text) (cells : LanguageLines) :
    (tally.recordDirectory directory cells).languages = tally.languages.gather cells.entries := by
  have run : ∀ (entries : List (Text × Nat)) (sum : Tally),
      (entries.foldl (fun sum cell => sum.record directory cell.1 cell.2) sum).languages =
        sum.languages.gather entries := by
    intro entries
    induction entries with
    | nil => exact fun _ => rfl
    | cons entry entries step =>
      intro sum
      rw [List.foldl_cons, step, languages_record, ← LanguageLines.gather_append,
        List.singleton_append]
  exact run cells.entries (tally.addDirectory directory)

/-- Recording cells gathers them into those of the directory, which is listed even without
any. -/
theorem directories_recordDirectory (tally : Tally) (directory : Text) (cells : LanguageLines) :
    (tally.recordDirectory directory cells).directories =
      tally.directories.alter directory fun present => mergeInto present cells := by
  unfold recordDirectory mergeInto
  induction cells.entries using List.reverseRecOn with
  | nil => rfl
  | append_singleton entries entry step =>
    obtain ⟨language, lines⟩ := entry
    have split : ∀ present, gatherInto present (entries ++ [(language, lines)]) =
        gatherInto (some (gatherInto present entries)) [(language, lines)] := fun present =>
      LanguageLines.gather_append _ _ _
    rw [List.foldl_append, List.foldl_cons, List.foldl_nil]
    simp only [split]
    by_cases none_at_all : lines = 0
    · subst none_at_all
      rw [record_zero, step]
      rfl
    · rw [directories_record _ _ _ none_at_all, step, alter_alter]

/-- A merge writes the cells of the other tally directory by directory. -/
theorem directories_merge (tally other : Tally) :
    (tally.merge other).directories =
      tally.directories.writeAll mergeInto other.directories.entries := by
  unfold merge
  induction other.directories.entries generalizing tally with
  | nil => rfl
  | cons entry entries step =>
    rw [List.foldl_cons, step, directories_recordDirectory, writeAll_cons]

/-- A merge gathers the cells of the other tally into the totals. -/
theorem languages_merge (tally other : Tally) :
    (tally.merge other).languages =
      tally.languages.gather (other.directories.values.flatMap FirstSeen.entries) := by
  unfold merge values
  induction other.directories.entries generalizing tally with
  | nil => rfl
  | cons entry entries step =>
    rw [List.foldl_cons, step, languages_recordDirectory, ← LanguageLines.gather_append,
      List.map_cons, List.flatMap_cons]

/-- Gathering lists of lines one after another is gathering them together. -/
theorem foldl_gatherInto (present : Option LanguageLines) (batches : List (List (Text × Nat))) :
    (batches.foldl (fun present entries => some (gatherInto present entries)) present).getD ∅ =
      (present.getD ∅).gather batches.flatten := by
  induction batches generalizing present with
  | nil => rfl
  | cons entries batches step =>
    rw [List.foldl_cons, step, List.flatten_cons, LanguageLines.gather_append]
    rfl

/-- Merging a tally does to the cells what a log that leaves its cells does. -/
theorem directories_merge_tabulate (tally : Tally) {other : Tally}
    {log : List (Text × List (Text × Nat))} (tabulated : other.directories = tabulate log) :
    (tally.merge other).directories = tally.directories.writeAll gatherInto log := by
  have gathered : ∀ (batches : List (List (Text × Nat))) (cells : LanguageLines),
      batches.foldl (fun cells entries => gatherInto (some cells) entries) cells =
        cells.gather batches.flatten := by
    intro batches cells
    have together := foldl_gatherInto (some cells) batches
    rw [foldl_write_some] at together
    exact together
  rw [directories_merge, tabulated]
  apply writeAll_entries
  intro present first rest
  rw [gathered, gathered]
  unfold mergeInto gatherInto
  rw [← LanguageLines.gather_append, ← LanguageLines.gather_append, Option.getD_none,
    LanguageLines.gather_entries]

/-- Merging tallies one after another does to the cells what logs that leave their cells do,
one after another. -/
theorem directories_foldl_merge {α : Type} {tallyOf : α → Tally}
    {logOf : α → List (Text × List (Text × Nat))} {items : List α}
    (tabulated : ∀ item ∈ items, (tallyOf item).directories = tabulate (logOf item))
    (tally : Tally) :
    ((items.map tallyOf).foldl merge tally).directories =
      tally.directories.writeAll gatherInto (items.flatMap logOf) := by
  induction items generalizing tally with
  | nil => rfl
  | cons item items step =>
    have first := tabulated item List.mem_cons_self
    have rest : ∀ later ∈ items, (tallyOf later).directories = tabulate (logOf later) :=
      fun later inside => tabulated later (List.mem_cons_of_mem _ inside)
    rw [List.map_cons, List.foldl_cons, step rest, directories_merge_tabulate tally first,
      List.flatMap_cons, writeAll_append]

/-- The keys of a tabulation are the directories of the log in the order of their first
entries. -/
theorem keys_tabulate (log : List (Text × List (Text × Nat))) :
    (tabulate log).keys = (log.map Prod.fst).eraseDups :=
  keys_writeAll gatherInto ∅ log

/-- The cells of a directory in a tabulation gather the entries of the directory. -/
theorem get?_tabulate (log : List (Text × List (Text × Nat))) (directory : Text) :
    ((tabulate log).get? directory).getD ∅ =
      (∅ : LanguageLines).gather (entriesOf log directory).flatten := by
  unfold tabulate
  rw [get?_writeAll, foldl_gatherInto, get?_empty, Option.getD_none]

end Tally

end LineCensus
