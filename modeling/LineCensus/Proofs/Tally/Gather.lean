import LineCensus.Proofs.FirstSeen
import LineCensus.Tally

/-!
# Gathering lines by language

Lines are gathered into a table of languages entry by entry, and entries without lines are left
out (`LanguageLines.gather`). Gathering adds: the lines of every language grow by those that
the entries have for it (`linesOf_gather`), the lines of all languages by all of them
(`total_gather`), and a language stays where it was first met (`keys_gather`). What was gathered
once can be gathered again elsewhere with the same effect (`gather_entries`).
-/
namespace LineCensus

/-- The sum of numbers of lines is the sum of the list. -/
theorem sumLines_eq_sum (counts : List Nat) : sumLines counts = counts.sum := rfl

namespace LanguageLines

open FirstSeen

/-- Lines added to those that a language has, if any. -/
def plus (present : Option Nat) (lines : Nat) : Nat := present.getD 0 + lines

/-- The entries that have lines. -/
def withLines (entries : List (Text × Nat)) : List (Text × Nat) :=
  entries.filter fun entry => entry.2 ≠ 0

/-- Gathers entries into a table, leaving out those without lines. -/
def gather (counts : LanguageLines) (entries : List (Text × Nat)) : LanguageLines :=
  counts.writeAll plus (withLines entries)

/-- Every language listed has lines. -/
def Positive (counts : LanguageLines) : Prop := ∀ language, counts.get? language ≠ some 0

/-- Leaving out entries without lines changes no sum. -/
theorem sum_withLines (entries : List (Text × Nat)) :
    ((withLines entries).map Prod.snd).sum = (entries.map Prod.snd).sum := by
  induction entries with
  | nil => rfl
  | cons entry entries step =>
    unfold withLines at step ⊢
    rw [List.filter_cons, List.map_cons, List.sum_cons]
    split
    · rw [List.map_cons, List.sum_cons, step]
    · next none_at_all =>
      have zero : entry.2 = 0 := by simpa using none_at_all
      rw [step, zero, Nat.zero_add]

/-- The entries with lines of a language are the entries of the language that have lines. -/
theorem entriesOf_withLines (entries : List (Text × Nat)) (language : Text) :
    (entriesOf (withLines entries) language).sum = (entriesOf entries language).sum := by
  have exchange : (withLines entries).filter (fun entry => entry.1 = language) =
      withLines (entries.filter fun entry => entry.1 = language) := by
    unfold withLines
    rw [List.filter_filter, List.filter_filter]
    simp only [Bool.and_comm]
  unfold entriesOf
  rw [exchange, sum_withLines]

/-- Lines added one after another are added up. -/
theorem foldl_plus (present : Option Nat) (numbers : List Nat) :
    (numbers.foldl (fun present lines => some (plus present lines)) present).getD 0 =
      present.getD 0 + numbers.sum := by
  induction numbers generalizing present with
  | nil => rfl
  | cons lines numbers step =>
    rw [List.foldl_cons, step, List.sum_cons, Option.getD_some]
    unfold plus
    omega

/-- Writing entries adds the lines that they have for a language. -/
theorem linesOf_writeAll (counts : LanguageLines) (entries : List (Text × Nat))
    (language : Text) :
    linesOf (counts.writeAll plus entries) language =
      counts.linesOf language + (entriesOf entries language).sum := by
  unfold linesOf
  rw [get?_writeAll, foldl_plus]

/-- Writing entries adds the lines of all of them. -/
theorem total_writeAll (counts : LanguageLines) (entries : List (Text × Nat)) :
    total (counts.writeAll plus entries) = counts.total + (entries.map Prod.snd).sum := by
  have adds : ∀ (present : Option Nat) (lines : Nat),
      id (plus present lines) = (present.map id).getD 0 + id lines := by
    intro present lines
    cases present with
    | none => rfl
    | some _ => rfl
  have sums := sum_values_writeAll id id adds counts entries
  rw [List.map_id, List.map_id] at sums
  exact sums

/-- Two lists of entries are gathered one after the other. -/
theorem gather_append (counts : LanguageLines) (front back : List (Text × Nat)) :
    counts.gather (front ++ back) = (counts.gather front).gather back := by
  unfold gather withLines
  rw [List.filter_append, writeAll_append]

/-- An entry without lines is left out. -/
@[simp] theorem gather_zero (counts : LanguageLines) (language : Text) :
    counts.gather [(language, 0)] = counts := rfl

/-- An entry with lines is added. -/
theorem gather_singleton (counts : LanguageLines) (language : Text) {lines : Nat}
    (some_lines : lines ≠ 0) :
    counts.gather [(language, lines)] = counts.add language lines := by
  unfold gather withLines
  rw [List.filter_cons_of_pos (by simpa using some_lines)]
  rfl

/-- The languages after gathering are the first occurrences of those before and of those with
lines. -/
theorem keys_gather (counts : LanguageLines) (entries : List (Text × Nat)) :
    (counts.gather entries).keys =
      (counts.keys ++ (withLines entries).map Prod.fst).eraseDups :=
  keys_writeAll plus counts _

/-- Gathering adds the lines that the entries have for a language. -/
theorem linesOf_gather (counts : LanguageLines) (entries : List (Text × Nat)) (language : Text) :
    (counts.gather entries).linesOf language =
      counts.linesOf language + (entriesOf entries language).sum := by
  unfold gather
  rw [linesOf_writeAll, entriesOf_withLines]

/-- Gathering adds the lines of all entries. -/
theorem total_gather (counts : LanguageLines) (entries : List (Text × Nat)) :
    (counts.gather entries).total = counts.total + (entries.map Prod.snd).sum := by
  rw [← sum_withLines]
  exact total_writeAll counts _

/-- Gathering lists no language without lines. -/
theorem Positive.gather {counts : LanguageLines} (positive : counts.Positive)
    (entries : List (Text × Nat)) : (counts.gather entries).Positive := by
  induction entries generalizing counts with
  | nil => exact positive
  | cons entry entries step =>
    obtain ⟨tag, lines⟩ := entry
    rw [← List.singleton_append, gather_append]
    apply step
    by_cases none_at_all : lines = 0
    · subst none_at_all
      exact positive
    · rw [gather_singleton counts tag none_at_all]
      intro language
      unfold add
      rw [get?_alter]
      split
      · intro zero
        have sum := Option.some.inj zero
        omega
      · exact positive language

/-- The table without languages lists none without lines. -/
theorem positive_empty : (∅ : LanguageLines).Positive := by
  intro language
  simp

/-- Where every language has lines, those listed are those with lines. -/
theorem Positive.mem_keys_iff {counts : LanguageLines} (positive : counts.Positive)
    {language : Text} : language ∈ counts.keys ↔ 0 < counts.linesOf language := by
  have nonzero := positive language
  rw [FirstSeen.mem_keys_iff]
  unfold linesOf
  cases found : counts.get? language with
  | none => simp
  | some lines =>
    rw [found] at nonzero
    have positive_lines : lines ≠ 0 := fun zero => nonzero (congrArg some zero)
    simp only [Option.some.injEq, exists_eq', Option.getD_some, true_iff]
    omega

/-- Where every language has lines, the lines of a language determine its entry. -/
theorem Positive.get?_eq_iff {left right : LanguageLines} (positive : left.Positive)
    (positive' : right.Positive) {language : Text} :
    left.get? language = right.get? language ↔
      left.linesOf language = right.linesOf language := by
  constructor
  · intro same
    unfold linesOf
    rw [same]
  · intro same
    have nonzero := positive language
    have nonzero' := positive' language
    unfold linesOf at same
    generalize left.get? language = found at same nonzero ⊢
    generalize right.get? language = found' at same nonzero' ⊢
    -- a language that is not listed would read like one without lines
    cases found with
    | none =>
      cases found' with
      | none => rfl
      | some lines => exact absurd (congrArg some same.symm) nonzero'
    | some lines =>
      cases found' with
      | none => exact absurd (congrArg some same) nonzero
      | some lines' => exact congrArg some same

/-- Where every language has lines, no entry is left out. -/
theorem Positive.withLines_entries {counts : LanguageLines} (positive : counts.Positive) :
    withLines counts.entries = counts.entries := by
  unfold withLines
  rw [List.filter_eq_self]
  rintro ⟨language, lines⟩ inside
  have found := mem_entries_iff.mp inside
  have nonzero : lines ≠ 0 := fun zero => positive language (zero ▸ found)
  simpa using nonzero

/-- The same goes for the entries of several tables. -/
theorem withLines_flatMap_entries {tables : List LanguageLines}
    (positive : ∀ counts ∈ tables, counts.Positive) :
    withLines (tables.flatMap FirstSeen.entries) = tables.flatMap FirstSeen.entries := by
  have kept : ∀ counts ∈ tables, withLines counts.entries = counts.entries :=
    fun counts inside => (positive counts inside).withLines_entries
  unfold withLines at kept ⊢
  rw [List.filter_flatMap]
  exact List.flatMap_congr kept

/-- The lines of a language are those of its entry. -/
theorem sum_entriesOf_entries (counts : LanguageLines) (language : Text) :
    (entriesOf counts.entries language).sum = counts.linesOf language := by
  rw [entriesOf_entries]
  unfold linesOf
  cases counts.get? language with
  | none => rfl
  | some _ => rfl

/-- Gathering what was gathered is gathering the entries themselves. -/
theorem gather_entries (counts : LanguageLines) (entries : List (Text × Nat)) :
    counts.gather ((∅ : LanguageLines).gather entries).entries = counts.gather entries := by
  have sums : ∀ (rest : List Nat) (start : Nat),
      rest.foldl (fun value lines => plus (some value) lines) start = start + rest.sum := by
    intro rest start
    have added := foldl_plus (some start) rest
    rw [foldl_write_some] at added
    exact added
  have replays : ∀ (present : Option Nat) (first : Nat) (rest : List Nat),
      plus present (rest.foldl (fun value lines => plus (some value) lines) (plus none first)) =
        rest.foldl (fun value lines => plus (some value) lines) (plus present first) := by
    intro present first rest
    rw [sums, sums]
    unfold plus
    rw [Option.getD_none]
    omega
  have positive := positive_empty.gather entries
  unfold gather at positive ⊢
  rw [positive.withLines_entries]
  exact writeAll_entries replays counts _

end LanguageLines

end LineCensus
