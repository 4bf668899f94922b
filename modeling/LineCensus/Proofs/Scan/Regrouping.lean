import LineCensus.Proofs.Scan.Schedule
import LineCensus.Proofs.Tally.Agreement

/-!
# Tallies merged in any order

Where the order in which tallies list things is left out, merging is the operation of a commutative
monoid. The tallies are recorded ones, as every tally is that a run of operations leaves
(`Tally.Operation.run_recorded`). Their books are in order, so each is known by its directories and
by the lines of each language in them, and a schedule of merges adds the lines of its tallies and
lists the directories of all of them (`MergeSchedule.linesOf_result`,
`MergeSchedule.mem_keys_result`). Neither depends on the order of the tallies or on the brackets
around them (`MergeSchedule.agrees_result_of_perm`), and the laws of the monoid are the least cases
of this (`MergeSchedule.mergeLaws_of_recorded`).
-/
namespace LineCensus

/-- The laws of merging three tallies, where tallies that agree count as the same. -/
structure Tally.MergeLaws (first second third : Tally) : Prop where
  /-- A merge adds the lines of each language in each directory. -/
  linesOf_eq : ∀ directory language, (first.merge second).linesOf directory language =
    first.linesOf directory language + second.linesOf directory language
  /-- It adds the total of each language. -/
  languageTotal_eq : ∀ language, (first.merge second).languageTotal language =
    first.languageTotal language + second.languageTotal language
  /-- It lists the directories of both, also those without lines. -/
  listed_iff : ∀ directory, directory ∈ (first.merge second).directories.keys ↔
    directory ∈ first.directories.keys ∨ directory ∈ second.directories.keys
  /-- Either of two tallies can be merged into the other. -/
  comm : (first.merge second).agrees (second.merge first)
  /-- Of three tallies, the last two can be merged first. -/
  assoc : ((first.merge second).merge third).agrees (first.merge (second.merge third))
  /-- Merging nothing changes nothing. -/
  merge_empty : (first.merge empty).agrees first
  /-- Merging into nothing changes nothing. -/
  empty_merge : (empty.merge first).agrees first
  /-- Tallies that agree can be merged in each other's place. -/
  congr : ∀ first' second' : Tally, first.agrees first' → second.agrees second' →
    (first.merge second).agrees (first'.merge second')

/-- Tallies that agree with tallies whose books are in order can be merged in their place. -/
theorem Tally.Invariant.merge_agrees {first second first' second' : Tally}
    (invariant : first.Invariant) (agree : first.agrees first') (agree' : second.agrees second') :
    (first.merge second).agrees (first'.merge second') := by
  have merged := invariant.merge second
  have merged' := (invariant.of_agrees agree).merge second'
  rw [merged.agrees_iff merged']
  constructor
  · intro directory
    rw [mem_keys_merge, mem_keys_merge, mem_keys_iff_of_agrees agree, mem_keys_iff_of_agrees agree']
  · intro directory language
    rw [linesOf_merge, linesOf_merge, linesOf_eq_of_agrees agree, linesOf_eq_of_agrees agree']

/-- The tally of a file is recorded. -/
theorem FileTree.tallyFile_recorded (tree : FileTree) (file : SourceFile) :
    (tree.tallyFile file).Recorded := by
  rw [tallyFile_eq_single]
  exact (Tally.Recorded.empty.addDirectory _).record _ _ _

namespace MergeSchedule

/-- Recorded tallies are merged to a recorded tally. -/
theorem result_recorded (schedule : MergeSchedule)
    (recorded : ∀ tally ∈ schedule.leaves, tally.Recorded) : schedule.result.Recorded := by
  induction schedule with
  | empty => exact .empty
  | leaf tally => exact recorded tally List.mem_cons_self
  | node left right stepLeft _ =>
    exact (stepLeft fun tally inside => recorded tally (List.mem_append_left _ inside)).merge _

/-- The result has of each language in each directory the lines of all merged tallies. -/
theorem linesOf_result (schedule : MergeSchedule) (directory language : Text) :
    schedule.result.linesOf directory language =
      (schedule.leaves.map fun tally => tally.linesOf directory language).sum := by
  induction schedule with
  | empty => rfl
  | leaf tally => exact (Nat.add_zero _).symm
  | node left right stepLeft stepRight =>
    unfold result leaves
    rw [Tally.linesOf_merge, stepLeft, stepRight, List.map_append, List.sum_append]

/-- The result lists the directories of all merged tallies. -/
theorem mem_keys_result (schedule : MergeSchedule) (directory : Text) :
    directory ∈ schedule.result.directories.keys ↔
      ∃ tally ∈ schedule.leaves, directory ∈ tally.directories.keys := by
  induction schedule with
  | empty => simp [result, leaves, Tally.empty]
  | leaf tally => simp [result, leaves]
  | node left right stepLeft stepRight =>
    unfold result leaves
    rw [Tally.mem_keys_merge, stepLeft, stepRight]
    simp only [List.mem_append, or_and_right, exists_or]

/-- Recorded tallies are merged to tallies that agree, in any order and any brackets. -/
theorem agrees_result_of_perm (schedule other : MergeSchedule)
    (recorded : ∀ tally ∈ schedule.leaves, tally.Recorded)
    (same : schedule.leaves.Perm other.leaves) : schedule.result.agrees other.result := by
  have invariant := (schedule.result_recorded recorded).invariant
  have invariant' := (other.result_recorded fun tally inside =>
    recorded tally (same.mem_iff.mpr inside)).invariant
  rw [invariant.agrees_iff invariant']
  constructor
  · intro directory
    rw [mem_keys_result, mem_keys_result]
    simp only [same.mem_iff]
  · intro directory language
    rw [linesOf_result, linesOf_result]
    exact (same.map _).sum_nat

/-- Recorded tallies are a commutative monoid under merging, where tallies that agree count as the
same. The tally of a file is recorded, and recorded tallies are merged to tallies that agree, in any
order and any brackets and with tallies without directories anywhere in between. -/
theorem mergeLaws_of_recorded {first second third : Tally} (recorded : first.Recorded)
    (recorded' : second.Recorded) (recorded'' : third.Recorded) :
    Tally.MergeLaws first second third ∧
    (∀ (tree : FileTree) (file : SourceFile), (tree.tallyFile file).Recorded) ∧
    ∀ schedule other : MergeSchedule, (∀ tally ∈ schedule.leaves, tally.Recorded) →
      schedule.leaves.Perm other.leaves → schedule.result.agrees other.result := by
  have leaves : ∀ tally ∈ [first, second, third], tally.Recorded := by
    simp only [List.forall_mem_cons, List.not_mem_nil, false_implies, implies_true, and_true]
    exact ⟨recorded, recorded', recorded''⟩
  have two : ∀ tally ∈ [first, second], tally.Recorded := fun tally inside =>
    leaves tally (List.mem_append_left [third] inside)
  have one : ∀ tally ∈ [first], tally.Recorded := fun tally inside =>
    leaves tally (List.mem_append_left [second, third] inside)
  refine ⟨?_, FileTree.tallyFile_recorded, agrees_result_of_perm⟩
  constructor
  case linesOf_eq => exact Tally.linesOf_merge first second
  case languageTotal_eq => exact Tally.languageTotal_merge first recorded'.invariant
  case listed_iff => exact Tally.mem_keys_merge first second
  case comm =>
    exact agrees_result_of_perm (node (leaf first) (leaf second)) (node (leaf second) (leaf first))
      two (.swap _ _ _)
  case assoc =>
    exact agrees_result_of_perm (node (node (leaf first) (leaf second)) (leaf third))
      (node (leaf first) (node (leaf second) (leaf third))) leaves (.refl _)
  case merge_empty =>
    exact agrees_result_of_perm (node (leaf first) empty) (leaf first) one (.refl _)
  case empty_merge =>
    exact agrees_result_of_perm (node empty (leaf first)) (leaf first) one (.refl _)
  case congr => exact fun _ _ => recorded.invariant.merge_agrees

/-- A tally with a directory without lines. -/
def withoutDocs : Tally :=
  (Tally.empty.addDirectory "docs".toList).record "src".toList "rs".toList 3

/-- A tally that meets another language first. -/
def otherFirst : Tally :=
  (Tally.empty.record "src".toList "c".toList 2).record "src".toList "rs".toList 4

/-- Either of these tallies can be merged into the other. The results list directories and languages
in different orders, and agree. -/
theorem mergeLaws_of_recorded_withoutDocs :
    withoutDocs.Recorded ∧ otherFirst.Recorded ∧
      withoutDocs.merge otherFirst ≠ otherFirst.merge withoutDocs ∧
      Tally.MergeLaws withoutDocs otherFirst withoutDocs ∧
      (node (leaf withoutDocs) (node (leaf otherFirst) (leaf withoutDocs))).result.agrees
        (node (node (leaf withoutDocs) empty) (node (leaf withoutDocs) (leaf otherFirst))).result := by
  have recorded : withoutDocs.Recorded := (Tally.Recorded.empty.addDirectory _).record _ _ _
  have recorded' : otherFirst.Recorded := (Tally.Recorded.empty.record _ _ _).record _ _ _
  have laws := mergeLaws_of_recorded recorded recorded' recorded
  have leaves : ∀ tally ∈ [withoutDocs, otherFirst, withoutDocs], tally.Recorded := by
    simp only [List.forall_mem_cons, List.not_mem_nil, false_implies, implies_true, and_true]
    exact ⟨recorded, recorded', recorded⟩
  exact ⟨recorded, recorded', by decide, laws.1, laws.2.2 _ _ leaves (.cons _ (.swap _ _ _))⟩

end MergeSchedule

end LineCensus
