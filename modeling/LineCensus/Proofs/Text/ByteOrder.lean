import Mathlib.Data.List.Sort
import LineCensus.Text.Utf8

/-!
# The order of bytes

Bytes are compared like words in a dictionary, and this is the order of lists of bytes
(`Bytes.atMost_iff_le`). Items that are sorted by bytes are ascending without ties where no two of
them have the same bytes (`Bytes.pairwise_mergeSort`).
-/
namespace LineCensus

namespace Bytes

/-- Dictionary order is the order of lists of bytes. -/
theorem atMost_iff_le {left right : Bytes} : left.atMost right ↔ left ≤ right := by
  induction left generalizing right with
  | nil =>
    unfold atMost
    exact iff_of_true rfl (List.nil_le right)
  | cons first lefts step =>
    cases right with
    | nil =>
      unfold atMost
      exact iff_of_false Bool.false_ne_true (List.not_le.mpr (List.nil_lt_cons first lefts))
    | cons second rights =>
      unfold atMost
      rw [List.cons_le_cons_iff, UInt8.lt_iff_toNat_lt]
      split
      · next same => rw [step, same, and_iff_right rfl, or_iff_right (lt_irrefl second.toNat)]
      · next differ => simp [differ]

/-- Dictionary order is transitive. -/
theorem atMost_trans {left middle right : Bytes} (front : left.atMost middle)
    (back : middle.atMost right) : left.atMost right :=
  atMost_iff_le.mpr (List.le_trans (atMost_iff_le.mp front) (atMost_iff_le.mp back))

/-- Dictionary order compares any two byte sequences. -/
theorem atMost_total (left right : Bytes) : left.atMost right || right.atMost left := by
  rw [Bool.or_eq_true, atMost_iff_le, atMost_iff_le]
  exact List.le_total left right

/-- Items with different bytes are ascending when they are sorted by them. -/
theorem pairwise_mergeSort {α : Type} (bytesOf : α → Bytes) {items : List α}
    (distinct : (items.map bytesOf).Nodup) :
    (items.mergeSort fun left right => (bytesOf left).atMost (bytesOf right)).Pairwise
      fun left right => bytesOf left < bytesOf right := by
  let before : α → α → Bool := fun left right => (bytesOf left).atMost (bytesOf right)
  have sorted : (items.mergeSort before).Pairwise fun left right => before left right := by
    apply List.pairwise_mergeSort
    · exact fun _ _ _ => atMost_trans
    · exact fun _ _ => atMost_total _ _
  have differ : (items.mergeSort before).Pairwise fun left right =>
      bytesOf left ≠ bytesOf right := by
    have same := (List.mergeSort_perm items before).map bytesOf
    exact List.pairwise_map.mp (same.nodup_iff.mpr distinct)
  refine (sorted.and differ).imp fun both => ?_
  exact Std.lt_of_le_of_ne (atMost_iff_le.mp both.1) both.2

end Bytes

end LineCensus
